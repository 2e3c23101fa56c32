/-!
# Hexadecimal digits

Digits are ASCII bytes.  They are written in upper case and read in either case.

* `Hex.digits k n` writes the low `k` digits of `n`, `Hex.ofBytes` two digits for each byte.
* `Hex.value?` reads one digit; `Hex.value?_digit` says that a written digit reads back.
* `Hex.upper` turns digits into the ones that are written.
-/

namespace LayoutBus.Hex

/-- The digit of the last four bits of `n`. -/
def digit (n : Nat) : UInt8 :=
  if n % 16 < 10 then UInt8.ofNat (0x30 + n % 16) else UInt8.ofNat (0x41 + (n % 16 - 10))

/-- The value of a digit of either case; `none` for any other byte. -/
def value? (b : UInt8) : Option Nat :=
  let c := b.toNat
  if 0x30 ≤ c ∧ c ≤ 0x39 then some (c - 0x30)
  else if 0x61 ≤ c ∧ c ≤ 0x66 then some (c - 0x61 + 10)
  else if 0x41 ≤ c ∧ c ≤ 0x46 then some (c - 0x41 + 10)
  else none

/-- The byte is a digit. -/
def isDigit (b : UInt8) : Bool := (value? b).isSome

/-- A digit as it is written; any other byte stays. -/
def upper (b : UInt8) : UInt8 :=
  match value? b with
  | some v => digit v
  | none => b

/-- The low `k` digits of `n`, the most significant first. -/
def digits : Nat → Nat → List UInt8
  | 0, _ => []
  | k + 1, n => digits k (n / 16) ++ [digit n]

/-- Two digits for each byte. -/
def ofBytes (bytes : List UInt8) : List UInt8 :=
  bytes.flatMap fun b => [digit (b.toNat / 16), digit b.toNat]

@[simp] theorem length_digits (k n : Nat) : (digits k n).length = k := by
  induction k generalizing n with
  | zero => rfl
  | succ k ih => simp [digits, ih]

@[simp] theorem length_ofBytes (bytes : List UInt8) : (ofBytes bytes).length = 2 * bytes.length := by
  induction bytes with
  | nil => rfl
  | cons b bytes ih =>
    simp only [ofBytes, List.flatMap_cons, List.length_append, List.length_cons,
      List.length_nil] at ih ⊢
    omega

theorem digit_mod (n : Nat) : digit (n % 16) = digit n := by simp [digit]

theorem value?_digit (n : Nat) : value? (digit n) = some (n % 16) := by
  rw [← digit_mod]
  have h : ∀ d : Fin 16, value? (digit d) = some d.val := by decide
  exact h ⟨n % 16, Nat.mod_lt n (by decide)⟩

@[simp] theorem isDigit_digit (n : Nat) : isDigit (digit n) = true := by
  simp [isDigit, value?_digit]

end LayoutBus.Hex
