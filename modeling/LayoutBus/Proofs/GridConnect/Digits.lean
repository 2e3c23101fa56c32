import LayoutBus.GridConnect.Text
import Mathlib.Algebra.Group.Nat.Defs
import Mathlib.Data.List.Induction

/-!
# Digits and the numbers they spell

A run of hexadecimal digits spells a number, and a run of pairs of digits spells bytes, in either
case of the letters.  To write what a run spells is to write the run in upper case.

* `Hex.upper_eq` : upper case.
* `GridConnect.digits_numberOf` and `GridConnect.numberOf_digits` : numbers.
* `GridConnect.ofBytes_bytesOf` and `GridConnect.bytesOf_ofBytes` : bytes.
-/

namespace LayoutBus

namespace Hex

variable {b : UInt8} {v : Nat}

theorem value?_lt (h : value? b = some v) : v < 16 := by
  unfold value? at h
  simp only at h
  split_ifs at h <;> cases h <;> omega

theorem upper_of_value? (h : value? b = some v) : upper b = digit v := by
  unfold upper
  rw [h]

theorem isDigit_iff : isDigit b = true ↔ ∃ v, value? b = some v := Option.isSome_iff_exists

/-- Only the letters in lower case change. -/
theorem upper_eq (b : UInt8) :
    upper b = if 0x61 ≤ b.toNat ∧ b.toNat ≤ 0x66 then b - 0x20 else b := by
  have h : ∀ n : Fin 256, upper (UInt8.ofNat n) =
      if 0x61 ≤ n.val ∧ n.val ≤ 0x66 then UInt8.ofNat n - 0x20 else UInt8.ofNat n := by
    decide +kernel
  have hb := h ⟨b.toNat, b.toNat_lt⟩
  rwa [UInt8.ofNat_toNat] at hb

/-- A byte from the values of its two digits. -/
theorem digits_of_byte {h l : Nat} (hh : h < 16) (hl : l < 16) :
    digit ((UInt8.ofNat (h * 16 + l)).toNat / 16) = digit h ∧
      digit (UInt8.ofNat (h * 16 + l)).toNat = digit l := by
  have hbyte : (UInt8.ofNat (h * 16 + l)).toNat = h * 16 + l := by
    rw [UInt8.toNat_ofNat']
    omega
  rw [hbyte, ← digit_mod (h * 16 + l)]
  constructor
  · rw [show (h * 16 + l) / 16 = h by omega]
  · rw [show (h * 16 + l) % 16 = l by omega]

end Hex

namespace GridConnect

open Hex

variable {ds : List UInt8} {b : UInt8} {v : Nat}

/-! ### Numbers -/

@[simp] theorem numberOf_nil : numberOf [] = 0 := rfl

@[simp] theorem numberOf_concat (ds : List UInt8) (b : UInt8) :
    numberOf (ds ++ [b]) = numberOf ds * 16 + (value? b).getD 0 := List.foldl_append

/-- A number that is written in `k` digits and read again. -/
theorem numberOf_digits (k n : Nat) : numberOf (digits k n) = n % 16 ^ k := by
  induction k generalizing n with
  | zero => rw [digits, numberOf_nil, pow_zero, Nat.mod_one]
  | succ k ih =>
    rw [digits, numberOf_concat, ih, value?_digit, Option.getD_some, pow_succ', Nat.mod_mul,
      Nat.mul_comm, Nat.add_comm]

/-- A number that is read and written again. -/
theorem digits_numberOf (hds : ∀ b ∈ ds, isDigit b = true) :
    digits ds.length (numberOf ds) = ds.map upper := by
  induction ds using List.reverseRecOn with
  | nil => rfl
  | append_singleton ds b ih =>
    obtain ⟨v, hv⟩ := isDigit_iff.1 (hds b (by simp))
    have hlt := value?_lt hv
    have ih := ih fun c hc => hds c (List.mem_append_left _ hc)
    rw [List.length_append, List.length_singleton, digits, numberOf_concat, hv, Option.getD_some,
      show (numberOf ds * 16 + v) / 16 = numberOf ds by omega, ih, ← digit_mod,
      show (numberOf ds * 16 + v) % 16 = v by omega, List.map_append, List.map_singleton,
      upper_of_value? hv]

/-! ### Bytes -/

theorem length_bytesOf (ds : List UInt8) : (bytesOf ds).length = ds.length / 2 := by
  induction ds using bytesOf.induct with
  | case1 high low rest ih =>
    rw [bytesOf, List.length_cons, ih, List.length_cons, List.length_cons]
    omega
  | case2 ds hds =>
    match ds, hds with
    | [], _ => rfl
    | [_], _ => simp [bytesOf]
    | high :: low :: rest, hds => exact absurd rfl (hds high low rest)

/-- Bytes that are written and read again. -/
theorem bytesOf_ofBytes (bytes : List UInt8) : bytesOf (ofBytes bytes) = bytes := by
  induction bytes with
  | nil => rfl
  | cons b bytes ih =>
    have hb := b.toNat_lt
    have hbyte : numberOf [digit (b.toNat / 16), digit b.toNat] = b.toNat := by
      rw [show [digit (b.toNat / 16), digit b.toNat] = digits 2 b.toNat from rfl, numberOf_digits]
      omega
    show UInt8.ofNat (numberOf [digit (b.toNat / 16), digit b.toNat]) :: bytesOf (ofBytes bytes) = _
    rw [hbyte, ih, UInt8.ofNat_toNat]

/-- Bytes that are read and written again. -/
theorem ofBytes_bytesOf (heven : ds.length % 2 = 0) (hds : ∀ b ∈ ds, isDigit b = true) :
    ofBytes (bytesOf ds) = ds.map upper := by
  induction ds using bytesOf.induct with
  | case1 high low rest ih =>
    obtain ⟨h, hh⟩ := isDigit_iff.1 (hds high (by simp))
    obtain ⟨l, hl⟩ := isDigit_iff.1 (hds low (by simp))
    obtain ⟨hhigh, hlow⟩ := digits_of_byte (value?_lt hh) (value?_lt hl)
    have hrest : rest.length % 2 = 0 := by
      rw [List.length_cons, List.length_cons] at heven
      omega
    have ih := ih hrest fun c hc => hds c (by simp [hc])
    have hnum : numberOf [high, low] = h * 16 + l := by simp [numberOf, hh, hl]
    show [digit ((UInt8.ofNat (numberOf [high, low])).toNat / 16),
      digit (UInt8.ofNat (numberOf [high, low])).toNat] ++ ofBytes (bytesOf rest) = _
    rw [hnum, hhigh, hlow, ih, List.map_cons, List.map_cons, upper_of_value? hh, upper_of_value? hl]
    rfl
  | case2 ds hne =>
    match ds, hne with
    | [], _ => rfl
    | [_], _ => simp at heven
    | high :: low :: rest, hne => exact absurd rfl (hne high low rest)

end GridConnect

end LayoutBus
