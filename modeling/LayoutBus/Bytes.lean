/-!
# Numbers in bytes

Numbers travel with their most significant byte first.

* `BigEndian.encode k n` writes the low `k` bytes of `n`; `BigEndian.decode` reads any bytes.
* `BigEndian.decode_encode`: reading what was written gives the number back, reduced modulo the
  number of texts of that length, `BigEndian.span k`.
* `BigEndian.readAt` reads a field of fixed width, if it lies inside the bytes;
  `BigEndian.readAt_encode`: it reads what was written there.
-/

namespace LayoutBus.BigEndian

/-- The low `k` bytes of `n`, the most significant first. -/
def encode : Nat → Nat → List UInt8
  | 0, _ => []
  | k + 1, n => encode k (n / 256) ++ [UInt8.ofNat n]

/-- How many numbers `k` bytes can write. -/
def span : Nat → Nat
  | 0 => 1
  | k + 1 => 256 * span k

/-- The number written by the bytes. -/
def decode (bytes : List UInt8) : Nat := bytes.foldl (fun n b => n * 256 + b.toNat) 0

/-- The number in the `width` bytes from `offset` on, if there are that many. -/
def readAt (width offset : Nat) (bytes : List UInt8) : Option Nat :=
  if offset + width ≤ bytes.length then some (decode ((bytes.drop offset).take width)) else none

@[simp] theorem length_encode (k n : Nat) : (encode k n).length = k := by
  induction k generalizing n with
  | zero => rfl
  | succ k ih => simp [encode, ih]

@[simp] theorem decode_nil : decode [] = 0 := rfl

@[simp] theorem decode_concat (bytes : List UInt8) (b : UInt8) :
    decode (bytes ++ [b]) = decode bytes * 256 + b.toNat := by
  simp [decode, List.foldl_append]

theorem decode_encode (k n : Nat) : decode (encode k n) = n % span k := by
  induction k generalizing n with
  | zero => simp [encode, span, Nat.mod_one]
  | succ k ih =>
    calc decode (encode (k + 1) n)
        = n / 256 % span k * 256 + n % 256 := by simp [encode, ih]
      _ = n % span (k + 1) := by rw [span, Nat.mod_mul, Nat.mul_comm, Nat.add_comm]

/-- A field is read back at the place where it was written. -/
theorem readAt_encode (before after : List UInt8) (width n : Nat) :
    readAt width before.length (before ++ encode width n ++ after) = some (n % span width) := by
  have hfits : before.length + width ≤ (before ++ encode width n ++ after).length := by simp
  rw [readAt, if_pos hfits, List.append_assoc, List.drop_left,
    List.take_append_of_le_length (by simp), List.take_of_length_le (by simp), decode_encode]

end LayoutBus.BigEndian
