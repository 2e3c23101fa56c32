import LayoutBus.Proofs.Alias.Orbit
import Mathlib.Data.Set.Finite.Basic

/-!
# The seeds in words

A step from seed to seed takes five additions.  Registers of 24 bits that are kept in words of 32
bits leave enough room for all of them, and what the words come to is the affine rule.

* `Registers.add?` : the sum of two words, if a word can hold it.
* `Registers.next?` : a step on a seed of 64 bits in words of 32, as far as every addition in it can
  be made.
* `Registers.Holds` : the numbers in the two registers.  `Registers.Holds.shifted`,
  `Registers.Holds.sums` and `Registers.Holds.carried` follow them through a step.
* `Seed.next_bijOn` : every seed has exactly one predecessor.
* `Seed.next_permutes` : **the step is a permutation** and an affine rule, and no addition in it
  overflows.

One bit can be left over: the first register may take 25 bits when the carry of the second has come
in.  It is cut off when the registers are put together.
-/

namespace LayoutBus

/-- Two registers of 24 bits, in words of 32. -/
structure Registers where
  first : UInt32
  second : UInt32
deriving DecidableEq, Repr

namespace Registers

/-! ### One step in words -/

/-- The sum of two words, unless it takes more than 32 bits. -/
def add? (a b : UInt32) : Option UInt32 :=
  if a.toNat + b.toNat < 2 ^ 32 then some (a + b) else none

/-- The sum of three words, in two additions. -/
def sum? (a b c : UInt32) : Option UInt32 := do
  let s ← add? a b
  add? s c

/-- The registers of the low 48 bits of a seed. -/
def ofSeed (seed : UInt64) : Registers :=
  ⟨(seed &&& 0xFFFFFF).toUInt32, (seed >>> 24 &&& 0xFFFFFF).toUInt32⟩

/-- The registers moved up by nine bits; those that leave the second come into the first. -/
def shifted (r : Registers) : Registers :=
  ⟨(r.first <<< 9 ||| (r.second >>> 15 &&& 0x1FF)) &&& 0xFFFFFF, r.second <<< 9 &&& 0xFFFFFF⟩

/-- Each register with its shifted value and its constant. -/
def sums? (r : Registers) : Option Registers := do
  let s ← sum? r.first r.shifted.first 0x1B0CA3
  let t ← sum? r.second r.shifted.second 0x7A4BA9
  return ⟨s, t⟩

/-- What is above 24 bits is cut off the first register and carried over from the second. -/
def carried? (r : Registers) : Option Registers := do
  let s ← add? (r.first &&& 0xFFFFFF) ((r.second &&& 0xFF000000) >>> 24)
  return ⟨s, r.second &&& 0xFFFFFF⟩

/-- The seed with the first register in its high half, cut to 48 bits. -/
def toSeed (r : Registers) : UInt64 :=
  (r.first.toUInt64 <<< 24 ||| r.second.toUInt64) &&& 0xFFFFFFFFFFFF

/-- The next seed; none if an addition overflows. -/
def next? (seed : UInt64) : Option UInt64 := do
  let sums ← (ofSeed seed).sums?
  let carried ← sums.carried?
  return carried.toSeed

/-! ### Words as numbers -/

variable {a b c s : UInt32}

/-- There is a sum just when the word is exact. -/
theorem add?_eq_some_iff : add? a b = some s ↔ s.toNat = a.toNat + b.toNat := by
  unfold add?
  split
  · rename_i h
    rw [Option.some_inj, ← UInt32.toNat_inj, UInt32.toNat_add, Nat.mod_eq_of_lt h, eq_comm]
  · rename_i h
    have := s.toNat_lt
    exact iff_of_false (fun hs => by cases hs) (by omega)

theorem exists_add? (h : a.toNat + b.toNat < 2 ^ 32) :
    ∃ s, add? a b = some s ∧ s.toNat = a.toNat + b.toNat :=
  ⟨a + b, if_pos h, add?_eq_some_iff.1 (if_pos h)⟩

theorem exists_sum? (h : a.toNat + b.toNat + c.toNat < 2 ^ 32) :
    ∃ s, sum? a b c = some s ∧ s.toNat = a.toNat + b.toNat + c.toNat := by
  obtain ⟨t, ht, hab⟩ := exists_add? (a := a) (b := b) (by omega)
  obtain ⟨s, hs, htc⟩ := exists_add? (a := t) (b := c) (by rwa [hab])
  refine ⟨s, ?_, by rw [htc, hab]⟩
  rw [sum?, ht]
  exact hs

theorem toNat_low (a : UInt32) : (a &&& 0xFFFFFF).toNat = a.toNat % 0x1000000 := by
  rw [UInt32.toNat_and]
  exact Nat.and_two_pow_sub_one_eq_mod _ 24

theorem toNat_high (a : UInt32) : ((a &&& 0xFF000000) >>> 24).toNat = a.toNat / 0x1000000 := by
  have hlt : a.toNat / 0x1000000 < 2 ^ 8 := by
    have := a.toNat_lt
    omega
  calc ((a &&& 0xFF000000) >>> 24).toNat
      = a.toNat >>> 24 &&& (2 ^ 8 - 1) := by
        rw [UInt32.toNat_shiftRight, UInt32.toNat_and, Nat.shiftRight_and_distrib]
        rfl
    _ = a.toNat / 0x1000000 := by
        rw [Nat.and_two_pow_sub_one_eq_mod, Nat.shiftRight_eq_div_pow]
        exact Nat.mod_eq_of_lt hlt

theorem toNat_register (w : UInt64) :
    (w &&& 0xFFFFFF).toUInt32.toNat = w.toNat % 0x1000000 := by
  have hand : (w &&& 0xFFFFFF).toNat = w.toNat % 2 ^ 24 := by
    rw [UInt64.toNat_and]
    exact Nat.and_two_pow_sub_one_eq_mod _ 24
  rw [UInt64.toNat_toUInt32, hand]
  omega

/-- The upper bits of a word that is moved up are lost. -/
theorem toNat_up (a : UInt32) : (a <<< 9).toNat = a.toNat % 2 ^ 23 * 2 ^ 9 := by
  rw [UInt32.toNat_shiftLeft, Nat.shiftLeft_eq]
  exact Nat.mul_mod_mul_right (2 ^ 9) a.toNat (2 ^ 23)

/-- Two numbers side by side, the lower of at most `i` bits. -/
theorem mul_two_pow_or {i n : Nat} (m : Nat) (h : n < 2 ^ i) : m * 2 ^ i ||| n = m * 2 ^ i + n := by
  rw [Nat.mul_comm, Nat.two_pow_add_eq_or_of_lt h]

/-! ### The registers through a step -/

variable {r : Registers} {x y : Nat}

/-- The numbers in the registers. -/
structure Holds (r : Registers) (x y : Nat) : Prop where
  first : r.first.toNat = x
  second : r.second.toNat = y

theorem holds_ofSeed (seed : UInt64) :
    (ofSeed seed).Holds (Seed.first seed.toNat) (Seed.second seed.toNat) where
  first := toNat_register seed
  second := by
    refine (toNat_register (seed >>> 24)).trans ?_
    rw [UInt64.toNat_shiftRight, Nat.shiftRight_eq_div_pow]
    rfl

/-- A word is too short for a register that is moved up, but its low 24 bits are there. -/
theorem Holds.shifted (h : r.Holds x y) (hy : y < 0x1000000) :
    r.shifted.Holds ((x * 0x200 + y / 0x8000) % 0x1000000) (y * 0x200 % 0x1000000) where
  first := by
    have hlt : y / 0x8000 < 2 ^ 9 := by omega
    have hin : (r.second >>> 15 &&& 0x1FF).toNat = y / 0x8000 := by
      rw [UInt32.toNat_and, UInt32.toNat_shiftRight, h.second, Nat.shiftRight_eq_div_pow]
      exact (Nat.and_two_pow_sub_one_eq_mod _ 9).trans (Nat.mod_eq_of_lt hlt)
    calc r.shifted.first.toNat
        = (x % 2 ^ 23 * 2 ^ 9 ||| y / 0x8000) % 0x1000000 := by
          rw [Registers.shifted, toNat_low, UInt32.toNat_or, toNat_up, hin, h.first]
      _ = (x * 0x200 + y / 0x8000) % 0x1000000 := by
          rw [mul_two_pow_or _ hlt]
          omega
  second := by
    rw [Registers.shifted, toNat_low, toNat_up, h.second]
    omega

/-- Both sums fit into words.  Each is made in two additions, but the numbers do not wrap, so that it
is enough to look at the sum of all three. -/
theorem Holds.sums {n : Nat} (h : r.Holds (Seed.first n) (Seed.second n)) :
    ∃ q, r.sums? = some q ∧ q.Holds (Seed.firstSum n) (Seed.secondSum n) := by
  have hshifted := h.shifted (Seed.second_lt n)
  have hfirst : r.first.toNat + r.shifted.first.toNat + (0x1B0CA3 : UInt32).toNat =
      Seed.firstSum n := by
    rw [h.first, hshifted.first]
    rfl
  have hsecond : r.second.toNat + r.shifted.second.toNat + (0x7A4BA9 : UInt32).toNat =
      Seed.secondSum n := by
    rw [h.second, hshifted.second]
    rfl
  obtain ⟨s, hs, hsfirst⟩ := exists_sum? (hfirst.trans_lt (Seed.firstSum_lt n))
  obtain ⟨t, ht, htsecond⟩ := exists_sum? (hsecond.trans_lt (Seed.secondSum_lt n))
  refine ⟨⟨s, t⟩, ?_, hsfirst.trans hfirst, htsecond.trans hsecond⟩
  rw [sums?, hs, ht]
  rfl

/-- The carry goes into the first register. -/
theorem Holds.carried (h : r.Holds x y) :
    ∃ q, r.carried? = some q ∧ q.Holds (x % 0x1000000 + y / 0x1000000) (y % 0x1000000) := by
  have hlow : (r.first &&& 0xFFFFFF).toNat = x % 0x1000000 := by rw [toNat_low, h.first]
  have hhigh : ((r.second &&& 0xFF000000) >>> 24).toNat = y / 0x1000000 := by
    rw [toNat_high, h.second]
  have hy : y < 2 ^ 32 := h.second ▸ r.second.toNat_lt
  obtain ⟨s, hs, hsum⟩ := exists_add? (a := r.first &&& 0xFFFFFF)
    (b := (r.second &&& 0xFF000000) >>> 24) (by
      rw [hlow, hhigh]
      omega)
  refine ⟨⟨s, r.second &&& 0xFFFFFF⟩, ?_, by rw [hsum, hlow, hhigh], ?_⟩
  · rw [carried?, hs]
    rfl
  · rw [toNat_low, h.second]

theorem Holds.toNat_toSeed (h : r.Holds x y) (hy : y < 0x1000000) :
    r.toSeed.toNat = (x * 0x1000000 + y) % Seed.bound := by
  have hx : x < 2 ^ 32 := h.first ▸ r.first.toNat_lt
  have hlt : x * 2 ^ 24 < 2 ^ 64 := by omega
  have hup : (r.first.toUInt64 <<< 24).toNat = x * 2 ^ 24 := by
    rw [UInt64.toNat_shiftLeft, UInt32.toNat_toUInt64, h.first, Nat.shiftLeft_eq]
    exact Nat.mod_eq_of_lt hlt
  calc r.toSeed.toNat
      = (x * 2 ^ 24 ||| y) % 2 ^ 48 := by
        rw [toSeed, UInt64.toNat_and, UInt64.toNat_or, hup, UInt32.toNat_toUInt64, h.second]
        exact Nat.and_two_pow_sub_one_eq_mod _ 48
    _ = (x * 0x1000000 + y) % Seed.bound := by
        rw [mul_two_pow_or x hy]
        rfl

/-- A step in words is a step in numbers. -/
theorem exists_next? (seed : UInt64) :
    ∃ w, next? seed = some w ∧ w.toNat = Seed.next seed.toNat := by
  obtain ⟨sums, hsums, hholds⟩ := (holds_ofSeed seed).sums
  obtain ⟨carried, hcarried, hholds⟩ := hholds.carried
  refine ⟨carried.toSeed, ?_, hholds.toNat_toSeed (Nat.mod_lt _ (by omega))⟩
  simp only [next?, hsums, hcarried, Option.bind_eq_bind, Option.bind_some, Option.pure_def]

end Registers

namespace Seed

/-! ### The permutation -/

/-- Every seed has exactly one predecessor. -/
theorem next_bijOn : Set.BijOn next (Set.Iio bound) (Set.Iio bound) :=
  ((Set.finite_Iio bound).injOn_iff_bijOn_of_mapsTo next_mapsTo).1 next_injOn

/-- Different seeds stay different, however far they go. -/
theorem injOn_after (k : Nat) : Set.InjOn (after · k) (Set.Iio bound) := by
  have hiterate : (after · k) = next^[k] := funext fun seed => after_eq_iterate seed k
  rw [hiterate]
  exact (next_bijOn.iterate k).injOn

theorem subset_periodicPts : Set.Iio bound ⊆ Function.periodicPts next := by
  intro seed h
  obtain ⟨p, hpos, -, hp⟩ := exists_period h
  rw [after_eq_iterate] at hp
  exact Function.mk_mem_periodicPts hpos hp

/-- **The step is a permutation.**  It can be made in words, where none of its additions overflows,
and it is an affine rule on the seed with its halves exchanged.  Each seed is the successor of
exactly one, different seeds never meet, and every seed comes back. -/
theorem next_permutes :
    (∀ seed : UInt64, ∃ w, Registers.next? seed = some w ∧ w.toNat = next seed.toNat) ∧
    (∀ seed, next seed = (513 * swap seed + 0x1B0CA37A4BA9) % bound) ∧
    Set.BijOn next (Set.Iio bound) (Set.Iio bound) ∧
    (∀ k, Set.InjOn (after · k) (Set.Iio bound)) ∧
    Set.Iio bound ⊆ Function.periodicPts next :=
  ⟨Registers.exists_next?, next_eq_affine, next_bijOn, injOn_after, subset_periodicPts⟩

-- The carry takes the first register to 25 bits here, and the top one is lost.
example :
    let r : Registers := ⟨0x1000001, 0x7A49A8⟩
    (Registers.ofSeed 0xFFFFFF76375D).sums?.bind Registers.carried? = some r ∧
      r.toSeed = 0x17A49A8 := by decide

end Seed

end LayoutBus
