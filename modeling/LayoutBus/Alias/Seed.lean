import LayoutBus.Wire.Identifier

/-!
# Choosing an alias

A node proposes aliases from a sequence of seeds of 48 bits that starts with its node id.  Two
registers of 24 bits hold a seed; each step works on both and exchanges them.

* `Seed.next` is one step, with the sums of the registers in `Seed.firstSum` and
  `Seed.secondSum`; `Seed.affine` is the same rule as one multiplication and one addition.
* `Seed.aliasOf` folds a seed into the 12 bits of an alias; the result may be zero.
* `Seed.find?` walks on to the first seed with a usable alias.  There are `Seed.bound` seeds, so a
  walk of one step more has met every seed it can meet, and `none` means that a longer walk would
  find nothing either.
* `Candidates` is the sequence of aliases that a node proposes on a bus without other claims.
-/

namespace LayoutBus

namespace Seed

/-- Seeds are below this number. -/
def bound : Nat := 0x1000000000000

/-- The register in the low half of a seed. -/
def first (seed : Nat) : Nat := seed % 0x1000000

/-- The register in the high half of a seed. -/
def second (seed : Nat) : Nat := seed / 0x1000000 % 0x1000000

/-- The first register after the addition, before its carry is cut off. -/
def firstSum (seed : Nat) : Nat :=
  first seed + (first seed * 0x200 + second seed / 0x8000) % 0x1000000 + 0x1B0CA3

/-- The second register after the addition, before its carry is cut off. -/
def secondSum (seed : Nat) : Nat := second seed + second seed * 0x200 % 0x1000000 + 0x7A4BA9

/-- The next seed: the carry of the second register goes into the first, which becomes the high
half. -/
def next (seed : Nat) : Nat :=
  ((firstSum seed % 0x1000000 + secondSum seed / 0x1000000) * 0x1000000 +
    secondSum seed % 0x1000000) % bound

/-- The seed with its halves exchanged. -/
def swap (seed : Nat) : Nat := first seed * 0x1000000 + second seed

/-- The rule of the sequence as one multiplication and one addition. -/
def affine (seed : Nat) : Nat := (513 * swap seed + 0x1B0CA37A4BA9) % bound

/-- The alias that a seed proposes: the four groups of 12 bits of the seed, combined bit by
bit. -/
def aliasOf (seed : Nat) : Nat :=
  seed % 0x1000 ^^^ seed / 0x1000 % 0x1000 ^^^ seed / 0x1000000 % 0x1000 ^^^
    seed / 0x1000000000 % 0x1000

/-- The seed after `n` steps. -/
def after (seed : Nat) : Nat → Nat
  | 0 => seed
  | n + 1 => after (next seed) n

/-- The first of the `n` seeds from `seed` on whose alias is usable. -/
def search (usable : Nat → Bool) : Nat → Nat → Option Nat
  | 0, _ => none
  | n + 1, seed => if usable (aliasOf seed) then some seed else search usable n (next seed)

/-- Steps after which every seed that can be met has been met. -/
def walk : Nat := bound + 1

/-- The first seed from `seed` on whose alias is usable. -/
def find? (usable : Nat → Bool) (seed : Nat) : Option Nat := search usable walk seed

end Seed

/-- The aliases that a node proposes: never zero, and never the same twice in a row. -/
structure Candidates where
  seed : Nat
  /-- The alias proposed last; zero before the first. -/
  last : Nat
deriving DecidableEq, Repr

namespace Candidates

/-- The sequence of a node. -/
def ofNodeId (nodeId : Nat) : Candidates := ⟨nodeId % Seed.bound, 0⟩

/-- The next alias and the rest of the sequence. -/
def next? (c : Candidates) : Option (Nat × Candidates) :=
  match Seed.find? (fun a => a ≠ 0 ∧ a ≠ c.last) c.seed with
  | some seed => some (Seed.aliasOf seed, ⟨Seed.next seed, Seed.aliasOf seed⟩)
  | none => none

/-- The first `n` aliases, or as many as there are. -/
def take : Nat → Candidates → List Nat
  | 0, _ => []
  | n + 1, c =>
    match c.next? with
    | some (a, c) => a :: take n c
    | none => []

end Candidates

end LayoutBus
