/-!
# Pools

A pool has a fixed number of slots, each free or in use, and knows how many are in use now and
how many were at most since it was last asked to forget.  A slot is named by its index; an index
that is free or out of range names nothing.  A free slot still holds its last value, which nobody
can read.

The view is `Pool.get?`.  Each operation has one lemma on it: `Pool.get?_of_allocate`,
`Pool.get?_free`, `Pool.get?_modify`.
-/

namespace LayoutBus

/-- A place for a value of type `α`. -/
structure Slot (α : Type) where
  /-- The value, left over from its last use if the slot is free. -/
  value : α
  /-- The slot is in use. -/
  allocated : Bool
deriving DecidableEq, Repr

/-- The value of a slot in use. -/
def Slot.held? {α : Type} (s : Slot α) : Option α := if s.allocated then some s.value else none

/-- Slots for values of type `α`. -/
structure Pool (α : Type) where
  slots : List (Slot α)
  /-- How many slots are in use. -/
  inUse : Nat
  /-- The largest `inUse` since creation or the last `Pool.clearPeak`. -/
  peak : Nat
deriving DecidableEq, Repr

/-- The numbers that describe the load of a pool. -/
structure PoolStats where
  inUse : Nat
  peak : Nat
  capacity : Nat
deriving DecidableEq, Repr

namespace Pool

variable {α : Type}

/-- A pool of `n` free slots with the value `a`. -/
def allFree (n : Nat) (a : α) : Pool α := ⟨List.replicate n ⟨a, false⟩, 0, 0⟩

/-- A pool of `n` free slots. -/
def empty [Inhabited α] (n : Nat) : Pool α := allFree n default

/-- How many slots there are. -/
def capacity (p : Pool α) : Nat := p.slots.length

/-- The value of a slot in use. -/
def get? (p : Pool α) (i : Nat) : Option α := p.slots[i]?.bind Slot.held?

/-- The slot is in use. -/
def isAllocated (p : Pool α) (i : Nat) : Bool := (p.get? i).isSome

/-- Takes the first free slot into use, with the value `a`. -/
def allocate (p : Pool α) (a : α) : Option (Nat × Pool α) :=
  match p.slots.findIdx? fun s => !s.allocated with
  | some i => some (i, ⟨p.slots.set i ⟨a, true⟩, p.inUse + 1, max p.peak (p.inUse + 1)⟩)
  | none => none

/-- Frees a slot in use; a slot that is not in use stays as it is. -/
def free (p : Pool α) (i : Nat) : Pool α :=
  if p.isAllocated i then
    { p with slots := p.slots.modify i fun s => { s with allocated := false }, inUse := p.inUse - 1 }
  else p

/-- Changes the value of a slot in use. -/
def modify (p : Pool α) (i : Nat) (f : α → α) : Pool α :=
  if p.isAllocated i then
    { p with slots := p.slots.modify i fun s => { s with value := f s.value } }
  else p

/-- Forgets the peak. -/
def clearPeak (p : Pool α) : Pool α := { p with peak := p.inUse }

/-- The load of the pool. -/
def stats (p : Pool α) : PoolStats := ⟨p.inUse, p.peak, p.capacity⟩

@[simp] theorem get?_allFree (n i : Nat) (a : α) : (allFree n a).get? i = none := by
  simp only [get?, allFree, List.getElem?_replicate]
  split <;> rfl

@[simp] theorem capacity_allFree (n : Nat) (a : α) : (allFree n a).capacity = n :=
  List.length_replicate

@[simp] theorem get?_empty [Inhabited α] (n i : Nat) : (empty n : Pool α).get? i = none :=
  get?_allFree n i default

theorem lt_capacity {p : Pool α} {i : Nat} {a : α} (h : p.get? i = some a) : i < p.capacity := by
  obtain ⟨s, hs, -⟩ := Option.bind_eq_some_iff.1 h
  exact (List.getElem?_eq_some_iff.1 hs).1

theorem get?_of_allocate {p q : Pool α} {a : α} {i : Nat} (h : p.allocate a = some (i, q)) :
    i < p.capacity ∧ p.get? i = none ∧ ∀ j, q.get? j = if j = i then some a else p.get? j := by
  unfold allocate at h
  split at h
  · rename_i k hk
    cases h
    obtain ⟨hlt, hfree, -⟩ := List.findIdx?_eq_some_iff_getElem.1 hk
    refine ⟨hlt, by simp_all [get?, Slot.held?], fun j => ?_⟩
    simp only [get?, List.getElem?_set]
    split
    · rename_i hij
      simp [hij.symm, Slot.held?]
    · rename_i hij
      simp [Ne.symm hij]
  · cases h

theorem isAllocated_eq {p : Pool α} {i : Nat} (hi : i < p.slots.length) :
    p.isAllocated i = p.slots[i].allocated := by
  simp only [isAllocated, get?, List.getElem?_eq_getElem hi, Option.bind_some, Slot.held?]
  cases p.slots[i].allocated <;> rfl

theorem allocate_eq_none_iff {p : Pool α} {a : α} :
    p.allocate a = none ↔ ∀ i < p.capacity, p.isAllocated i = true := by
  unfold allocate
  split
  · rename_i k hk
    obtain ⟨hlt, hfree, -⟩ := List.findIdx?_eq_some_iff_getElem.1 hk
    simp only [reduceCtorEq, false_iff]
    intro hall
    have hk := hall k hlt
    rw [isAllocated_eq hlt] at hk
    simp [hk] at hfree
  · rename_i hk
    simp only [true_iff]
    intro i hi
    rw [isAllocated_eq hi]
    simpa using List.findIdx?_eq_none_iff.1 hk p.slots[i] (List.getElem_mem hi)

theorem get?_free (p : Pool α) (i j : Nat) :
    (p.free i).get? j = if j = i then none else p.get? j := by
  unfold free
  split
  · simp only [get?, List.getElem?_modify]
    by_cases hij : i = j
    · subst hij
      cases p.slots[i]? <;> simp [Slot.held?]
    · simp [hij, Ne.symm hij]
  · rename_i hfree
    by_cases hij : j = i
    · subst hij
      simpa [isAllocated] using hfree
    · simp [hij]

theorem get?_modify (p : Pool α) (i j : Nat) (f : α → α) :
    (p.modify i f).get? j = if j = i then (p.get? j).map f else p.get? j := by
  unfold modify
  split
  · simp only [get?, List.getElem?_modify]
    by_cases hij : i = j
    · subst hij
      cases p.slots[i]? with
      | none => simp
      | some s => cases hs : s.allocated <;> simp [Slot.held?, hs]
    · simp [hij, Ne.symm hij]
  · rename_i hfree
    by_cases hij : j = i
    · subst hij
      have hnone : p.get? j = none := by simpa [isAllocated] using hfree
      simp [hnone]
    · simp [hij]

@[simp] theorem capacity_free (p : Pool α) (i : Nat) : (p.free i).capacity = p.capacity := by
  unfold free
  split <;> simp [capacity]

@[simp] theorem capacity_modify (p : Pool α) (i : Nat) (f : α → α) :
    (p.modify i f).capacity = p.capacity := by
  unfold modify
  split <;> simp [capacity]

theorem capacity_of_allocate {p q : Pool α} {a : α} {i : Nat} (h : p.allocate a = some (i, q)) :
    q.capacity = p.capacity := by
  unfold allocate at h
  split at h
  · cases h
    simp [capacity]
  · cases h

end Pool

end LayoutBus
