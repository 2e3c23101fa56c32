/-!
# Bounded queues

A queue holds at most `n` values; the bound is part of the type.  `Queue.push` refuses a value
when the queue is full, and the caller keeps it.

The view is `Queue.toList`, front first: `Queue.toList_push` and `Queue.pop_eq_some_iff` say what
the operations do to it.
-/

namespace LayoutBus

/-- A queue of at most `n` values. -/
structure Queue (α : Type) (n : Nat) where
  /-- The values, front first. -/
  toList : List α
  length_le : toList.length ≤ n
deriving DecidableEq, Repr

namespace Queue

variable {α : Type} {n : Nat}

/-- The queue without values. -/
def empty : Queue α n := ⟨[], Nat.zero_le n⟩

instance : Inhabited (Queue α n) := ⟨empty⟩

/-- How many values wait. -/
def count (q : Queue α n) : Nat := q.toList.length

/-- No value waits. -/
def isEmpty (q : Queue α n) : Bool := q.toList.isEmpty

/-- There is no room for another value. -/
def isFull (q : Queue α n) : Bool := q.count == n

/-- Adds a value at the back, if there is room. -/
def push (q : Queue α n) (a : α) : Option (Queue α n) :=
  if h : q.count < n then some ⟨q.toList ++ [a], by simpa [count] using Nat.succ_le_of_lt h⟩ else none

/-- Takes the value at the front. -/
def pop : Queue α n → Option (α × Queue α n)
  | ⟨[], _⟩ => none
  | ⟨a :: rest, h⟩ => some (a, ⟨rest, Nat.le_of_succ_le h⟩)

@[ext] theorem ext {q r : Queue α n} (h : q.toList = r.toList) : q = r := by
  cases q; cases r; cases h; rfl

theorem toList_push {q r : Queue α n} {a : α} (h : q.push a = some r) :
    r.toList = q.toList ++ [a] := by
  unfold push at h
  split at h
  · cases h
    rfl
  · cases h

theorem push_eq_none_iff {q : Queue α n} {a : α} : q.push a = none ↔ q.count = n := by
  have : q.count ≤ n := q.length_le
  unfold push
  split <;> simp <;> omega

theorem pop_eq_some_iff {q r : Queue α n} {a : α} :
    q.pop = some (a, r) ↔ q.toList = a :: r.toList := by
  obtain ⟨_ | ⟨b, rest⟩, h⟩ := q
  · simp [pop]
  · obtain ⟨xs, hx⟩ := r
    simp [pop]

theorem pop_eq_none_iff {q : Queue α n} : q.pop = none ↔ q.toList = [] := by
  obtain ⟨_ | ⟨b, rest⟩, h⟩ := q <;> simp [pop]

end Queue

end LayoutBus
