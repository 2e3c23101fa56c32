import LayoutBus.Memory.Pool
import LayoutBus.Message.Basic

/-!
# The store of messages

One pool of buffers for each size.  An interface without streams has no buffers of the size of a
stream message, so that every request for one is refused.

* `MessageStore.get?` is the view.
* `MessageStore.allocate`, `MessageStore.free` and `MessageStore.modify` act on one buffer;
  `MessageStore.get?_of_allocate`, `MessageStore.get?_free` and `MessageStore.get?_modify` say
  that they leave all others alone.
-/

namespace LayoutBus

/-- The pools of message buffers. -/
structure MessageStore where
  basic : Pool Message
  datagram : Pool Message
  snip : Pool Message
  stream : Pool Message
deriving DecidableEq, Repr

namespace MessageStore

/-- How many buffers of each size there are. -/
def depth (streams : Bool) : SizeClass → Nat
  | .basic => Limits.basicDepth
  | .datagram => Limits.datagramDepth
  | .snip => Limits.snipDepth
  | .stream => if streams then Limits.streamDepth else 0

/-- A pool of free buffers of one size, all of them zero. -/
def newPool (streams : Bool) (c : SizeClass) : Pool Message :=
  .allFree (depth streams c) (.blank c.capacity)

/-- The store of an interface, with all buffers free. -/
def empty (streams : Bool) : MessageStore :=
  ⟨newPool streams .basic, newPool streams .datagram, newPool streams .snip,
    newPool streams .stream⟩

/-- The pool of one size. -/
def pool (s : MessageStore) : SizeClass → Pool Message
  | .basic => s.basic
  | .datagram => s.datagram
  | .snip => s.snip
  | .stream => s.stream

/-- The store with another pool of one size. -/
def setPool (s : MessageStore) (c : SizeClass) (p : Pool Message) : MessageStore :=
  match c with
  | .basic => { s with basic := p }
  | .datagram => { s with datagram := p }
  | .snip => { s with snip := p }
  | .stream => { s with stream := p }

/-- What a buffer of size `c` holds when it is taken into use. -/
def fresh (c : SizeClass) : Message :=
  ⟨{ size := c, allocated := true }, List.replicate c.capacity 0⟩

/-- The message in a buffer in use. -/
def get? (s : MessageStore) (h : Handle) : Option Message := (s.pool h.size).get? h.index

/-- Takes a free buffer of size `c` into use. -/
def allocate (s : MessageStore) (c : SizeClass) : Option (Handle × MessageStore) :=
  match (s.pool c).allocate (fresh c) with
  | some (i, p) => some (⟨c, i⟩, s.setPool c p)
  | none => none

/-- What a buffer holds when it is given back. -/
def released (m : Message) : Message :=
  { m with header := { m.header with allocated := false, inProcess := false } }

/-- Frees a buffer; one that is free stays so. -/
def free (s : MessageStore) (h : Handle) : MessageStore :=
  s.setPool h.size (((s.pool h.size).modify h.index released).free h.index)

/-- Changes the message in a buffer in use. -/
def modify (s : MessageStore) (h : Handle) (f : Message → Message) : MessageStore :=
  s.setPool h.size ((s.pool h.size).modify h.index f)

/-- The load of one pool. -/
def stats (s : MessageStore) (c : SizeClass) : PoolStats := (s.pool c).stats

/-- Buffers in use, of all sizes. -/
def inUse (s : MessageStore) : Nat :=
  s.basic.inUse + s.datagram.inUse + s.snip.inUse + s.stream.inUse

/-- Forgets the peaks. -/
def clearPeak (s : MessageStore) : MessageStore :=
  ⟨s.basic.clearPeak, s.datagram.clearPeak, s.snip.clearPeak, s.stream.clearPeak⟩

@[simp] theorem pool_empty (streams : Bool) (c : SizeClass) :
    (empty streams).pool c = newPool streams c := by cases c <;> rfl

@[simp] theorem pool_setPool (s : MessageStore) (c d : SizeClass) (p : Pool Message) :
    (s.setPool c p).pool d = if d = c then p else s.pool d := by
  cases c <;> cases d <;> rfl

@[simp] theorem get?_empty (streams : Bool) (h : Handle) : (empty streams).get? h = none := by
  simp [get?, newPool]

theorem get?_of_allocate {s t : MessageStore} {c : SizeClass} {h : Handle}
    (ha : s.allocate c = some (h, t)) :
    h.size = c ∧ s.get? h = none ∧
      ∀ k, t.get? k = if k = h then some (fresh c) else s.get? k := by
  unfold allocate at ha
  split at ha
  · rename_i i p hp
    cases ha
    obtain ⟨-, hnone, hget⟩ := Pool.get?_of_allocate hp
    refine ⟨rfl, hnone, fun k => ?_⟩
    obtain ⟨d, j⟩ := k
    simp only [get?, pool_setPool, Handle.mk.injEq]
    by_cases hd : d = c
    · subst hd
      simp [hget]
    · simp [hd]
  · cases ha

theorem allocate_eq_none_iff {s : MessageStore} {c : SizeClass} :
    s.allocate c = none ↔ ∀ i < (s.pool c).capacity, (s.get? ⟨c, i⟩).isSome := by
  have hpool : s.allocate c = none ↔ (s.pool c).allocate (fresh c) = none := by
    unfold allocate
    cases (s.pool c).allocate (fresh c) <;> simp
  rw [hpool, Pool.allocate_eq_none_iff]
  rfl

theorem get?_free (s : MessageStore) (h k : Handle) :
    (s.free h).get? k = if k = h then none else s.get? k := by
  obtain ⟨c, i⟩ := h
  obtain ⟨d, j⟩ := k
  simp only [free, get?, pool_setPool, Handle.mk.injEq]
  by_cases hd : d = c
  · subst hd
    by_cases hj : j = i <;> simp [Pool.get?_free, Pool.get?_modify, hj]
  · simp [hd]

theorem get?_modify (s : MessageStore) (h k : Handle) (f : Message → Message) :
    (s.modify h f).get? k = if k = h then (s.get? k).map f else s.get? k := by
  obtain ⟨c, i⟩ := h
  obtain ⟨d, j⟩ := k
  simp only [modify, get?, pool_setPool, Handle.mk.injEq]
  by_cases hd : d = c
  · subst hd
    simp [Pool.get?_modify]
  · simp [hd]

@[simp] theorem pool_clearPeak (s : MessageStore) (c : SizeClass) :
    s.clearPeak.pool c = (s.pool c).clearPeak := by cases c <;> rfl

@[simp] theorem get?_clearPeak (s : MessageStore) (h : Handle) : s.clearPeak.get? h = s.get? h := by
  unfold get?
  rw [pool_clearPeak]
  rfl

theorem capacity_pool_of_allocate {s t : MessageStore} {c d : SizeClass} {h : Handle}
    (ha : s.allocate c = some (h, t)) : (t.pool d).capacity = (s.pool d).capacity := by
  unfold allocate at ha
  split at ha
  · rename_i i p hp
    cases ha
    rw [pool_setPool]
    split
    · rename_i hd
      rw [Pool.capacity_of_allocate hp, hd]
    · rfl
  · cases ha

@[simp] theorem capacity_pool_free (s : MessageStore) (h : Handle) (c : SizeClass) :
    ((s.free h).pool c).capacity = (s.pool c).capacity := by
  rw [free, pool_setPool]
  split
  · rename_i hc
    rw [Pool.capacity_free, Pool.capacity_modify, hc]
  · rfl

@[simp] theorem capacity_pool_modify (s : MessageStore) (h : Handle) (f : Message → Message)
    (c : SizeClass) : ((s.modify h f).pool c).capacity = (s.pool c).capacity := by
  rw [modify, pool_setPool]
  split
  · rename_i hc
    rw [Pool.capacity_modify, hc]
  · rfl

end MessageStore

end LayoutBus
