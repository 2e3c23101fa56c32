import LayoutBus.Message.Store
import LayoutBus.Outbox
import LayoutBus.Proofs.Memory.Storage
import LayoutBus.Wire.Build

/-!
# The stores of an interface

The buffers of messages and those of frames are independent cells, all zero when they are handed out
but for the size and the mark of a message buffer.

* `MessageStore.storage` and `Outbox.storage` : the two as stores of cells.
* `MessageStore.lawful` and `Outbox.lawful` : what each of their operations does.
* `stores_refine` : **the stores.**
-/

namespace LayoutBus

/-! ### Messages -/

namespace MessageStore

variable {s t : MessageStore} {c d : SizeClass} {h : Handle}

theorem stats_of_allocate (ha : s.allocate c = some (h, t)) (d : SizeClass) :
    t.stats d = if d = c then (s.stats d).taken else s.stats d := by
  unfold allocate at ha
  split at ha
  · rename_i i p hp
    cases ha
    unfold stats
    rw [pool_setPool]
    split
    · rename_i hd
      rw [Pool.stats_of_allocate hp, hd]
    · rfl
  · cases ha

theorem stats_free (s : MessageStore) (h : Handle) (d : SizeClass) :
    (s.free h).stats d =
      if d = h.size ∧ (s.get? h).isSome then (s.stats d).given else s.stats d := by
  have hmark : ((s.pool h.size).modify h.index released).isAllocated h.index = (s.get? h).isSome := by
    unfold Pool.isAllocated
    rw [Pool.get?_modify, if_pos rfl]
    exact Option.isSome_map
  unfold stats free
  rw [pool_setPool]
  by_cases hd : d = h.size
  · rw [if_pos hd, Pool.stats_free, hmark, Pool.stats_modify, hd]
    simp only [true_and]
  · rw [if_neg hd, if_neg fun hall => hd hall.1]

theorem stats_modify (s : MessageStore) (h : Handle) (f : Message → Message) (d : SizeClass) :
    (s.modify h f).stats d = s.stats d := by
  unfold stats modify
  rw [pool_setPool]
  split
  · rename_i hd
    rw [Pool.stats_modify, hd]
  · rfl

theorem setPool_self (s : MessageStore) (c : SizeClass) : s.setPool c (s.pool c) = s := by
  cases c <;> rfl

theorem free_eq_self (hnone : s.get? h = none) : s.free h = s := by
  have hpool : (s.pool h.size).get? h.index = none := hnone
  rw [free, Pool.modify_eq_self hpool, Pool.free_eq_self hpool, setPool_self]

/-- The message buffers of an interface. -/
def storage (streams : Bool) : Storage MessageStore SizeClass Handle Message where
  start := empty streams
  get? := get?
  allocate := allocate
  free := free
  modify := modify
  clearPeak := clearPeak
  stats := stats
  cells c := (List.range (depth streams c)).map (Handle.mk c)
  pool := Handle.size
  initial := fresh

theorem mem_cells_iff (streams : Bool) :
    h ∈ (storage streams).cells c ↔ h.size = c ∧ h.index < depth streams c := by
  obtain ⟨d, i⟩ := h
  simp only [storage, List.mem_map, List.mem_range, Handle.mk.injEq]
  constructor
  · rintro ⟨i, hi, rfl, rfl⟩
    exact ⟨rfl, hi⟩
  · rintro ⟨rfl, hi⟩
    exact ⟨i, hi, rfl, rfl⟩

theorem capacity_of_sized {streams : Bool} (hs : (storage streams).Sized s) :
    (s.pool c).capacity = depth streams c := by
  have hlen := hs c
  simp only [storage, List.length_map, List.length_range] at hlen
  exact hlen

theorem lawful (streams : Bool) : (storage streams).Lawful where
  nodup c := List.nodup_range.map fun i j hij => (Handle.mk.inj hij).2
  pool_eq c h hh := ((mem_cells_iff streams).1 hh).1
  get?_start := get?_empty streams
  stats_start c := by
    simp [storage, stats, newPool, Pool.stats, Pool.allFree, Pool.capacity]
  allocate_eq_none_iff s c hs := by
    refine allocate_eq_none_iff.trans ?_
    rw [capacity_of_sized hs]
    constructor
    · intro hall h hh
      obtain ⟨rfl, hi⟩ := (mem_cells_iff streams).1 hh
      exact hall h.index hi
    · intro hall i hi
      exact hall ⟨c, i⟩ ((mem_cells_iff streams).2 ⟨rfl, hi⟩)
  of_allocate s c h t hs ha := by
    obtain ⟨hsize, hnone, hget⟩ := get?_of_allocate ha
    have hin : t.get? h = some (fresh c) := by rw [hget, if_pos rfl]
    have hlt : h.index < depth streams c := by
      rw [← capacity_of_sized hs, ← capacity_pool_of_allocate ha, ← hsize]
      exact Pool.lt_capacity hin
    exact ⟨(mem_cells_iff streams).2 ⟨hsize, hlt⟩, hnone, hget, stats_of_allocate ha⟩
  get?_free := get?_free
  stats_free := stats_free
  free_eq_self _ _ hnone := free_eq_self hnone
  get?_modify s h f j := get?_modify s h j f
  stats_modify := stats_modify
  get?_clearPeak := get?_clearPeak
  stats_clearPeak s c := by
    simp only [storage, stats, pool_clearPeak]
    rfl

end MessageStore

/-! ### Frames -/

namespace Outbox

variable {o p : Outbox} {h : FrameHandle}

/-- The frame buffers of an interface. -/
def storage : Storage Outbox Unit FrameHandle Frame where
  start := empty
  get? := frame?
  allocate o _ := o.allocate .blank
  free := free
  modify o h f := { o with buffers := o.buffers.modify h.index f }
  clearPeak o := { o with buffers := o.buffers.clearPeak }
  stats o _ := o.buffers.stats
  cells _ := (List.range Limits.frameDepth).map FrameHandle.mk
  pool _ := ()
  initial _ := .blank

theorem mem_cells_iff : h ∈ storage.cells () ↔ h.index < Limits.frameDepth := by
  simp only [storage, List.mem_map, List.mem_range]
  exact ⟨fun ⟨_, hi, heq⟩ => heq ▸ hi, fun hi => ⟨h.index, hi, rfl⟩⟩

theorem capacity_of_sized (hs : storage.Sized o) : o.buffers.capacity = Limits.frameDepth := by
  have hlen := hs ()
  simp only [storage, List.length_map, List.length_range] at hlen
  exact hlen

theorem lawful : storage.Lawful where
  nodup _ := List.nodup_range.map fun i j hij => FrameHandle.mk.inj hij
  pool_eq _ _ _ := rfl
  get?_start h := Pool.get?_empty ..
  stats_start _ := by
    simp [storage, empty, Pool.empty, Pool.stats, Pool.allFree, Pool.capacity]
  allocate_eq_none_iff o _ hs := by
    have hpool : o.allocate .blank = none ↔ o.buffers.allocate .blank = none := by
      unfold allocate
      cases o.buffers.allocate .blank <;> simp
    refine hpool.trans (Pool.allocate_eq_none_iff.trans ?_)
    rw [capacity_of_sized hs]
    exact ⟨fun hall h hh => hall h.index (mem_cells_iff.1 hh),
      fun hall i hi => hall ⟨i⟩ (mem_cells_iff.2 hi)⟩
  of_allocate o _ h p hs ha := by
    simp only [storage, allocate] at ha
    split at ha
    · rename_i i buffers hb
      cases ha
      obtain ⟨hlt, hnone, hget⟩ := Pool.get?_of_allocate hb
      refine ⟨mem_cells_iff.2 (capacity_of_sized hs ▸ hlt), hnone, fun j => ?_, fun _ => ?_⟩
      · obtain ⟨j⟩ := j
        simp only [storage, frame?, hget, FrameHandle.mk.injEq]
      · rw [if_pos rfl]
        exact Pool.stats_of_allocate hb
    · cases ha
  get?_free o h j := by
    obtain ⟨i⟩ := h
    obtain ⟨j⟩ := j
    simp only [storage, frame?, free, Pool.get?_free, FrameHandle.mk.injEq]
  stats_free o h _ := by
    simp only [storage, true_and]
    exact Pool.stats_free ..
  free_eq_self o h hnone := congrArg (Outbox.mk · o.queue) (Pool.free_eq_self hnone)
  get?_modify o h f j := by
    obtain ⟨i⟩ := h
    obtain ⟨j⟩ := j
    simp only [storage, frame?, Pool.get?_modify, FrameHandle.mk.injEq]
  stats_modify o h f _ := Pool.stats_modify ..
  get?_clearPeak _ _ := rfl
  stats_clearPeak _ _ := rfl

end Outbox

/-- **The stores.** Whatever is allocated, freed, written and forgotten, and in whichever order, the
buffers of messages and those of frames are independent cells that are handed out zero. -/
theorem stores_refine (streams : Bool) (reqs : List (Storage.Request SizeClass Handle Message))
    (frameReqs : List (Storage.Request Unit FrameHandle Frame)) :
    (MessageStore.storage streams).Refines reqs ∧
      (∀ c, (MessageStore.storage streams).initial c =
        ⟨{ mti := 0, source := 0, sourceId := 0, dest := 0, destId := 0, count := 0, size := c,
           ticks := 0, allocated := true, inProcess := false }, List.replicate c.capacity 0⟩) ∧
      Outbox.storage.Refines frameReqs ∧
      (Outbox.storage.initial ()).id = 0 ∧ (Outbox.storage.initial ()).payload = [] :=
  ⟨(MessageStore.lawful streams).refines reqs, fun _ => rfl, Outbox.lawful.refines frameReqs, rfl,
    rfl⟩

/-- What is left over in a buffer is gone when it is handed out again. -/
example : Outbox.storage.get? (Outbox.storage.after [.allocate (), .modify ⟨0⟩ fun _ =>
    .reserveId 0xAAA, .free ⟨0⟩, .free ⟨0⟩, .allocate ()]) ⟨0⟩ = some .blank := by decide

end LayoutBus
