import LayoutBus.Interface.Reassembly
import LayoutBus.Proofs.Memory.Keyed
import Mathlib.Data.List.Perm.Subperm

/-!
# The ledger of message buffers

Who owns which message buffer: every buffer in use is either under assembly or held by one owner
outside of the list of messages under assembly, and all owned buffers are in use.

* `Ledger` : the invariant, over the store, the list of messages under assembly, and the handles
  that anyone else owns.
* `Ledger.allocate`, `Ledger.free`, `Ledger.modify`, `Ledger.enlist`, `Ledger.delist` and
  `Ledger.abandon` : the operations on one buffer.
* `Ledger.length_le` : there are never more owned buffers than fit into any of the queues.

What happens to an owned handle while it only passes from one owner to another is a permutation of
the list of owners (`Ledger.perm`).
-/

namespace LayoutBus

/-! ### Messages under assembly -/

namespace Assemblies

/-- The handles of the messages under assembly. -/
def handles (a : Assemblies) : List Handle := a.entries.map Prod.snd

variable {a : Assemblies} {key : AssemblyKey} {h : Handle}

theorem mem_handles_iff : h ∈ a.handles ↔ ∃ key, (key, h) ∈ a.entries := by
  simp [handles]

theorem find?_eq_some_iff (hn : (a.entries.map Prod.fst).Nodup) :
    a.find? key = some h ↔ (key, h) ∈ a.entries := by
  unfold find?
  simp only [Option.map_eq_some_iff, find?_key_eq_some_iff hn]
  constructor
  · rintro ⟨⟨k, h⟩, ⟨hmem, rfl⟩, rfl⟩
    exact hmem
  · intro hmem
    exact ⟨(key, h), ⟨hmem, rfl⟩, rfl⟩

theorem find?_eq_none_iff : a.find? key = none ↔ key ∉ a.entries.map Prod.fst := by
  unfold find?
  simp only [Option.map_eq_none_iff, List.find?_eq_none, List.mem_map, not_exists, not_and,
    decide_eq_true_eq]

/-- A list that is not full takes a message whose key is not listed. -/
theorem add_eq_ok (hkey : a.find? key = none) (hroom : a.entries.length < Limits.messageDepth) :
    a.add key h = .ok ⟨a.entries ++ [(key, h)]⟩ := by
  unfold add
  rw [hkey]
  simp only [if_pos hroom]

theorem release_perm (hn : a.handles.Nodup) :
    (a.release h).entries.Perm (a.entries.filter fun e => e.2 ≠ h) := by
  unfold release
  split
  · rename_i i hi
    exact moveLastTo_perm_filter hn hi
  · rename_i hi
    rw [filter_eq_self_of_findIdx? hi]

end Assemblies

/-! ### The invariant -/

/-- The message fits the buffer that it is in, and says whether it is under assembly. -/
structure Message.Suits (m : Message) (h : Handle) (inProcess : Prop) : Prop where
  allocated : m.header.allocated = true
  capacity : m.capacity = h.size.capacity
  inProcess : m.header.inProcess = true ↔ inProcess

/-- Two messages agree on what says where they are. -/
structure Message.Alike (m m' : Message) : Prop where
  allocated : m'.header.allocated = m.header.allocated
  capacity : m'.capacity = m.capacity
  inProcess : m'.header.inProcess = m.header.inProcess

/-- The header names the sender, the receiver and the type of the message. -/
structure Header.Names (x : Header) (key : AssemblyKey) : Prop where
  source : x.source = key.source
  dest : x.dest = key.dest
  mti : x.mti = key.mti

/-- Every buffer in use has exactly one owner: it is under assembly, or it is among the handles
owned by the rest. -/
structure Ledger (streams : Bool) (ms : MessageStore) (a : Assemblies) (rest : List Handle) :
    Prop where
  depths : ∀ c, (ms.pool c).capacity = MessageStore.depth streams c
  keys : (a.entries.map Prod.fst).Nodup
  nodup : (a.handles ++ rest).Nodup
  mem_iff : ∀ h, h ∈ a.handles ++ rest ↔ (ms.get? h).isSome
  named : ∀ e ∈ a.entries, ∀ m, ms.get? e.2 = some m → m.header.Names e.1
  suits : ∀ h m, ms.get? h = some m → m.Suits h (h ∈ a.handles)

namespace Ledger

variable {streams : Bool} {ms ms' : MessageStore} {a : Assemblies} {rest rest' : List Handle}
  {h k : Handle} {key : AssemblyKey} {c : SizeClass} {f : Message → Message}

theorem empty (streams : Bool) : Ledger streams (.empty streams) .empty [] where
  depths c := by simp [MessageStore.newPool]
  keys := List.nodup_nil
  nodup := List.nodup_nil
  mem_iff h := by simp [Assemblies.handles, Assemblies.empty]
  named e he := by cases he
  suits h m hm := by simp at hm

/-- Handles may pass between owners outside of the assembly. -/
theorem perm (hl : Ledger streams ms a rest) (hp : rest.Perm rest') :
    Ledger streams ms a rest' where
  depths := hl.depths
  keys := hl.keys
  nodup := (hp.append_left _).nodup_iff.1 hl.nodup
  mem_iff h := (hp.append_left _).mem_iff.symm.trans (hl.mem_iff h)
  named := hl.named
  suits := hl.suits

theorem isSome_of_mem (hl : Ledger streams ms a rest) (hm : h ∈ rest) : (ms.get? h).isSome :=
  (hl.mem_iff h).1 (List.mem_append_right _ hm)

theorem isSome_of_listed (hl : Ledger streams ms a rest) (hm : h ∈ a.handles) :
    (ms.get? h).isSome :=
  (hl.mem_iff h).1 (List.mem_append_left _ hm)

theorem not_listed (hl : Ledger streams ms a rest) (hm : h ∈ rest) : h ∉ a.handles :=
  fun ha => List.disjoint_of_nodup_append hl.nodup ha hm

theorem handles_nodup (hl : Ledger streams ms a rest) : a.handles.Nodup :=
  (List.nodup_append.1 hl.nodup).1

theorem key_eq (hl : Ledger streams ms a rest) {k₁ k₂ : AssemblyKey} (h₁ : (k₁, h) ∈ a.entries)
    (h₂ : (k₂, h) ∈ a.entries) : k₁ = k₂ :=
  congrArg Prod.fst (List.inj_on_of_nodup_map hl.handles_nodup h₁ h₂ rfl)

/-! ### Operations -/

theorem allocate (hl : Ledger streams ms a rest) (ha : ms.allocate c = some (h, ms')) :
    Ledger streams ms' a (h :: rest) := by
  obtain ⟨hsize, hnone, hget⟩ := MessageStore.get?_of_allocate ha
  -- a free buffer has no owner
  have hfresh : h ∉ a.handles ++ rest := fun hmem => by
    have := (hl.mem_iff h).1 hmem
    rw [hnone] at this
    cases this
  have hp : (a.handles ++ h :: rest).Perm (h :: (a.handles ++ rest)) := List.perm_middle
  refine ⟨fun d => ?_, hl.keys, ?_, fun k => ?_, fun e he m hm => ?_, fun k m hm => ?_⟩
  · exact (MessageStore.capacity_pool_of_allocate ha).trans (hl.depths d)
  · exact hp.nodup_iff.2 (List.nodup_cons.2 ⟨hfresh, hl.nodup⟩)
  · rw [hp.mem_iff, List.mem_cons, hl.mem_iff, hget]
    split <;> simp_all
  · have hne : e.2 ≠ h := fun heq =>
      hfresh (List.mem_append_left _ (heq ▸ List.mem_map_of_mem he))
    rw [hget, if_neg hne] at hm
    exact hl.named e he m hm
  · rw [hget] at hm
    split at hm
    · rename_i hk
      cases hm
      subst hk
      refine ⟨rfl, ?_, ?_⟩
      · rw [hsize]
        exact List.length_replicate
      · exact iff_of_false Bool.false_ne_true fun hmem => hfresh (List.mem_append_left _ hmem)
    · exact hl.suits k m hm

/-- A buffer leaves the ledger. -/
theorem remove {b : Assemblies} (hl : Ledger streams ms a rest)
    (hb : b.entries.Perm (a.entries.filter fun e => e.2 ≠ h)) (hr : rest'.Sublist rest)
    (hrest : ∀ k, k ∈ rest' ↔ k ∈ rest ∧ k ≠ h) : Ledger streams (ms.free h) b rest' := by
  have hsub : (a.entries.filter fun e => e.2 ≠ h).Sublist a.entries := List.filter_sublist
  have hget := ms.get?_free h
  have hlisted : ∀ k, k ∈ b.handles ↔ k ∈ a.handles ∧ k ≠ h := by
    intro k
    simp only [Assemblies.mem_handles_iff, hb.mem_iff, List.mem_filter, decide_eq_true_eq,
      exists_and_right]
  refine ⟨fun d => ?_, ?_, ?_, fun k => ?_, fun e he m hm => ?_, fun k m hm => ?_⟩
  · exact (MessageStore.capacity_pool_free ..).trans (hl.depths d)
  · exact (hb.map _).nodup_iff.2 (hl.keys.sublist (hsub.map _))
  · exact ((hb.map _).append_right _).nodup_iff.2 (hl.nodup.sublist ((hsub.map _).append hr))
  · rw [List.mem_append, hlisted, hrest, ← or_and_right, ← List.mem_append, hl.mem_iff, hget]
    split <;> simp_all
  · rw [hget] at hm
    split at hm
    · cases hm
    · exact hl.named e (hsub.subset (hb.subset he)) m hm
  · rw [hget] at hm
    split at hm
    · cases hm
    · rename_i hk
      obtain ⟨hall, hcap, hproc⟩ := hl.suits k m hm
      refine ⟨hall, hcap, hproc.trans ?_⟩
      rw [hlisted]
      exact (and_iff_left hk).symm

theorem free (hl : Ledger streams ms a (h :: rest)) : Ledger streams (ms.free h) a rest := by
  have hmem : h ∈ h :: rest := List.mem_cons_self
  have hnotin : h ∉ rest := (List.nodup_cons.1 (List.nodup_append.1 hl.nodup).2.1).1
  have hall : (a.entries.filter fun e => e.2 ≠ h) = a.entries := by
    rw [List.filter_eq_self]
    intro e he
    have hne : e.2 ≠ h := fun heq => hl.not_listed hmem (heq ▸ List.mem_map_of_mem he)
    exact decide_eq_true hne
  refine hl.remove (List.Perm.of_eq hall.symm) (List.sublist_cons_self h rest) fun k => ?_
  · constructor
    · intro hk
      exact ⟨List.mem_cons_of_mem h hk, fun heq => hnotin (heq ▸ hk)⟩
    · rintro ⟨hk, hne⟩
      exact (List.mem_cons.1 hk).resolve_left hne

/-- A message that is under assembly is given up. -/
theorem abandon (hl : Ledger streams ms a rest) (hlisted : h ∈ a.handles) :
    Ledger streams (ms.free h) (a.release h) rest := by
  refine hl.remove (Assemblies.release_perm hl.handles_nodup) (List.Sublist.refl rest) fun k => ?_
  refine (and_iff_left_of_imp fun hk heq => ?_).symm
  exact hl.not_listed hk (heq ▸ hlisted)

/-- One message changes, and perhaps its place. -/
theorem change {b : Assemblies} (hl : Ledger streams ms a rest)
    (hp : (b.handles ++ rest').Perm (a.handles ++ rest)) (hkeys : (b.entries.map Prod.fst).Nodup)
    (hothers : ∀ e, e.2 ≠ h → (e ∈ b.entries ↔ e ∈ a.entries))
    (hnamed : ∀ e ∈ b.entries, e.2 = h → ∀ m, ms.get? h = some m → (f m).header.Names e.1)
    (hsuits : ∀ m, ms.get? h = some m → (f m).Suits h (h ∈ b.handles)) :
    Ledger streams (ms.modify h f) b rest' := by
  have hget : ∀ k, (ms.modify h f).get? k = if k = h then (ms.get? k).map f else ms.get? k :=
    fun k => ms.get?_modify h k f
  refine ⟨fun d => ?_, hkeys, hp.nodup_iff.2 hl.nodup, fun k => ?_, fun e he m hm => ?_,
    fun k m hm => ?_⟩
  · exact (MessageStore.capacity_pool_modify ..).trans (hl.depths d)
  · rw [hp.mem_iff, hl.mem_iff, hget]
    split <;> simp
  · rw [hget] at hm
    split at hm
    · rename_i heq
      obtain ⟨m', hm', rfl⟩ := Option.map_eq_some_iff.1 hm
      exact hnamed e he heq m' (heq ▸ hm')
    · rename_i hne
      exact hl.named e ((hothers e hne).1 he) m hm
  · rw [hget] at hm
    split at hm
    · rename_i heq
      obtain ⟨m', hm', rfl⟩ := Option.map_eq_some_iff.1 hm
      subst heq
      exact hsuits m' hm'
    · rename_i hne
      obtain ⟨hall, hcap, hproc⟩ := hl.suits k m hm
      refine ⟨hall, hcap, hproc.trans ?_⟩
      simp only [Assemblies.mem_handles_iff]
      exact exists_congr fun key => (hothers (key, k) hne).symm

/-- A message changes where it is. -/
theorem modify (hl : Ledger streams ms a rest) (hf : ∀ m, ms.get? h = some m → m.Alike (f m))
    (hnamed : ∀ e ∈ a.entries, e.2 = h → ∀ m, ms.get? h = some m → (f m).header.Names e.1) :
    Ledger streams (ms.modify h f) a rest := by
  refine hl.change (.refl _) hl.keys (fun _ _ => Iff.rfl) hnamed fun m hm => ?_
  obtain ⟨hall, hcap, hproc⟩ := hl.suits h m hm
  obtain ⟨hall', hcap', hproc'⟩ := hf m hm
  exact ⟨hall'.trans hall, hcap'.trans hcap, hproc' ▸ hproc⟩

/-- A message that is not under assembly changes. -/
theorem edit (hl : Ledger streams ms a rest) (hh : h ∈ rest)
    (hf : ∀ m, ms.get? h = some m → m.Alike (f m)) : Ledger streams (ms.modify h f) a rest :=
  hl.modify hf fun _ he heq => absurd (heq ▸ List.mem_map_of_mem he) (hl.not_listed hh)

/-- A message is put under assembly. -/
theorem enlist (hl : Ledger streams ms a (h :: rest)) (hkey : a.find? key = none)
    (hf : ∀ m, ms.get? h = some m → (f m).header.Names key ∧ (f m).header.inProcess = true ∧
      (f m).header.allocated = m.header.allocated ∧ (f m).capacity = m.capacity) :
    Ledger streams (ms.modify h f) ⟨a.entries ++ [(key, h)]⟩ rest := by
  have hmem : h ∈ h :: rest := List.mem_cons_self
  have hlisted : h ∈ (⟨a.entries ++ [(key, h)]⟩ : Assemblies).handles :=
    Assemblies.mem_handles_iff.2 ⟨key, List.mem_append_right _ (List.mem_singleton_self _)⟩
  refine hl.change ?_ ?_ (fun e hne => ?_) (fun e he heq m hm => ?_) fun m hm => ?_
  · simp [Assemblies.handles]
  · rw [List.map_append, List.nodup_append]
    refine ⟨hl.keys, List.nodup_singleton _, fun k hk k' hk' => ?_⟩
    obtain rfl := List.mem_singleton.1 hk'
    exact fun heq => Assemblies.find?_eq_none_iff.1 hkey (heq ▸ hk)
  · have hne' : e ≠ (key, h) := fun heq => hne (congrArg Prod.snd heq)
    simp [hne']
  · rcases List.mem_append.1 he with he | he
    · exact absurd (heq ▸ List.mem_map_of_mem he) (hl.not_listed hmem)
    · obtain rfl := List.mem_singleton.1 he
      exact (hf m hm).1
  · obtain ⟨hall, hcap, -⟩ := hl.suits h m hm
    obtain ⟨-, hproc', hall', hcap'⟩ := hf m hm
    exact ⟨hall'.trans hall, hcap'.trans hcap, iff_of_true hproc' hlisted⟩

/-- A message is complete. -/
theorem delist (hl : Ledger streams ms a rest) (hlisted : h ∈ a.handles) :
    Ledger streams (ms.modify h fun m => m.withInProcess false) (a.release h) (h :: rest) := by
  have hrel := Assemblies.release_perm (h := h) hl.handles_nodup
  have hsub : (a.entries.filter fun e => e.2 ≠ h).Sublist a.entries := List.filter_sublist
  have hgone : h ∉ (a.release h).handles := by
    rw [Assemblies.mem_handles_iff]
    rintro ⟨k, hk⟩
    simpa using (List.mem_filter.1 (hrel.subset hk)).2
  refine hl.change ?_ ?_ (fun e hne => ?_) (fun e he heq m hm => ?_) fun m hm => ?_
  · -- the handle passes from the list to the rest, all others stay
    obtain ⟨key, hkey⟩ := Assemblies.mem_handles_iff.1 hlisted
    have hcons := (perm_cons_filter hl.handles_nodup hkey).trans (hrel.symm.cons _)
    exact List.perm_middle.trans ((hcons.map Prod.snd).append_right rest).symm
  · exact (hrel.map _).nodup_iff.2 (hl.keys.sublist (hsub.map _))
  · rw [hrel.mem_iff, List.mem_filter]
    exact and_iff_left (decide_eq_true hne)
  · exact absurd (Assemblies.mem_handles_iff.2 ⟨e.1, heq ▸ he⟩) hgone
  · obtain ⟨hall, hcap, -⟩ := hl.suits h m hm
    exact ⟨hall, hcap, iff_of_false Bool.false_ne_true hgone⟩

theorem clearPeak (hl : Ledger streams ms a rest) : Ledger streams ms.clearPeak a rest := by
  have hget := ms.get?_clearPeak
  refine ⟨fun c => ?_, hl.keys, hl.nodup, fun h => ?_, fun e he m hm => ?_, fun h m hm => ?_⟩
  · rw [MessageStore.pool_clearPeak]
    exact hl.depths c
  · rw [hget]
    exact hl.mem_iff h
  · exact hl.named e he m (hget e.2 ▸ hm)
  · exact hl.suits h m (hget h ▸ hm)

/-! ### Room -/

/-- All buffers of an interface. -/
def buffers (streams : Bool) : List Handle :=
  SizeClass.all.flatMap fun c => (List.range (MessageStore.depth streams c)).map (Handle.mk c)

theorem length_buffers (streams : Bool) : (buffers streams).length ≤ Limits.messageDepth := by
  cases streams <;> decide

theorem mem_buffers (hl : Ledger streams ms a rest) (hh : h ∈ a.handles ++ rest) :
    h ∈ buffers streams := by
  obtain ⟨m, hm⟩ := Option.isSome_iff_exists.1 ((hl.mem_iff h).1 hh)
  have hlt : h.index < MessageStore.depth streams h.size := hl.depths h.size ▸ Pool.lt_capacity hm
  refine List.mem_flatMap.2 ⟨h.size, ?_, List.mem_map.2 ⟨h.index, List.mem_range.2 hlt, rfl⟩⟩
  cases h.size <;> decide

/-- No queue is too short for the handles there are. -/
theorem length_le (hl : Ledger streams ms a rest) :
    a.entries.length + rest.length ≤ Limits.messageDepth := by
  have hsub := (List.subperm_of_subset hl.nodup fun h => hl.mem_buffers).length_le
  rw [List.length_append, Assemblies.handles, List.length_map] at hsub
  exact Nat.le_trans hsub (length_buffers streams)

end Ledger

end LayoutBus
