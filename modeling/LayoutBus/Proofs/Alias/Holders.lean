import LayoutBus.Alias.Table
import LayoutBus.Proofs.Memory.Keyed

/-!
# Who holds which alias

In every table that an interface can build, aliases and nodes determine each other: no alias has
two holders and no node holds two aliases (`AliasTable.Proper`).  Then each operation on a table
is an equation on its list of mappings, up to order:

* `AliasTable.unregister_perm` : an alias given up takes just its own mapping away.
* `AliasTable.register_perm` : a node that gets an alias loses any other mapping of its own, and
  no other node loses one.
* `AliasTable.modify_mappings` : a change of one mapping is a change of one mapping.

An alias is given to nodes only, so that the holders of aliases are nodes (`AliasTable.Genuine`).

The order of the mappings is the order of answers to an enquiry; nothing else depends on it.
-/

namespace LayoutBus.AliasTable

/-- Aliases are valid, no alias has two holders, and no node holds two aliases. -/
structure Proper (t : AliasTable) : Prop where
  valid : ∀ m ∈ t.mappings, Alias.Valid m.aliasId
  aliases : (t.mappings.map Mapping.aliasId).Nodup
  nodes : (t.mappings.map Mapping.nodeId).Nodup

variable {t u : AliasTable} {a n : Nat} {m : Mapping}

theorem proper_empty : empty.Proper := ⟨by simp [empty], by simp [empty], by simp [empty]⟩

/-! ### Look-up -/

namespace Proper

theorem eq_of_aliasId {m' : Mapping} (h : t.Proper) (hm : m ∈ t.mappings) (hm' : m' ∈ t.mappings)
    (ha : m.aliasId = m'.aliasId) : m = m' :=
  List.inj_on_of_nodup_map h.aliases hm hm' ha

theorem find?_eq_some_iff (h : t.Proper) :
    t.find? a = some m ↔ m ∈ t.mappings ∧ m.aliasId = a := by
  unfold find?
  split
  · rename_i hzero
    refine iff_of_false (fun hf => by cases hf) ?_
    rintro ⟨hm, rfl⟩
    exact Nat.ne_of_gt (h.valid m hm).1 hzero
  · exact find?_key_eq_some_iff h.aliases

theorem isPermitted_iff (h : t.Proper) :
    t.isPermitted a = true ↔ ∃ m ∈ t.mappings, m.aliasId = a ∧ m.permitted = true := by
  unfold isPermitted
  rw [Option.any_eq_true]
  constructor
  · rintro ⟨m, hf, hp⟩
    obtain ⟨hm, ha⟩ := h.find?_eq_some_iff.1 hf
    exact ⟨m, hm, ha, hp⟩
  · rintro ⟨m, hm, ha, hp⟩
    exact ⟨m, h.find?_eq_some_iff.2 ⟨hm, ha⟩, hp⟩

end Proper

/-! ### Operations as equations -/

theorem unregister_perm (h : t.Proper) :
    (t.unregister a).mappings.Perm (t.mappings.filter fun m => m.aliasId ≠ a) := by
  unfold unregister
  split
  · rename_i i hi
    exact moveLastTo_perm_filter h.aliases hi
  · rename_i hi
    rw [filter_eq_self_of_findIdx? hi]

theorem modify_mappings (h : t.Proper) (f : Mapping → Mapping) :
    (t.modify a f).mappings = t.mappings.map fun m => if m.aliasId = a then f m else m := by
  unfold modify
  split
  · rename_i i hi
    split
    · rename_i ha
      -- zero is nobody's alias
      have hnone : ∀ m ∈ t.mappings, m.aliasId ≠ a := fun m hm hma =>
        absurd (h.valid m hm).1 (by omega)
      exact (map_ite_eq_self hnone).symm
    · exact modify_eq_map f h.aliases hi
  · rename_i hi
    have hnone : ∀ m ∈ t.mappings, m.aliasId ≠ a := fun m hm => by
      simpa using List.findIdx?_eq_none_iff.1 hi m hm
    exact (map_ite_eq_self hnone).symm

/-- A conflict marks one mapping. -/
theorem markDuplicate_mappings (h : t.Proper) :
    (t.markDuplicate a).mappings =
      t.mappings.map fun m => if m.aliasId = a then { m with duplicate := true } else m := by
  unfold markDuplicate
  split
  · exact modify_mappings h _
  · rename_i hnone
    have hne : ∀ m ∈ t.mappings, m.aliasId ≠ a := by
      intro m hm ha
      rw [h.find?_eq_some_iff.2 ⟨hm, ha⟩] at hnone
      cases hnone
    exact (map_ite_eq_self hne).symm

theorem register_perm (h : t.Proper) (hr : t.register a n = .ok u) :
    Alias.Valid a ∧ (∀ m ∈ t.mappings, m.aliasId = a → m.nodeId = n) ∧
      u.hasDuplicate = t.hasDuplicate ∧
      u.mappings.Perm (⟨a, n, false, false⟩ :: t.mappings.filter fun m => m.nodeId ≠ n) := by
  unfold register at hr
  split at hr
  · cases hr
  · rename_i hvalid
    split at hr
    · cases hr
    · split at hr
      · cases hr
      · rename_i hfree
        have hown : ∀ m ∈ t.mappings, m.aliasId = a → m.nodeId = n := by simpa using hfree
        refine ⟨not_not.1 hvalid, hown, ?_⟩
        -- the node has a mapping, which is replaced, or it gets one
        split at hr
        · rename_i i hi
          cases hr
          refine ⟨rfl, ?_⟩
          rw [← eraseIdx_eq_filter h.nodes hi]
          exact List.set_perm_cons_eraseIdx (lt_of_findIdx? hi) _
        · rename_i hi
          split at hr
          · cases hr
            refine ⟨rfl, ?_⟩
            rw [filter_eq_self_of_findIdx? hi]
            exact List.perm_append_singleton _ _
          · cases hr

/-! ### Operations keep the table proper -/

namespace Proper

theorem of_perm_sublist {ms : List Mapping} (h : t.Proper) (hsub : ms.Sublist t.mappings)
    (hp : u.mappings.Perm ms) : u.Proper where
  valid m hm := h.valid m (hsub.subset (hp.subset hm))
  aliases := (hp.map _).nodup_iff.2 (h.aliases.sublist (hsub.map _))
  nodes := (hp.map _).nodup_iff.2 (h.nodes.sublist (hsub.map _))

theorem unregister (h : t.Proper) (a : Nat) : (t.unregister a).Proper :=
  h.of_perm_sublist List.filter_sublist (unregister_perm h)

theorem of_map {g : Mapping → Mapping} (h : t.Proper) (halias : ∀ m, (g m).aliasId = m.aliasId)
    (hnode : ∀ m, (g m).nodeId = m.nodeId) (hu : u.mappings = t.mappings.map g) : u.Proper := by
  have hal : u.mappings.map Mapping.aliasId = t.mappings.map Mapping.aliasId := by
    rw [hu, List.map_map]
    exact List.map_congr_left fun m _ => halias m
  have hno : u.mappings.map Mapping.nodeId = t.mappings.map Mapping.nodeId := by
    rw [hu, List.map_map]
    exact List.map_congr_left fun m _ => hnode m
  refine ⟨fun m hm => ?_, hal ▸ h.aliases, hno ▸ h.nodes⟩
  rw [hu, List.mem_map] at hm
  obtain ⟨m', hm', rfl⟩ := hm
  rw [halias]
  exact h.valid m' hm'

theorem permit (h : t.Proper) (a : Nat) : (t.permit a).Proper :=
  h.of_map (fun m => by split <;> rfl) (fun m => by split <;> rfl) (modify_mappings h _)

theorem markDuplicate (h : t.Proper) (a : Nat) : (t.markDuplicate a).Proper :=
  h.of_map (fun m => by split <;> rfl) (fun m => by split <;> rfl) (markDuplicate_mappings h)

theorem register (h : t.Proper) (hr : t.register a n = .ok u) : u.Proper := by
  obtain ⟨hvalid, hown, -, hp⟩ := register_perm h hr
  have hsub : (t.mappings.filter fun m => m.nodeId ≠ n).Sublist t.mappings := List.filter_sublist
  refine ⟨fun m hm => ?_, (hp.map _).nodup_iff.2 ?_, (hp.map _).nodup_iff.2 ?_⟩
  · rcases List.mem_cons.1 (hp.subset hm) with rfl | hm
    · exact hvalid
    · exact h.valid m (hsub.subset hm)
  · refine List.nodup_cons.2 ⟨fun hmem => ?_, h.aliases.sublist (hsub.map _)⟩
    obtain ⟨m, hm, ha⟩ := List.mem_map.1 hmem
    obtain ⟨hm, hne⟩ := List.mem_filter.1 hm
    exact of_decide_eq_true hne (hown m hm ha)
  · refine List.nodup_cons.2 ⟨fun hmem => ?_, h.nodes.sublist (hsub.map _)⟩
    obtain ⟨m, hm, hn⟩ := List.mem_map.1 hmem
    exact of_decide_eq_true (List.mem_filter.1 hm).2 hn

end Proper

/-! ### Holders are nodes -/

/-- A proper table in which every holder of an alias is a node. -/
structure Genuine (t : AliasTable) : Prop extends t.Proper where
  nodeIds : ∀ m ∈ t.mappings, NodeId.Valid m.nodeId

theorem genuine_empty : empty.Genuine := ⟨proper_empty, by simp [empty]⟩

namespace Genuine

theorem of_map {g : Mapping → Mapping} (h : t.Genuine) (hu : u.Proper)
    (hnode : ∀ m, (g m).nodeId = m.nodeId) (hg : u.mappings = t.mappings.map g) : u.Genuine := by
  refine ⟨hu, fun m hm => ?_⟩
  rw [hg, List.mem_map] at hm
  obtain ⟨m', hm', rfl⟩ := hm
  rw [hnode]
  exact h.nodeIds m' hm'

theorem permit (h : t.Genuine) (a : Nat) : (t.permit a).Genuine :=
  h.of_map (h.toProper.permit a) (fun m => by split <;> rfl) (modify_mappings h.toProper _)

theorem markDuplicate (h : t.Genuine) (a : Nat) : (t.markDuplicate a).Genuine :=
  h.of_map (h.toProper.markDuplicate a) (fun m => by split <;> rfl)
    (markDuplicate_mappings h.toProper)

theorem unregister (h : t.Genuine) (a : Nat) : (t.unregister a).Genuine :=
  ⟨h.toProper.unregister a, fun m hm =>
    h.nodeIds m (List.mem_filter.1 ((unregister_perm h.toProper).subset hm)).1⟩

theorem register (h : t.Genuine) (hr : t.register a n = .ok u) : u.Genuine := by
  refine ⟨h.toProper.register hr, fun m hm => ?_⟩
  obtain ⟨-, -, -, hp⟩ := register_perm h.toProper hr
  rcases List.mem_cons.1 (hp.subset hm) with rfl | hm
  · unfold AliasTable.register at hr
    split at hr
    · cases hr
    · split at hr
      · cases hr
      · rename_i hvalid
        exact not_not.1 hvalid
  · exact h.nodeIds m (List.mem_filter.1 hm).1

end Genuine

end LayoutBus.AliasTable
