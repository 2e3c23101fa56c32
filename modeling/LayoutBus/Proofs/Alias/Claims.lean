import LayoutBus.Proofs.Interface.Standing
import LayoutBus.Proofs.Node.Course

/-!
# Claims in a table of aliases

Marks aside, a table of aliases is a list of claims in no particular order (`AliasTable.claims`).

* `AliasTable.claims_register`, `AliasTable.claims_permit`, `AliasTable.claims_unregister` : each
  operation exchanges the claim of one node for another.
* `AliasTable.Noted` : the table knows whether there is a mark.
* `AliasTable.exists_register` : a free alias is not refused.
-/

namespace LayoutBus

namespace AliasTable

variable {t u : AliasTable} {a i : Nat} {m : Mapping} {c : Claim}

/-- What the mappings say, their marks aside. -/
def claims (t : AliasTable) : List Claim := t.mappings.map Mapping.claim

/-- The table knows whether there is a mark. -/
def Noted (t : AliasTable) : Prop := t.hasDuplicate = true ↔ ∃ a, t.Doubts a

/-! ### Operations on claims -/

theorem mem_claims_iff : c ∈ t.claims ↔ ∃ m ∈ t.mappings, m.claim = c := List.mem_map

theorem claims_markDuplicate (h : t.Proper) (a : Nat) : (t.markDuplicate a).claims = t.claims := by
  unfold claims
  rw [markDuplicate_mappings h, List.map_map]
  refine List.map_congr_left fun m _ => ?_
  simp only [Function.comp_apply]
  split <;> rfl

theorem claims_unregister (h : t.Proper) (hc : c ∈ t.claims) :
    ((t.unregister c.aliasId).claims ++ [c]).Perm t.claims := by
  obtain ⟨m, hm, rfl⟩ := mem_claims_iff.1 hc
  have hsplit := (perm_cons_filter h.aliases hm).map Mapping.claim
  have hrest := (unregister_perm (a := m.aliasId) h).map Mapping.claim
  exact ((List.perm_append_singleton _ _).trans (hrest.cons _)).trans hsplit.symm

theorem claims_permit (h : t.Proper) (hc : c ∈ t.claims) :
    ((t.permit c.aliasId).claims ++ [c]).Perm (t.claims ++ [⟨c.aliasId, c.nodeId, true⟩]) := by
  obtain ⟨m, hm, rfl⟩ := mem_claims_iff.1 hc
  have hsplit := perm_cons_filter h.aliases hm
  have hrest : ∀ x ∈ t.mappings.filter (fun y => y.aliasId ≠ m.aliasId), x.aliasId ≠ m.aliasId :=
    fun x hx => of_decide_eq_true (List.mem_filter.1 hx).2
  have hnew : (t.permit m.aliasId).claims.Perm
      (⟨m.aliasId, m.nodeId, true⟩ ::
        (t.mappings.filter fun y => y.aliasId ≠ m.aliasId).map Mapping.claim) := by
    rw [claims, permit, modify_mappings h]
    refine ((hsplit.map _).map _).trans ?_
    rw [List.map_cons, if_pos rfl, map_ite_eq_self hrest]
    exact List.Perm.refl _
  have hold : t.claims.Perm
      (m.claim :: (t.mappings.filter fun y => y.aliasId ≠ m.aliasId).map Mapping.claim) :=
    hsplit.map Mapping.claim
  exact (hnew.append_right _).trans (((List.perm_append_singleton _ _).cons _).trans
    ((List.perm_append_singleton _ _).symm.trans (hold.symm.append_right _)))

theorem claims_register (h : t.Proper) (hr : t.register a i = .ok u)
    (hnew : ∀ m ∈ t.mappings, m.nodeId ≠ i) : u.claims.Perm (t.claims ++ [⟨a, i, false⟩]) := by
  obtain ⟨-, -, -, hp⟩ := register_perm h hr
  rw [List.filter_eq_self.2 fun m hm => decide_eq_true (hnew m hm)] at hp
  exact (hp.map Mapping.claim).trans (List.perm_append_singleton _ _).symm

/-! ### Marks -/

theorem Noted.nextDuplicate? (h : t.Noted) (hd : t.hasDuplicate = false) :
    t.nextDuplicate? = none := by
  refine nextDuplicate?_eq_none_iff.2 fun a ha => ?_
  rw [h.2 ⟨a, ha⟩] at hd
  cases hd

theorem noted_markDuplicate (h : t.Proper) (hn : t.Noted) (a : Nat) :
    (t.markDuplicate a).Noted := by
  cases hf : t.find? a with
  | none =>
    have heq : t.markDuplicate a = t := Resources.noteConflict_of_find?_eq_none hf
    rw [heq]
    exact hn
  | some m =>
    obtain ⟨hm, ha⟩ := h.find?_eq_some_iff.1 hf
    refine iff_of_true (by unfold markDuplicate; rw [hf]) ⟨a, { m with duplicate := true }, ?_, ha, rfl⟩
    rw [markDuplicate_mappings h]
    exact List.mem_map.2 ⟨m, hm, if_pos ha⟩

theorem noted_permit (h : t.Proper) (hn : t.Noted) (a : Nat) : (t.permit a).Noted := by
  rw [Noted] at hn ⊢
  rw [hasDuplicate_permit, hn]
  have hc := modify_mappings (a := a) h fun m => { m with permitted := true }
  constructor
  · rintro ⟨b, hb⟩
    exact ⟨b, doubts_change hc (fun _ => rfl) (fun _ hd => hd) hb⟩
  · rintro ⟨b, hb⟩
    exact ⟨b, doubts_of_permit h hb⟩

theorem noted_register (h : t.Proper) (hn : t.Noted) (hr : t.register a i = .ok u)
    (hnew : ∀ m ∈ t.mappings, m.nodeId ≠ i) : u.Noted := by
  obtain ⟨-, -, hdup, hp⟩ := register_perm h hr
  rw [Noted] at hn ⊢
  rw [hdup, hn]
  constructor
  · rintro ⟨b, m, hm, hb, hd⟩
    have hmem : m ∈ t.mappings.filter fun m => m.nodeId ≠ i :=
      List.mem_filter.2 ⟨hm, decide_eq_true (hnew m hm)⟩
    exact ⟨b, m, hp.mem_iff.2 (List.mem_cons_of_mem _ hmem), hb, hd⟩
  · rintro ⟨b, hb⟩
    exact ⟨b, doubts_of_register h hr hb⟩

/-- A node without an alias is not refused one that is free. -/
theorem exists_register (h : t.Proper) (ha : Alias.Valid a) (hi : NodeId.Valid i)
    (hfree : ∀ m, t.find? a = some m → m.nodeId = i) (hroom : t.mappings.length < Limits.aliasDepth) :
    ∃ u, t.register a i = .ok u := by
  have hany : ¬ t.mappings.any fun m => m.aliasId = a ∧ m.nodeId ≠ i := by
    rw [List.any_eq_true]
    rintro ⟨m, hm, hd⟩
    obtain ⟨hma, hne⟩ := of_decide_eq_true hd
    exact hne (hfree m (h.find?_eq_some_iff.2 ⟨hm, hma⟩))
  rw [register, if_neg (not_not.2 ha), if_neg (not_not.2 hi), if_neg hany]
  split
  · exact ⟨_, rfl⟩
  · exact ⟨_, if_pos hroom⟩

end AliasTable

end LayoutBus
