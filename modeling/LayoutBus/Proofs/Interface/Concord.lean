import LayoutBus.Proofs.Alias.Claims
import LayoutBus.Proofs.Alias.Orbit

/-!
# The nodes and the table of aliases agree

Whether a node has an alias and may use it is kept twice, in the node and in the table of aliases, and
the two are changed by different parts of an interface: a login registers and permits, reception
marks, and the main loop gives up.

* `Interface.Concord` : the mappings of the table are the claims of the nodes.
* `Interface.Harmony` : and the table knows whether one of them is marked.
* `Interface.Undisturbed` : the states that an interface comes to whose application leaves the logins
  of its nodes alone.
* `Interface.Undisturbed.agrees` : **agreement.**  In all of these states the table holds the aliases
  of the nodes and nothing else, and a node that picks an alias gets it.
-/

namespace LayoutBus

/-! ### Nodes and claims -/

/-- The change leaves alone what the login of a node rests on. -/
structure Node.Spared (n m : Node) : Prop where
  id : m.id = n.id
  aliasId : m.aliasId = n.aliasId
  phase : m.phase = n.phase
  permitted : m.flags.permitted = n.flags.permitted
  initialized : m.flags.initialized = n.flags.initialized

namespace Node

variable {n m : Node}

theorem Spared.claim? (h : n.Spared m) : m.claim? = n.claim? := by
  unfold Node.claim?
  rw [h.id, h.aliasId, h.permitted]

theorem Spared.orderly (h : n.Spared m) (hn : n.Orderly) : m.Orderly :=
  hn.of_level rfl (congrArg Phase.level h.phase) h.id h.aliasId h.permitted h.initialized

end Node

namespace Interface

variable {streams accepts : Bool} {s t : Interface} {n : Node} {i : Nat} {f : Node → Node}

/-- The mappings of the table are the claims of the nodes. -/
structure Concord (s : Interface) : Prop where
  orderly : ∀ n ∈ s.nodes.nodes, n.Orderly
  ids : (s.nodes.nodes.map Node.id).Nodup
  size : s.nodes.size ≤ Limits.nodeDepth
  proper : s.resources.aliases.Proper
  claims : s.resources.aliases.claims.Perm (s.nodes.nodes.filterMap Node.claim?)

namespace Concord

theorem empty (streams : Bool) : (Interface.empty streams).Concord where
  orderly := by simp [Interface.empty, Registry.empty]
  ids := List.nodup_nil
  size := Nat.zero_le _
  proper := AliasTable.proper_empty
  claims := List.Perm.refl _

theorem exists_node (h : s.Concord) {m : Mapping} (hm : m ∈ s.resources.aliases.mappings) :
    ∃ n ∈ s.nodes.nodes, n.claim? = some m.claim :=
  List.mem_filterMap.1 (h.claims.subset (List.mem_map_of_mem hm))

theorem exists_mapping (h : s.Concord) {c : Claim} (hn : n ∈ s.nodes.nodes)
    (hc : n.claim? = some c) : ∃ m ∈ s.resources.aliases.mappings, m.claim = c :=
  AliasTable.mem_claims_iff.1 (h.claims.mem_iff.2 (List.mem_filterMap.2 ⟨n, hn, hc⟩))

theorem valid (h : s.Concord) (hn : n ∈ s.nodes.nodes) (hne : n.aliasId ≠ 0) :
    Alias.Valid n.aliasId := by
  obtain ⟨m, hm, hc⟩ := h.exists_mapping hn (Node.claim?_of_named hne)
  have halias : m.aliasId = n.aliasId := congrArg Claim.aliasId hc
  exact halias ▸ h.proper.valid m hm

/-- No two nodes have an alias in common. -/
theorem eq_of_aliasId (h : s.Concord) {n' : Node} (hn : n ∈ s.nodes.nodes)
    (hn' : n' ∈ s.nodes.nodes) (hne : n.aliasId ≠ 0) (ha : n'.aliasId = n.aliasId) : n' = n := by
  obtain ⟨m, hm, hc⟩ := h.exists_mapping hn (Node.claim?_of_named hne)
  obtain ⟨m', hm', hc'⟩ := h.exists_mapping hn' (Node.claim?_of_named (ha ▸ hne))
  have halias : m'.aliasId = m.aliasId :=
    (congrArg Claim.aliasId hc').trans (ha.trans (congrArg Claim.aliasId hc).symm)
  obtain rfl := h.proper.eq_of_aliasId hm' hm halias
  have hid : n'.id = n.id := congrArg Claim.nodeId (hc'.symm.trans hc)
  exact List.inj_on_of_nodup_map h.ids hn' hn hid

/-- A node without an alias has no mapping. -/
theorem nodeId_ne (h : s.Concord) (hn : n ∈ s.nodes.nodes) (hc : n.claim? = none) :
    ∀ m ∈ s.resources.aliases.mappings, m.nodeId ≠ n.id := by
  intro m hm hid
  obtain ⟨n', hn', hc'⟩ := h.exists_node hm
  have hid' : n'.id = m.nodeId := congrArg Claim.nodeId (Node.claim?_eq_some_iff.1 hc').2
  obtain rfl := List.inj_on_of_nodup_map h.ids hn' hn (hid'.trans hid)
  rw [hc] at hc'
  cases hc'

/-! ### Changes that keep the agreement -/

/-- The nodes and the claims are the same. -/
theorem of_same (h : s.Concord) (hn : t.nodes.nodes = s.nodes.nodes)
    (hp : t.resources.aliases.Proper)
    (hc : t.resources.aliases.claims = s.resources.aliases.claims) : t.Concord where
  orderly := hn ▸ h.orderly
  ids := hn ▸ h.ids
  size := by rw [Registry.size, hn]; exact h.size
  proper := hp
  claims := by rw [hn, hc]; exact h.claims

/-- One node changes, and the table follows. -/
theorem exchange (h : s.Concord) (hn : s.nodes.get? i = some n)
    (hnodes : t.nodes.nodes = s.nodes.nodes.modify i f) (hid : (f n).id = n.id)
    (hord : (f n).Orderly) (hp : t.resources.aliases.Proper)
    (hc : (t.resources.aliases.claims ++ n.claim?.toList).Perm
      (s.resources.aliases.claims ++ (f n).claim?.toList)) : t.Concord where
  orderly := by
    rw [hnodes]
    intro m hm
    rcases mem_modify hm with hm | ⟨x, hx, rfl⟩
    · exact h.orderly m hm
    · obtain rfl := Option.some.inj (hn.symm.trans hx)
      exact hord
  ids := by
    rw [hnodes, map_modify fun x hx => ?_]
    · exact h.ids
    · obtain rfl := Option.some.inj (hn.symm.trans hx)
      exact hid
  size := by rw [Registry.size, hnodes, List.length_modify]; exact h.size
  proper := hp
  claims := by
    rw [hnodes]
    -- the old claim of the node stands on either side and cancels
    have hmod := filterMap_modify_perm (f := f) (g := Node.claim?) hn
    exact (List.perm_append_right_iff _).1
      (hc.trans ((h.claims.append_right _).trans hmod.symm))

/-- A change of a node that the table need not know of. -/
theorem spare (h : s.Concord) (hf : ∀ n ∈ s.nodes.get? i, n.Spared (f n)) :
    Concord { s with nodes := s.nodes.modify i f } := by
  cases hn : s.nodes.get? i with
  | none =>
    refine h.of_same ?_ h.proper rfl
    exact List.modify_eq_self (List.getElem?_eq_none_iff.1 hn)
  | some n =>
    have hspared := hf n hn
    refine h.exchange hn rfl hspared.id (hspared.orderly (h.orderly n (List.mem_of_getElem? hn)))
      h.proper ?_
    rw [hspared.claim?]

/-! ### Requests -/

/-- The holder of a mapping is found by its alias. -/
theorem exists_holder (h : s.Concord) {m : Mapping} (hm : m ∈ s.resources.aliases.mappings) :
    ∃ i n, s.nodes.get? i = some n ∧ n.claim? = some m.claim ∧
      s.nodes.findAnyAlias? m.aliasId = some i := by
  obtain ⟨n, hn, hc⟩ := h.exists_node hm
  obtain ⟨hne, hclaim⟩ := Node.claim?_eq_some_iff.1 hc
  have halias : n.aliasId = m.aliasId := congrArg Claim.aliasId hclaim
  have hvalid : m.aliasId ≠ 0 := halias ▸ hne
  obtain ⟨i, hi⟩ : ∃ i, (s.nodes.nodes.findIdx? fun n => n.aliasId = m.aliasId) = some i := by
    refine Option.isSome_iff_exists.1 (List.findIdx?_isSome.trans ?_)
    exact List.any_eq_true.2 ⟨n, hn, decide_eq_true halias⟩
  obtain ⟨hlt, hfound, -⟩ := List.findIdx?_eq_some_iff_getElem.1 hi
  -- aliases are distinct, so the node that is found is the one with the claim
  have hget : s.nodes.get? i = some n := by
    have heq := h.eq_of_aliasId hn (List.getElem_mem hlt) hne
      ((of_decide_eq_true hfound).trans halias.symm)
    exact heq ▸ List.getElem?_eq_getElem hlt
  refine ⟨i, n, hget, hc, ?_⟩
  rw [Registry.findAnyAlias?, if_neg hvalid, hi]

/-- The node with the alias is sent back, and the alias is taken from the table. -/
theorem giveUp (h : s.Concord) {m : Mapping} (hm : m ∈ s.resources.aliases.mappings) :
    (s.giveUp m.aliasId).Concord := by
  obtain ⟨i, n, hget, hc, hholder⟩ := h.exists_holder hm
  refine h.exchange hget (f := Node.restart) ?_ rfl
    (h.orderly n (List.mem_of_getElem? hget)).restart (h.proper.unregister m.aliasId) ?_
  · rw [Interface.giveUp, hholder]
    rfl
  · rw [hc]
    exact (AliasTable.claims_unregister h.proper (List.mem_map_of_mem hm)).trans
      (List.Perm.of_eq (List.append_nil _).symm)

theorem giveUpAll (h : s.Concord) (k : Nat) : (giveUpAll k s).Concord := by
  induction k generalizing s with
  | zero => exact h
  | succ k ih =>
    rw [Interface.giveUpAll]
    split
    · rename_i m hm
      exact ih (h.giveUp (List.mem_of_find?_eq_some hm))
    · exact h

theorem resolveConflicts (h : s.Concord) : s.resolveConflicts.interface.Concord := by
  have hall := h.giveUpAll s.resources.aliases.mappings.length
  exact hall.of_same rfl ⟨hall.proper.valid, hall.proper.aliases, hall.proper.nodes⟩ rfl

/-- The step of a login changes its node and the table alike. -/
theorem logIn (h : s.Concord) (hn : s.nodes.get? i = some n) :
    (s.logIn i n).interface.Concord := by
  have hmem := List.mem_of_getElem? hn
  have hord := h.orderly n hmem
  unfold Interface.logIn Node.logIn
  simp only [locked]
  cases s.loginFrame with
  | some frame =>
    refine h.exchange hn rfl rfl hord h.proper (List.Perm.refl _)
  | none =>
    simp only
    have hid := (n.advance s.resources.aliases).id
    rcases (n.advance s.resources.aliases).claim? hord with
      ⟨heq, hpick, hc⟩ | ⟨a, hnone, hpick, hr, hc⟩ | ⟨hpick, heq, hold, hc⟩
    -- neither the claim of the node nor the table changes
    · have hproper : (n.logInStep s.resources.aliases).aliases.Proper := heq.symm ▸ h.proper
      refine h.exchange hn rfl hid ((n.advance _).orderly hord ?_) hproper ?_
      · rw [hpick]
        intro a ha
        cases ha
      · simp only [heq, hc]
        exact List.Perm.refl _
    -- the node picks an alias, and it is registered
    · obtain ⟨hvalid, -⟩ := AliasTable.register_perm h.proper hr
      have hne := Nat.ne_of_gt hvalid.1
      refine h.exchange hn rfl hid ((n.advance _).orderly hord ?_) (h.proper.register hr) ?_
      · rw [hpick]
        intro b hb
        exact Option.some.inj hb ▸ hne
      · simp only [hnone, hc hne, Option.toList_none, List.append_nil, Option.toList_some]
        exact AliasTable.claims_register h.proper hr (h.nodeId_ne hmem hnone)
    -- the alias is defined, and both say that it may be used
    · refine h.exchange hn rfl hid ((n.advance _).orderly hord ?_) (heq ▸ h.proper.permit _) ?_
      · rw [hpick]
        intro a ha
        cases ha
      · obtain ⟨m, hm, hclaim⟩ := h.exists_mapping hmem hold
        simp only [heq, hold, hc, Option.toList_some]
        exact AliasTable.claims_permit h.proper (c := ⟨n.aliasId, n.id, false⟩)
          (AliasTable.mem_claims_iff.2 ⟨m, hm, hclaim⟩)

theorem takeTurn (h : s.Concord) (i : Nat) : (s.takeTurn i).interface.Concord := by
  rw [Interface.takeTurn]
  split
  · exact h
  · rename_i n hn
    split
    · exact h
    · exact h.logIn hn

theorem register (h : s.Concord) (id : Nat) (params : NodeParameters) :
    (s.register id params).interface.Concord := by
  rw [Interface.register, Registry.register]
  split_ifs with hvalid hany hsize
  · exact h
  · have hnew : id ∉ s.nodes.nodes.map Node.id := by
      intro hmem
      obtain ⟨n, hn, heq⟩ := List.mem_map.1 hmem
      exact hany (List.any_eq_true.2 ⟨n, hn, decide_eq_true heq⟩)
    exact {
      orderly := by
        intro n hn
        rcases List.mem_append.1 hn with hn | hn
        · exact h.orderly n hn
        · rw [List.mem_singleton.1 hn]
          exact .create hvalid params
      ids := by
        show ((s.nodes.nodes ++ [Node.create id params]).map Node.id).Nodup
        rw [List.map_append]
        exact List.nodup_append.2 ⟨h.ids, List.nodup_singleton _, by
          rintro a ha b hb rfl
          have heq : a = id := List.mem_singleton.1 hb
          exact hnew (heq ▸ ha)⟩
      size := by
        show (s.nodes.nodes ++ [Node.create id params]).length ≤ Limits.nodeDepth
        rw [List.length_append, List.length_singleton]
        exact hsize
      proper := h.proper
      claims := by
        show s.resources.aliases.claims.Perm
          ((s.nodes.nodes ++ [Node.create id params]).filterMap Node.claim?)
        rw [List.filterMap_append]
        exact h.claims.trans (List.Perm.of_eq (List.append_nil _).symm) }
  · exact h
  · exact h

theorem tick (h : s.Concord) : s.tick.interface.Concord := by
  have hage := s.resources.age_outside.aliases
  have hclaims : (s.nodes.nodes.map Node.tick).filterMap Node.claim? =
      s.nodes.nodes.filterMap Node.claim? := by
    rw [List.filterMap_map]
    rfl
  exact {
    orderly := by
      intro n hn
      obtain ⟨m, hm, rfl⟩ := List.mem_map.1 hn
      exact (h.orderly m hm).of_level rfl rfl rfl rfl rfl rfl
    ids := by
      show ((s.nodes.nodes.map Node.tick).map Node.id).Nodup
      rw [List.map_map]
      exact h.ids
    size := by
      show (s.nodes.nodes.map Node.tick).length ≤ Limits.nodeDepth
      rw [List.length_map]
      exact h.size
    proper := hage ▸ h.proper
    claims := by
      show s.resources.age.aliases.claims.Perm ((s.nodes.nodes.map Node.tick).filterMap _)
      rw [hage, hclaims]
      exact h.claims }

end Concord

/-- Requests about messages leave the nodes alone. -/
theorem nodes_perform (s : Interface) {req : Request} (hreq : req.isExchange) :
    (s.perform streams req).interface.nodes = s.nodes := by
  obtain ⟨ms, q, q', o, heq, -⟩ := @exchange_extent streams s req hreq
  rw [heq]

/-! ### The agreement with the marks -/

/-- The nodes and the table agree, and the table knows whether there is a mark. -/
structure Harmony (s : Interface) : Prop extends Concord s where
  noted : s.resources.aliases.Noted

namespace Harmony

/-- Work that touches neither the nodes nor the aliases. -/
theorem of_same (h : s.Harmony) (hn : t.nodes.nodes = s.nodes.nodes)
    (ha : t.resources.aliases = s.resources.aliases) : t.Harmony where
  toConcord := h.toConcord.of_same hn (ha ▸ h.proper) (congrArg AliasTable.claims ha)
  noted := ha ▸ h.noted

theorem empty (streams : Bool) : (Interface.empty streams).Harmony where
  toConcord := .empty streams
  noted := iff_of_false Bool.false_ne_true (by rintro ⟨a, m, hm, -⟩; cases hm)

theorem resolveConflicts (h : s.Harmony) : s.resolveConflicts.interface.Harmony where
  toConcord := h.toConcord.resolveConflicts
  noted := by
    have hnone :=
      giveUpAll_nextDuplicate? s.resources.aliases.mappings.length h.proper (Nat.le_refl _)
    refine iff_of_false Bool.false_ne_true ?_
    rintro ⟨a, ha⟩
    exact AliasTable.nextDuplicate?_eq_none_iff.1 hnone a ha

theorem takeTurn (h : s.Harmony) (i : Nat) : (s.takeTurn i).interface.Harmony where
  toConcord := h.toConcord.takeTurn i
  noted := by
    rw [Interface.takeTurn]
    split
    · exact h.noted
    · rename_i n hget
      split
      · exact h.noted
      · have hmem := List.mem_of_getElem? hget
        unfold logIn Node.logIn
        simp only [locked]
        cases s.loginFrame with
        | some frame => exact h.noted
        | none =>
          simp only
          rcases (n.advance s.resources.aliases).claim? (h.orderly n hmem) with
            ⟨heq, -⟩ | ⟨a, hnone, -, hr, -⟩ | ⟨-, heq, -⟩
          · rw [heq]
            exact h.noted
          · exact AliasTable.noted_register h.proper h.noted hr (h.nodeId_ne hmem hnone)
          · rw [heq]
            exact AliasTable.noted_permit h.proper h.noted _

theorem run (h : s.Harmony) : (s.run streams accepts).interface.Harmony := by
  refine run_invariant (P := Harmony) (fun _ h => h.resolveConflicts) ?_ ?_ ?_
    (fun _ _ _ h => h.of_same rfl rfl) (fun _ i h => h.takeTurn i) h
  · intro s h
    obtain ⟨x, o, heq⟩ := @transmit_extent accepts s
    exact h.of_same (by rw [heq]) (by rw [heq])
  · intro s h
    rw [transmitLogin]
    split
    · exact h
    · split
      · exact h.of_same rfl rfl
      · exact h
  · intro s h
    obtain ⟨g, b, ms, q, heq⟩ := @sendMessages_extent streams s
    exact h.of_same (by rw [heq]) (by rw [heq])

theorem receive (h : s.Harmony) (f : Frame) : (s.receive streams f).interface.Harmony := by
  have hal : (s.receive streams f).interface.resources.aliases = _ :=
    Resources.aliases_receive streams s.resources f
  cases hk : f.kind with
  | control k =>
    rw [hk] at hal
    refine ⟨h.toConcord.of_same rfl ?_ ?_, ?_⟩ <;> rw [hal]
    · exact h.proper.markDuplicate _
    · exact AliasTable.claims_markDuplicate h.proper _
    · exact AliasTable.noted_markDuplicate h.proper h.noted _
  | checkId number | unknownControl field | message t =>
    rw [hk] at hal
    exact h.of_same rfl hal

theorem exchange (h : s.Harmony) {req : Request} (hreq : req.isExchange) :
    (s.perform streams req).interface.Harmony := by
  have hrec : ∀ f, req ≠ .receive f := by
    rintro f rfl
    cases hreq
  have hrun : ∀ accepts, req ≠ .run accepts := by
    rintro accepts rfl
    cases hreq
  obtain ⟨hal, -⟩ := @perform_aside streams s req hrec hrun
  exact h.of_same (congrArg Registry.nodes (nodes_perform s hreq)) hal

end Harmony

/-- The request leaves the logins of the nodes alone. -/
def Spares (s : Interface) : Request → Prop
  | .revise i change => ∀ n ∈ s.nodes.get? i, n.Spared (change n)
  | _ => True

theorem Harmony.perform (h : s.Harmony) {req : Request} (hs : s.Spares req) :
    (s.perform streams req).interface.Harmony := by
  cases req with
  | register id params =>
    refine ⟨h.toConcord.register id params, ?_⟩
    have hal : (s.register id params).interface.resources = s.resources := by
      rw [Interface.register]
      split <;> rfl
    exact (congrArg Resources.aliases hal) ▸ h.noted
  | receive f => exact h.receive f
  | tick => exact ⟨h.toConcord.tick, s.resources.age_outside.aliases ▸ h.noted⟩
  | run accepts => exact h.run
  | retain i x =>
    exact ⟨h.toConcord.spare (f := ({ · with retained := x })) fun _ _ => ⟨rfl, rfl, rfl, rfl, rfl⟩,
      h.noted⟩
  | revise i change => exact ⟨h.toConcord.spare (f := change) hs, h.noted⟩
  | _ => exact h.exchange rfl

/-- The states that an interface comes to whose application leaves the logins alone. -/
inductive Undisturbed (streams : Bool) : Interface → Prop where
  | start : Undisturbed streams (.empty streams)
  | step {s : Interface} {req : Request} :
      Undisturbed streams s → s.Spares req → Undisturbed streams (s.perform streams req).interface

theorem Undisturbed.harmony (h : s.Undisturbed streams) : s.Harmony := by
  induction h with
  | start => exact .empty streams
  | step _ hs ih => exact ih.perform hs

/-! ### Agreement -/

/-- What the nodes and the table of aliases say is the same. -/
structure Agrees (s : Interface) : Prop where
  /-- A node is without an alias until it has picked one. -/
  named : ∀ n ∈ s.nodes.nodes,
    n.aliasId = 0 ↔ n.phase = .start ∨ n.phase = .nextSeed ∨ n.phase = .pickAlias
  /-- No two nodes have the same id. -/
  ids : (s.nodes.nodes.map Node.id).Nodup
  /-- There is one mapping for each node with an alias, and no other. -/
  mappings : (s.resources.aliases.mappings.map fun m => (m.aliasId, m.nodeId)).Perm
    ((s.nodes.nodes.filter fun n => n.aliasId ≠ 0).map fun n => (n.aliasId, n.id))
  /-- No two nodes have the same alias. -/
  distinct : ((s.nodes.nodes.filter fun n => n.aliasId ≠ 0).map Node.aliasId).Nodup
  valid : ∀ n ∈ s.nodes.nodes, n.aliasId ≠ 0 → Alias.Valid n.aliasId
  /-- The mapping of a node is permitted when the node is. -/
  permitted : ∀ m ∈ s.resources.aliases.mappings, ∀ n ∈ s.nodes.nodes, m.nodeId = n.id →
    m.permitted = n.flags.permitted
  /-- A node is permitted from the announcement on. -/
  defined : ∀ n ∈ s.nodes.nodes,
    n.flags.permitted = true ↔ Phase.announce.code ≤ n.phase.code
  /-- A node is initialized once it has announced itself. -/
  announced : ∀ n ∈ s.nodes.nodes,
    n.flags.initialized = true ↔ Phase.producers.code ≤ n.phase.code
  /-- The table knows whether a mapping is marked. -/
  marks : s.resources.aliases.hasDuplicate = true ↔
    ∃ m ∈ s.resources.aliases.mappings, m.duplicate = true
  /-- A node that has found an alias gets it. -/
  registers : ∀ n ∈ s.nodes.nodes, n.phase = .pickAlias → ∀ seed,
    Seed.find? (n.mayTake s.resources.aliases) n.seed = some seed →
      ∃ t, s.resources.aliases.register (Seed.aliasOf seed) n.id = .ok t

theorem filterMap_claim? (ns : List Node) :
    ns.filterMap Node.claim? = (ns.filter fun n => n.aliasId ≠ 0).map fun n =>
      ⟨n.aliasId, n.id, n.flags.permitted⟩ := by
  induction ns with
  | nil => rfl
  | cons n ns ih =>
    by_cases hzero : n.aliasId = 0
    · have hnone : n.claim? = none := if_pos hzero
      rw [List.filterMap_cons_none hnone, List.filter_cons_of_neg (by simpa using hzero), ih]
    · rw [List.filterMap_cons_some (Node.claim?_of_named hzero),
        List.filter_cons_of_pos (by simpa using hzero), List.map_cons, ih]

namespace Concord

/-- There is room in the table for a node without an alias. -/
theorem length_mappings_lt (h : s.Concord) (hn : n ∈ s.nodes.nodes) (hzero : n.aliasId = 0) :
    s.resources.aliases.mappings.length < Limits.aliasDepth := by
  have hlen := h.claims.length_eq
  rw [filterMap_claim?, List.length_map, AliasTable.claims, List.length_map] at hlen
  rw [hlen]
  refine Nat.lt_of_lt_of_le ?_ h.size
  exact List.length_filter_lt_length_iff_exists.2 ⟨n, hn, by simpa using hzero⟩

theorem mapping_of_node (h : s.Concord) {m : Mapping} (hm : m ∈ s.resources.aliases.mappings)
    (hn : n ∈ s.nodes.nodes) (hid : m.nodeId = n.id) : n.claim? = some m.claim := by
  cases hc : n.claim? with
  | none => exact absurd hid (h.nodeId_ne hn hc m hm)
  | some c =>
    obtain ⟨m', hm', rfl⟩ := h.exists_mapping hn hc
    have hid' : n.id = m'.nodeId := congrArg Claim.nodeId (Node.claim?_eq_some_iff.1 hc).2
    rw [List.inj_on_of_nodup_map h.proper.nodes hm hm' (hid.trans hid')]

theorem register_isOk (h : s.Concord) (hn : n ∈ s.nodes.nodes) (hp : n.phase = .pickAlias)
    {seed : Nat} (hseed : Seed.find? (n.mayTake s.resources.aliases) n.seed = some seed) :
    ∃ t, s.resources.aliases.register (Seed.aliasOf seed) n.id = .ok t := by
  have hord := h.orderly n hn
  obtain ⟨hzero, -, hfree⟩ := AliasTable.mayTake_iff.1 (Seed.search_eq_some hseed).1
  have hnamed : n.aliasId = 0 := by
    have hlevel := hord.named
    rw [hp] at hlevel
    simpa [Phase.level] using hlevel
  refine AliasTable.exists_register h.proper ⟨Nat.pos_of_ne_zero hzero, ?_⟩ hord.id hfree
    (h.length_mappings_lt hn hnamed)
  exact Nat.le_of_lt_succ (Seed.aliasOf_lt seed)

end Concord

theorem agrees_of_harmony (h : s.Harmony) : s.Agrees where
  named n hn := by
    rw [← not_iff_not, ← ne_eq, (h.orderly n hn).named]
    cases n.phase <;> simp [Phase.level]
  ids := h.ids
  mappings := by
    have hperm := h.claims.map fun c => (c.aliasId, c.nodeId)
    rw [filterMap_claim?, AliasTable.claims, List.map_map, List.map_map] at hperm
    exact hperm
  distinct := by
    have hperm := h.claims.map Claim.aliasId
    rw [filterMap_claim?, AliasTable.claims, List.map_map, List.map_map] at hperm
    exact hperm.nodup_iff.1 h.proper.aliases
  valid n hn hne := h.valid hn hne
  permitted m hm n hn hid := by
    have hc := h.mapping_of_node hm hn hid
    exact (congrArg Claim.permitted (Node.claim?_eq_some_iff.1 hc).2).symm
  defined n hn := (h.orderly n hn).permitted.trans n.phase.two_le_level_iff
  announced n hn := (h.orderly n hn).initialized.trans n.phase.three_le_level_iff
  marks := by
    refine h.noted.trans ?_
    constructor
    · rintro ⟨a, m, hm, -, hd⟩
      exact ⟨m, hm, hd⟩
    · rintro ⟨m, hm, hd⟩
      exact ⟨m.aliasId, m, hm, rfl, hd⟩
  registers n hn hp seed hseed := h.register_isOk hn hp hseed

/-- **Agreement.** Whatever comes from the bus, in whichever order the requests are made and whatever
the driver answers: the table of aliases holds the aliases of the nodes and nothing else, a node is
permitted and initialized when its phase says so, and an alias that a node has found is never
refused. -/
theorem Undisturbed.agrees (h : s.Undisturbed streams) : s.Agrees := agrees_of_harmony h.harmony

theorem Undisturbed.after {reqs : List Request} (h : s.Undisturbed streams)
    (hs : ∀ req ∈ reqs, ∀ s : Interface, s.Spares req) :
    (s.after streams reqs).Undisturbed streams := by
  induction reqs generalizing s with
  | nil => exact h
  | cons req reqs ih =>
    exact ih (h.step (hs req List.mem_cons_self s)) fun r hr => hs r (List.mem_cons_of_mem _ hr)

/-- One node is logged in and hears of its alias from elsewhere, another checks an alias, and a third
has not started. -/
def mixture : List Request :=
  [.register 1 (.ofSupport 0)] ++ List.replicate 20 (.run true) ++ List.replicate 3 .tick ++
    List.replicate 12 (.run true) ++ [.register 2 (.ofSupport 0)] ++ List.replicate 9 (.run true) ++
    [.register 3 (.ofSupport 0), .receive (.reserveId 1)]

theorem agrees_mixture :
    Undisturbed false ((empty false).after false mixture) ∧
      ((empty false).after false mixture).resources.aliases =
        ⟨[⟨1, 1, true, true⟩, ⟨2, 2, false, false⟩], true⟩ ∧
      (((empty false).after false mixture).nodes.nodes.map fun n => (n.aliasId, n.id, n.phase)) =
        [(1, 1, .running), (2, 2, .check6), (0, 3, .start)] ∧
      ((empty false).after false mixture).Agrees := by
  have h : Undisturbed false ((empty false).after false mixture) := by
    refine .after .start fun req hreq s => ?_
    simp only [mixture, List.mem_append, List.mem_replicate, List.mem_cons, List.not_mem_nil,
      or_false] at hreq
    rcases hreq with
      (((((rfl | ⟨-, rfl⟩) | ⟨-, rfl⟩) | ⟨-, rfl⟩) | rfl) | ⟨-, rfl⟩) | rfl | rfl <;> trivial
  exact ⟨h, by decide +kernel, by decide +kernel, h.agrees⟩

end Interface

end LayoutBus
