import LayoutBus.Proofs.Interface.Transcript

/-!
# Conflicts are recovered from

When another node has been seen with aliases of an interface, one pass gives all of them up, sends their
nodes back to look for others, and touches nothing else.

* `Interface.Recovered` : the interface after this pass, field by field.
* `Interface.Renounces` : from then on no frame of a login comes from such an alias before it has been
  picked again, and its node picks another one next.
* `Interface.Undisturbed.recovers` : **recovery.**  Both hold whenever a mapping is marked.
-/

namespace LayoutBus

namespace Interface

variable {streams accepts : Bool} {s t : Interface} {a id : Nat} {req : Request} {es : List Effect}

/-! ### The pass -/

/-- The interface `t` is `s` after its conflicts have been resolved. -/
structure Recovered (s t : Interface) : Prop where
  /-- The marked mappings are gone, and the others are left. -/
  mappings : t.resources.aliases.mappings.Perm
    (s.resources.aliases.mappings.filter fun m => !m.duplicate)
  /-- No mark is left, and the table says so. -/
  unmarked : (∀ m ∈ t.resources.aliases.mappings, m.duplicate = false) ∧
    t.resources.aliases.hasDuplicate = false
  /-- The owner of a marked mapping starts over, and what it has kept is free. -/
  owners : ∀ m ∈ s.resources.aliases.mappings, m.duplicate = true →
    ∃ i n, s.nodes.get? i = some n ∧ n.id = m.nodeId ∧ n.aliasId = m.aliasId ∧
      t.nodes.get? i = some
        { n with
          aliasId := 0
          previousAlias := m.aliasId
          phase := .nextSeed
          flags := ⟨false, false, false, false, false⟩
          producers := { n.producers with cursor := 0 }
          consumers := { n.consumers with cursor := 0 }
          retained := none } ∧
      ∀ h ∈ n.retained, t.message? h = none
  /-- The other nodes are as they were. -/
  others : ∀ i n, s.nodes.get? i = some n →
    (∀ m ∈ s.resources.aliases.mappings, m.duplicate = true → m.nodeId ≠ n.id) →
      t.nodes.get? i = some n
  size : t.nodes.size = s.nodes.size
  /-- The frame of a login is dropped if it comes from an alias that is given up, and only then. -/
  login : ∀ f, t.loginFrame = some f ↔ s.loginFrame = some f ∧
    ∀ m ∈ s.resources.aliases.mappings, m.duplicate = true → m.aliasId ≠ f.source
  /-- Messages that the owners of marked mappings have not kept are as they were. -/
  messages : ∀ h, (∀ m ∈ s.resources.aliases.mappings, m.duplicate = true →
    ∀ n ∈ s.nodes.nodes, n.id = m.nodeId → n.retained ≠ some h) → t.message? h = s.message? h
  outbox : t.resources.outbox = s.resources.outbox
  ingress : t.resources.ingress = s.resources.ingress
  egress : t.resources.egress = s.resources.egress
  assemblies : t.resources.assemblies = s.resources.assemblies
  rest : t.transmitting = s.transmitting ∧ t.segmenting = s.segmenting ∧ t.current = s.current ∧
    t.nodes.cursors = s.nodes.cursors

/-- The alias of a node is marked when the node is the owner of a marked mapping. -/
theorem Concord.marked_iff (h : s.Concord) {n : Node} (hn : n ∈ s.nodes.nodes) :
    s.resources.aliases.marked n.aliasId = true ↔
      ∃ m ∈ s.resources.aliases.mappings, m.duplicate = true ∧ m.nodeId = n.id := by
  rw [AliasTable.marked_iff]
  refine exists_congr fun m => and_congr_right fun hm => and_congr_right fun _ => ?_
  constructor
  · intro ha
    have hne : n.aliasId ≠ 0 := ha ▸ Nat.ne_of_gt (h.proper.valid m hm).1
    obtain ⟨x, hx, hc⟩ := h.exists_mapping hn (Node.claim?_of_named hne)
    obtain rfl := h.proper.eq_of_aliasId hx hm ((congrArg Claim.aliasId hc).trans ha.symm)
    exact congrArg Claim.nodeId hc
  · exact fun hid => (Node.aliasId_eq_of_claim? (h.mapping_of_node hm hn hid)).symm

theorem Concord.recovered (h : s.Concord) : s.Recovered s.resolveConflicts.interface := by
  have hgives := h.resolveConflicts_givesUp
  obtain ⟨ns, f, ms, al, hextent⟩ := giveUpAll_extent s.resources.aliases.mappings.length s
  have hnode : ∀ i, s.resolveConflicts.interface.nodes.get? i =
      (s.nodes.get? i).map fun n =>
        if s.resources.aliases.marked n.aliasId then n.restart else n := by
    intro i
    rw [Registry.get?, hgives.nodes, List.getElem?_map]
    rfl
  have hmappings : s.resolveConflicts.interface.resources.aliases.mappings.Perm
      (s.resources.aliases.mappings.filter fun m => !m.duplicate) := by
    refine hgives.mappings.trans (List.Perm.of_eq (List.filter_congr fun m hm => ?_))
    rw [h.proper.marked_aliasId hm]
  refine ⟨hmappings, ⟨fun m hm => ?_, rfl⟩, fun m hm hd => ?_, fun i n hget hother => ?_, ?_,
    fun g => ?_, fun k hk => ?_, congrArg (·.resources.outbox) hextent,
    congrArg (·.resources.ingress) hextent, congrArg (·.resources.egress) hextent,
    congrArg (·.resources.assemblies) hextent, congrArg (·.transmitting) hextent,
    congrArg (·.segmenting) hextent, congrArg (·.current) hextent,
    congrArg (·.nodes.cursors) hextent⟩
  · simpa using (List.mem_filter.1 (hmappings.subset hm)).2
  · obtain ⟨i, n, hget, hclaim, -⟩ := h.exists_holder hm
    have halias := Node.aliasId_eq_of_claim? hclaim
    have hmarked : s.resources.aliases.marked n.aliasId = true :=
      halias.symm ▸ AliasTable.marked_of_mem hm hd
    refine ⟨i, n, hget, congrArg Claim.nodeId (Node.claim?_eq_some_iff.1 hclaim).2, halias, ?_,
      fun k hk => ?_⟩
    · rw [hnode, hget, Option.map_some, if_pos hmarked, Node.restart, halias]
      rfl
    · rw [hgives.message]
      exact if_pos ⟨n, List.mem_of_getElem? hget, hmarked, hk⟩
  · have hunmarked : ¬ s.resources.aliases.marked n.aliasId = true := by
      rw [h.marked_iff (List.mem_of_getElem? hget)]
      rintro ⟨m, hm, hd, hid⟩
      exact hother m hm hd hid
    rw [hnode, hget, Option.map_some, if_neg hunmarked]
  · rw [Registry.size, hgives.nodes, List.length_map]
    rfl
  · rw [hgives.login, Option.filter_eq_some_iff]
    refine and_congr_right fun _ => ?_
    rw [Bool.not_eq_true', ← Bool.not_eq_true, AliasTable.marked_iff]
    simp only [not_exists, not_and, ne_eq]
  · rw [hgives.message]
    refine if_neg ?_
    rintro ⟨n, hn, hmarked, hkept⟩
    obtain ⟨m, hm, hd, hid⟩ := (h.marked_iff hn).1 hmarked
    exact hk m hm hd n hn hid.symm hkept

/-! ### Afterwards -/

/-- The request leaves the logins of the nodes alone, with the aliases that they have lost. -/
def Remembers : Interface → Request → Prop :=
  SparesWith fun n m => m.previousAlias = n.previousAlias

theorem Remembers.nodes (streams : Bool) (h : s.Remembers req) (hrun : ∀ accepts, req ≠ .run accepts) :
    (s.perform streams req).interface.loginFrame = s.loginFrame ∧
      (∀ n ∈ s.nodes.nodes, ∃ m ∈ (s.perform streams req).interface.nodes.nodes,
        n.Spared m ∧ m.previousAlias = n.previousAlias) ∧
      ∀ m ∈ (s.perform streams req).interface.nodes.nodes, m.aliasId ≠ 0 →
        ∃ n ∈ s.nodes.nodes, n.Spared m ∧ m.previousAlias = n.previousAlias := by
  have hnodes := @perform_nodes streams s req
    (fun n m => n.Spared m ∧ m.previousAlias = n.previousAlias)
    (fun n => ⟨⟨rfl, rfl, rfl, rfl, rfl⟩, rfl⟩) (fun _ n => ⟨⟨rfl, rfl, rfl, rfl, rfl⟩, rfl⟩)
    (fun n x => ⟨⟨rfl, rfl, rfl, rfl, rfl⟩, rfl⟩) ?_ hrun
  · exact ⟨hnodes.1, hnodes.2.1, fun m hm hne => not_created (hnodes.2.2 m hm) hne⟩
  · rintro i change rfl
    exact h

/-- No frame of a login from the alias waits, and no node has it. -/
structure Lacks (a : Nat) (s : Interface) : Prop where
  nodes : ∀ n ∈ s.nodes.nodes, n.aliasId ≠ a
  login : ∀ f ∈ s.loginFrame, f.source ≠ a

/-- The node with this id has lost the alias and not picked another one yet. -/
def Lost (a id : Nat) (s : Interface) : Prop :=
  ∃ n ∈ s.nodes.nodes, n.id = id ∧ n.aliasId = 0 ∧ n.previousAlias = a

end Interface

/-- A node picks the alias. -/
def Occurrence.picksAlias (a : Nat) : Occurrence → Bool
  | .seen (.picked b _) => b == a
  | _ => false

/-- The node picks an alias. -/
def Occurrence.picksFor (id : Nat) : Occurrence → Bool
  | .seen (.picked _ i) => i == id
  | _ => false

theorem Occurrence.picksAlias_iff {a : Nat} {o : Occurrence} :
    o.picksAlias a = true ↔ ∃ i, o = .seen (.picked a i) := by
  unfold picksAlias
  split <;> simp_all

theorem Occurrence.picksFor_iff {id : Nat} {o : Occurrence} :
    o.picksFor id = true ↔ ∃ a, o = .seen (.picked a id) := by
  unfold picksFor
  split <;> simp_all

namespace Interface

variable {streams accepts : Bool} {s t : Interface} {a id : Nat} {req : Request} {es : List Effect}

/-- An alias is back in a login only when a node picks it. -/
theorem LoginPass.lacks (ha : a ≠ 0) (h : s.Harmony) (hs : Lacks a s) (hpass : s.LoginPass t es) :
    (∀ e ∈ es, ∀ f x, e = .offer .login f x → f.source ≠ a) ∧
      ((∀ e ∈ es, Occurrence.picksAlias a (.seen e) = false) → Lacks a t) := by
  cases hpass with
  | conflicts hgives =>
    refine ⟨by simp, fun _ => ⟨fun n hn => ?_, fun f hf => ?_⟩⟩
    · by_cases hzero : n.aliasId = 0
      · rw [hzero]
        exact ha.symm
      · exact hs.nodes n (hgives.kept hn hzero).1
    · rw [hgives.login] at hf
      exact hs.login f (Option.filter_eq_some_iff.1 hf).1
  | other hnodes hlogin hes =>
    refine ⟨?_, fun _ => ⟨hnodes ▸ hs.nodes, hlogin ▸ hs.login⟩⟩
    rintro e he f x rfl
    cases hes _ he
  | offer g accepts hg hnodes hlogin =>
    have hsource : g.source ≠ a := hs.login g hg
    refine ⟨?_, fun _ => ⟨hnodes ▸ hs.nodes, fun f hf => ?_⟩⟩
    · rintro e he f x rfl
      cases accepts <;> simp at he <;> exact he.1 ▸ hsource
    · rw [hlogin] at hf
      split at hf
      · cases hf
      · exact Option.some.inj hf ▸ hsource
  | turn i hnone hnodes hlogin hes =>
    refine ⟨?_, fun _ => ⟨hnodes ▸ hs.nodes, by simp [hlogin]⟩⟩
    rintro e he f x rfl
    rcases List.mem_cons.1 he with heq | he
    · cases heq
    · cases hes _ he
  | step i n hnone hget hnodes hlogin =>
    have hn := List.mem_of_getElem? hget
    have hord := h.orderly n hn
    refine ⟨by simp, fun hpick => ⟨fun m hm => ?_, fun f hf => ?_⟩⟩
    · rw [hnodes] at hm
      rcases mem_modify hm with hm | ⟨-, -, rfl⟩
      · exact hs.nodes m hm
      by_cases hzero : n.aliasId = 0
      · obtain ⟨-, ⟨-, hsame⟩ | ⟨hpicked, -⟩⟩ := (n.advance s.resources.aliases).unnamed hord hzero
        · exact hsame ▸ ha.symm
        · have hstop := hpick (.picked (n.logInStep s.resources.aliases).node.aliasId n.id)
            (by simp [hpicked])
          simpa [Occurrence.picksAlias] using hstop
      · rw [((n.advance s.resources.aliases).named hord hzero).2]
        exact hs.nodes n hn
    · by_cases hzero : n.aliasId = 0
      · rw [hlogin, ((n.advance s.resources.aliases).unnamed hord hzero).1] at hf
        cases hf
      · rw [hlogin] at hf
        rw [(n.advance _).source (h.valid hn hzero) hf]
        exact hs.nodes n hn

theorem Lacks.perform (ha : a ≠ 0) (hs : Lacks a s) (hreq : s.Remembers req)
    (hrun : ∀ accepts, req ≠ .run accepts) : Lacks a (s.perform streams req).interface := by
  obtain ⟨hlogin, -, hold⟩ := hreq.nodes streams hrun
  refine ⟨fun m hm => ?_, hlogin ▸ hs.login⟩
  by_cases hzero : m.aliasId = 0
  · exact hzero ▸ ha.symm
  · obtain ⟨n, hn, hspared, -⟩ := hold m hm hzero
    exact hspared.aliasId ▸ hs.nodes n hn

/-- A node does not pick the alias that it has lost last. -/
theorem picked_ne_previousAlias {n : Node} {al : AliasTable} {step : LoginStep} {b : Nat}
    (hstep : n.Advance al step) (hpick : step.picked = some b) : b ≠ n.previousAlias := by
  cases hstep with
  | pick seed _ hfind =>
    cases hpick
    exact (AliasTable.mayTake_iff.1 (Seed.search_eq_some hfind).1).2.1
  | _ => cases hpick

/-- A node that has lost its alias remembers it until it picks another one. -/
theorem LoginPass.lost (h : s.Harmony) (hs : Lost a id s) (hpass : s.LoginPass t es) :
    (∀ e ∈ es, ∀ b, e = .picked b id → b ≠ a) ∧
      ((∀ e ∈ es, Occurrence.picksFor id (.seen e) = false) → Lost a id t) := by
  obtain ⟨n, hn, hid, hzero, hprevious⟩ := hs
  have same (hnodes : t.nodes.nodes = s.nodes.nodes) : Lost a id t :=
    ⟨n, hnodes ▸ hn, hid, hzero, hprevious⟩
  cases hpass with
  | conflicts hgives =>
    refine ⟨by simp, fun _ => ⟨n, ?_, hid, hzero, hprevious⟩⟩
    rw [hgives.nodes]
    refine List.mem_map.2 ⟨n, hn, if_neg ?_⟩
    rw [hzero, h.proper.marked_zero]
    decide
  | other hnodes hlogin hes =>
    refine ⟨?_, fun _ => same hnodes⟩
    rintro e he b rfl
    cases hes _ he
  | offer g accepts hg hnodes hlogin =>
    refine ⟨?_, fun _ => same hnodes⟩
    rintro e he b rfl
    cases accepts <;> simp at he
  | turn i hnone hnodes hlogin hes =>
    refine ⟨?_, fun _ => same hnodes⟩
    rintro e he b rfl
    rcases List.mem_cons.1 he with heq | he
    · cases heq
    · cases hes _ he
  | step i x hnone hget hnodes hlogin =>
    have hx := List.mem_of_getElem? hget
    by_cases hxn : x.id = id
    · obtain rfl : x = n := List.inj_on_of_nodup_map h.ids hx hn (hxn.trans hid.symm)
      refine ⟨?_, fun hpick => ?_⟩
      · rintro e he b rfl
        simp only [List.mem_cons, reduceCtorEq, List.mem_map, Option.mem_toList, Effect.picked.injEq,
          false_or] at he
        obtain ⟨c, hc, rfl, -⟩ := he
        exact hprevious ▸ picked_ne_previousAlias (x.advance _) hc
      · obtain ⟨-, ⟨-, hsame⟩ | ⟨hpicked, -⟩⟩ :=
          (x.advance s.resources.aliases).unnamed (h.orderly x hx) hzero
        · refine ⟨_, ?_, (x.advance _).id.trans hid, hsame,
            (x.advance s.resources.aliases).previousAlias.trans hprevious⟩
          rw [hnodes]
          exact mem_modify_self hget
        · have hstop := hpick (.picked (x.logInStep s.resources.aliases).node.aliasId x.id)
            (by simp [hpicked])
          simp [Occurrence.picksFor, hxn] at hstop
    · refine ⟨?_, fun _ => ⟨n, ?_, hid, hzero, hprevious⟩⟩
      · rintro e he b rfl
        simp [hxn] at he
      · rw [hnodes]
        refine mem_modify_of_ne hn fun hn' => hxn ?_
        obtain rfl : x = n := Option.some.inj (hget.symm.trans hn')
        exact hid

theorem Lost.perform (hs : Lost a id s) (hreq : s.Remembers req) (hrun : ∀ accepts, req ≠ .run accepts) :
    Lost a id (s.perform streams req).interface := by
  obtain ⟨n, hn, hid, hzero, hprevious⟩ := hs
  obtain ⟨-, hnew, -⟩ := hreq.nodes streams hrun
  obtain ⟨m, hm, hspared, hsame⟩ := hnew n hn
  exact ⟨m, hm, hspared.id.trans hid, hspared.aliasId.trans hzero, hsame.trans hprevious⟩

/-- Whatever is asked, the alias is not used in a login before a node has picked it again, and the node
that had it picks another one next. -/
structure Renounces (streams : Bool) (s : Interface) (a id : Nat) : Prop where
  silent : ∀ reqs, s.Respects streams Remembers reqs → ∀ xs f x ys,
    s.transcript streams reqs = xs ++ .seen (.offer .login f x) :: ys → f.source = a →
      ∃ i, .seen (.picked a i) ∈ xs
  another : ∀ reqs, s.Respects streams Remembers reqs → ∀ xs b ys,
    s.transcript streams reqs = xs ++ .seen (.picked b id) :: ys →
      (∀ c, .seen (.picked c id) ∉ xs) → b ≠ a

theorem renounces (ha : a ≠ 0) (h : s.Harmony) (hc : s.Covered) (hlacks : Lacks a s)
    (hlost : Lost a id s) : s.Renounces streams a id where
  silent reqs hreqs xs f x ys htranscript hsource := by
    by_contra hpick
    refine Monitor.ok_of_transcript (I := Lacks a) (Occurrence.picksAlias a)
      (fun o => ∀ f x, o = .seen (.offer .login f x) → f.source ≠ a) SparesWith.spares ⟨by simp, by simp⟩
      (fun hs hi hpass => ?_) (fun hi hreq hrun => hi.perform ha hreq hrun) h hc hlacks hreqs
      htranscript (fun o ho => ?_) f x rfl hsource
    · simpa using hpass.lacks ha hs hi
    · rw [← Bool.not_eq_true, Occurrence.picksAlias_iff]
      rintro ⟨i, rfl⟩
      exact hpick ⟨i, ho⟩
  another reqs hreqs xs b ys htranscript hfirst := by
    refine Monitor.ok_of_transcript (I := Lost a id) (Occurrence.picksFor id)
      (fun o => ∀ b, o = .seen (.picked b id) → b ≠ a) SparesWith.spares ⟨by simp, by simp⟩
      (fun hs hi hpass => ?_) (fun hi hreq hrun => hi.perform hreq hrun) h hc hlost hreqs htranscript
      (fun o ho => ?_) b rfl
    · simpa using hpass.lost hs hi
    · rw [← Bool.not_eq_true, Occurrence.picksFor_iff]
      rintro ⟨c, rfl⟩
      exact hfirst c ho

/-- **Recovery.** However many aliases are in conflict at once, and wherever the logins of their nodes
stand: one pass gives them all up and leaves everything else as it was; and whatever is asked from then
on, none of them is used in a login before it has been picked again, and the node that had it picks
another one next. -/
theorem Undisturbed.recovers (h : s.Undisturbed streams)
    (hmarked : ∃ m ∈ s.resources.aliases.mappings, m.duplicate = true) (accepts : Bool) :
    (s.run streams accepts).value = true ∧ s.Recovered (s.run streams accepts).interface ∧
      ∀ m ∈ s.resources.aliases.mappings, m.duplicate = true →
        (s.run streams accepts).interface.Renounces streams m.aliasId m.nodeId := by
  have hharmony := h.harmony
  have hflag : s.resources.aliases.hasDuplicate = true := by
    obtain ⟨m, hm, hd⟩ := hmarked
    exact hharmony.noted.2 ⟨m.aliasId, m, hm, rfl, hd⟩
  have hlike : (s.run streams accepts).Like s.resolveConflicts := by
    rcases run_cases streams accepts hharmony.noted.nextDuplicate? with ⟨-, hlike⟩ | ⟨hfalse, -⟩
    · exact hlike
    · rw [hflag] at hfalse
      cases hfalse
  have hrecovered := hharmony.toConcord.recovered
  have hgives := hharmony.toConcord.resolveConflicts_givesUp
  have hafter : (s.run streams accepts).interface.Undisturbed streams :=
    @Undisturbed.step streams s (.run accepts) h trivial
  rw [hlike.value, hlike.interface] at *
  refine ⟨hflag, hrecovered, fun m hm hd => ?_⟩
  have ha : m.aliasId ≠ 0 := Nat.ne_of_gt (hharmony.proper.valid m hm).1
  have hgone := AliasTable.marked_of_mem hm hd
  refine renounces ha hafter.harmony hafter.covered ⟨fun n hn heq => ?_, fun f hf heq => ?_⟩ ?_
  · have hkept := (hgives.kept hn (heq ▸ ha)).2
    rw [heq, hgone] at hkept
    cases hkept
  · exact ((hrecovered.login f).1 hf).2 m hm hd heq.symm
  · obtain ⟨i, n, -, hid, -, hget, -⟩ := hrecovered.owners m hm hd
    exact ⟨_, List.mem_of_getElem? hget, hid, rfl, rfl⟩

/-- One node is logged in and keeps a datagram, the first frame of the login of another one waits, and
both hear of their aliases from elsewhere. -/
def clash : List Request :=
  [.register 1 (.ofSupport 0)] ++ List.replicate 20 (.run true) ++ List.replicate 3 .tick ++
    List.replicate 12 (.run true) ++ [.register 2 (.ofSupport 0)] ++ List.replicate 7 (.run true) ++
    [.allocate .datagram, .retain 0 (some ⟨.datagram, 0⟩), .receive (.reserveId 1),
      .receive (.reserveId 2)]

theorem recovers_clash :
    ((empty false).after false clash).resources.aliases.mappings =
        [⟨1, 1, true, true⟩, ⟨2, 2, false, true⟩] ∧
      ((empty false).after false clash).loginFrame = some (.checkId 7 2 2) ∧
      (((empty false).after false clash).run false true).value = true ∧
      ((empty false).after false clash).Recovered
        (((empty false).after false clash).run false true).interface ∧
      ∀ m ∈ ((empty false).after false clash).resources.aliases.mappings, m.duplicate = true →
        (((empty false).after false clash).run false true).interface.Renounces false m.aliasId
          m.nodeId := by
  have h : Undisturbed false ((empty false).after false clash) := by
    refine .after .start fun req hreq s => ?_
    simp only [clash, List.mem_append, List.mem_replicate, List.mem_cons, List.not_mem_nil,
      or_false] at hreq
    rcases hreq with
      (((((rfl | ⟨-, rfl⟩) | ⟨-, rfl⟩) | ⟨-, rfl⟩) | rfl) | ⟨-, rfl⟩) | rfl | rfl | rfl | rfl <;>
      trivial
  have hmappings : ((empty false).after false clash).resources.aliases.mappings =
      [⟨1, 1, true, true⟩, ⟨2, 2, false, true⟩] := by decide +kernel
  exact ⟨hmappings, by decide +kernel, h.recovers ⟨_, hmappings ▸ List.mem_cons_self, rfl⟩ true⟩

end Interface

end LayoutBus
