import LayoutBus.Proofs.Interface.Transcript

/-!
# The aliases that a node will pick

A node may lose its alias again and again, and at any moment of its login.  On an interface where no
other node has an alias it can be told beforehand which ones it will pick.

* `Node.Foresees` : the candidates that are left to a node, by the phase of its login.
* `Monitor.predicts` : a monitor that ticks off the candidates.
* `Interface.picks_eq_take` : **prediction.**  The aliases that a node picks are the candidates of its
  node id, in their order.
-/

namespace LayoutBus

namespace Node

variable {n : Node} {t : AliasTable} {c d : Candidates}

/-- These candidates are left to the node. -/
def Foresees (n : Node) (c : Candidates) : Prop :=
  match n.phase with
  | .start => c = .ofNodeId n.id ∧ n.previousAlias = 0
  | .nextSeed => c = ⟨Seed.next n.seed, n.previousAlias⟩
  | .pickAlias => c = ⟨n.seed, n.previousAlias⟩
  | _ => c = ⟨Seed.next n.seed, n.aliasId⟩

theorem foresees_start (hp : n.phase = .start) :
    n.Foresees c ↔ c = .ofNodeId n.id ∧ n.previousAlias = 0 := by
  rw [Foresees, hp]

theorem foresees_nextSeed (hp : n.phase = .nextSeed) :
    n.Foresees c ↔ c = ⟨Seed.next n.seed, n.previousAlias⟩ := by
  rw [Foresees, hp]

theorem foresees_pickAlias (hp : n.phase = .pickAlias) :
    n.Foresees c ↔ c = ⟨n.seed, n.previousAlias⟩ := by
  rw [Foresees, hp]

/-- A node that goes on to a seed. -/
theorem foresees_seek (seed : Nat) :
    { n with seed, phase := .pickAlias }.Foresees c ↔ c = ⟨seed, n.previousAlias⟩ :=
  foresees_pickAlias rfl

/-- A node with an alias has got the candidate that it stands at. -/
theorem foresees_of_level (h : 1 ≤ n.phase.level) :
    n.Foresees c ↔ c = ⟨Seed.next n.seed, n.aliasId⟩ := by
  rw [Foresees]
  cases hp : n.phase with
  | start | nextSeed | pickAlias =>
    rw [hp] at h
    cases h
  | _ => exact Iff.rfl

/-- A node that picks an alias. -/
theorem foresees_pick (seed a : Nat) :
    { n with seed, aliasId := a, phase := .check7 }.Foresees c ↔ c = ⟨Seed.next seed, a⟩ :=
  Iff.rfl

theorem foresees_create (id : Nat) (params : NodeParameters) :
    (create id params).Foresees (.ofNodeId id) := (foresees_start rfl).2 ⟨rfl, rfl⟩

/-- A node that loses its alias goes on with the same candidates. -/
theorem Foresees.restart (h : n.Foresees c) (hord : n.Orderly) (hne : n.aliasId ≠ 0) :
    n.restart.Foresees c :=
  (foresees_nextSeed rfl).2 ((foresees_of_level (hord.named.1 hne)).1 h)

/-- What the candidates depend on. -/
theorem Foresees.of_same {m : Node} (h : n.Foresees c) (hid : m.id = n.id)
    (halias : m.aliasId = n.aliasId) (hphase : m.phase = n.phase) (hseed : m.seed = n.seed)
    (hprevious : m.previousAlias = n.previousAlias) : m.Foresees c := by
  unfold Foresees at h ⊢
  rw [hid, halias, hphase, hseed, hprevious]
  exact h

/-- A node with an alias keeps its seed. -/
theorem Advance.seed_of_level {step : LoginStep} (hstep : n.Advance t step)
    (h : 1 ≤ n.phase.level) : step.node.seed = n.seed ∧ 1 ≤ step.node.phase.level := by
  cases hstep with
  | stay => exact ⟨rfl, h⟩
  | seek seed hp => rcases hp with hp | hp | hp <;> rw [hp] at h <;> cases h
  | pick seed hp =>
    rw [hp] at h
    cases h
  | produce e hp | consume e hp => exact ⟨rfl, h⟩
  | _ => exact ⟨rfl, by simp [Phase.level]⟩

/-- Where no other node has an alias, the search of a node is that of the candidates. -/
theorem find?_of_alone (h : t.others n.id = []) :
    Seed.find? (n.mayTake t) n.seed =
      Seed.find? (fun a => decide (a ≠ 0 ∧ a ≠ n.previousAlias)) n.seed := by
  have hmay : n.mayTake t = fun a => decide (a ≠ 0 ∧ a ≠ n.previousAlias) := by
    funext a
    rw [Bool.eq_iff_iff, decide_eq_true_iff]
    constructor
    · intro hmay
      obtain ⟨hzero, hprevious, -⟩ := AliasTable.mayTake_iff.1 hmay
      exact ⟨hzero, hprevious⟩
    · rintro ⟨hzero, hprevious⟩
      exact AliasTable.mayTake_of_others hzero hprevious (by simp [h])
  rw [hmay]

/-- A node picks the next of its candidates, and otherwise none is used up. -/
structure Draws (c : Candidates) (step : LoginStep) : Prop where
  none : step.picked = none → step.node.Foresees c
  some : ∀ a, step.picked = some a → ∃ d, c.next? = some (a, d) ∧ step.node.Foresees d

theorem Foresees.pickAlias (h : n.Foresees c) (hp : n.phase = .pickAlias) (halone : t.others n.id = [])
    (hok : ∀ seed, Seed.find? (n.mayTake t) n.seed = some seed →
      ∃ u, t.register (Seed.aliasOf seed) n.id = .ok u) : Draws c (n.pickAlias t) := by
  obtain rfl := (foresees_pickAlias hp).1 h
  rw [Node.pickAlias]
  split
  · exact ⟨fun _ => h, by simp⟩
  · rename_i seed hseed
    obtain ⟨u, hu⟩ := hok seed hseed
    rw [find?_of_alone halone] at hseed
    rw [hu]
    refine ⟨by simp, fun a ha => ⟨⟨Seed.next seed, Seed.aliasOf seed⟩, ?_, ?_⟩⟩
    · rw [← Option.some.inj ha, Candidates.next?]
      simp only [hseed]
    · exact (foresees_pick seed _).2 rfl

/-- A step of the login. -/
theorem Foresees.logInStep (h : n.Foresees c) (hord : n.Orderly) (halone : t.others n.id = [])
    (hok : n.phase = .pickAlias → ∀ seed, Seed.find? (n.mayTake t) n.seed = some seed →
      ∃ u, t.register (Seed.aliasOf seed) n.id = .ok u) : Draws c (n.logInStep t) := by
  by_cases hlevel : 1 ≤ n.phase.level
  · have hadvance := n.advance t
    obtain ⟨hseed, hlevel'⟩ := hadvance.seed_of_level hlevel
    obtain ⟨hpicked, halias⟩ := hadvance.named hord (hord.named.2 hlevel)
    refine ⟨fun _ => ?_, by simp [hpicked]⟩
    rw [foresees_of_level hlevel', hseed, halias]
    exact (foresees_of_level hlevel).1 h
  · rw [Node.logInStep]
    cases hp : n.phase with
    | start =>
      obtain ⟨hc, hprevious⟩ := (foresees_start hp).1 h
      have hmod : n.id % Seed.bound = n.id := by
        have hle : n.id ≤ NodeId.mask := hord.id.2
        unfold NodeId.mask at hle
        unfold Seed.bound
        omega
      refine ⟨fun _ => (foresees_seek n.id).2 ?_, by simp⟩
      rw [hc, Candidates.ofNodeId, hmod, hprevious]
    | nextSeed => exact ⟨fun _ => (foresees_seek _).2 ((foresees_nextSeed hp).1 h), by simp⟩
    | pickAlias => exact h.pickAlias hp halone (hok hp)
    | _ =>
      rw [hp] at hlevel
      exact absurd (by decide) hlevel

end Node

/-! ### A monitor of the candidates -/

/-- The alias that the node with this id picks. -/
def Occurrence.picked? (id : Nat) : Occurrence → Option Nat
  | .seen (.picked a i) => if i = id then some a else none
  | _ => none

/-- The aliases that the node with this id picks, in their order. -/
def picks (id : Nat) (os : List Occurrence) : List Nat := os.filterMap (Occurrence.picked? id)

namespace Monitor

variable {id : Nat} {c : Candidates} {os : List Occurrence}

/-- Keeps the candidates that are left in mind, and allows the node to pick the next one only. -/
def predicts (id : Nat) : Monitor Candidates where
  note c o :=
    match o.picked? id, c.next? with
    | some _, some (_, d) => d
    | _, _ => c
  allows c o := ∀ a, o.picked? id = some a → ∃ d, c.next? = some (a, d)

/-- What the monitor allows are the candidates. -/
theorem picks_of_clears (h : (predicts id).Clears c os) : picks id os = c.take (picks id os).length := by
  induction os generalizing c with
  | nil => rfl
  | cons o os ih =>
    obtain ⟨hallows, hrest⟩ := h
    cases ho : o.picked? id with
    | none =>
      have hnote : (predicts id).note c o = c := by simp [predicts, ho]
      rw [hnote] at hrest
      rw [picks, List.filterMap_cons_none ho]
      exact ih hrest
    | some a =>
      obtain ⟨d, hd⟩ := hallows a ho
      have hnote : (predicts id).note c o = d := by simp [predicts, ho, hd]
      rw [hnote] at hrest
      have htail := ih hrest
      rw [picks, List.filterMap_cons_some ho, List.length_cons, Candidates.take, hd]
      exact congrArg (a :: ·) htail

/-- Where the node picks nothing, nothing is ticked off. -/
theorem predicts_ignores (h : ∀ o ∈ os, o.picked? id = none) :
    (predicts id).Clears c os ∧ (predicts id).after c os = c := by
  refine clears_of_ignored fun o ho => ⟨fun a ha => ?_, ?_⟩
  · rw [h o ho] at ha
    cases ha
  · simp [predicts, h o ho]

end Monitor

namespace Interface

variable {streams : Bool} {s t : Interface} {id : Nat} {c : Candidates} {req : Request}
  {reqs : List Request} {es : List Effect}

/-- These candidates are left to the node with this id. -/
structure Foretells (id : Nat) (s : Interface) (c : Candidates) : Prop where
  node : ∀ n ∈ s.nodes.nodes, n.id = id → n.Foresees c
  /-- A node that is still to come has all its candidates left. -/
  fresh : (∀ n ∈ s.nodes.nodes, n.id ≠ id) → c = .ofNodeId id

/-- No other node has an alias when the request is made, and the request leaves the logins of the nodes
alone. -/
def Alone (id : Nat) (s : Interface) (req : Request) : Prop :=
  s.resources.aliases.others id = [] ∧
    s.SparesWith (fun n m => m.seed = n.seed ∧ m.previousAlias = n.previousAlias) req

theorem Foretells.of_same (h : Foretells id s c) (hnodes : t.nodes.nodes = s.nodes.nodes) :
    Foretells id t c where
  node := hnodes ▸ h.node
  fresh := hnodes ▸ h.fresh

/-- What is no matter of a login is no pick. -/
theorem picked?_of_aside {e : Effect} (h : e.aside = true) : Occurrence.picked? id (.seen e) = none := by
  cases e with
  | picked a i => cases h
  | _ => rfl

/-- Nodes that give up their aliases go on with their candidates. -/
theorem Foretells.conflicts (h : Foretells id s c) (hs : s.Harmony)
    (hgives : GivesUp s.resources.aliases.marked s t) : Foretells id t c where
  node m hm hid := by
    rw [hgives.nodes] at hm
    obtain ⟨n, hn, rfl⟩ := List.mem_map.1 hm
    split at hid <;> rename_i hmarked
    · rw [if_pos hmarked]
      refine (h.node n hn hid).restart (hs.orderly n hn) fun hzero => ?_
      rw [hzero, hs.proper.marked_zero] at hmarked
      cases hmarked
    · rw [if_neg hmarked]
      exact h.node n hn hid
  fresh hnone := h.fresh fun n hn hid => by
    refine hnone _ (hgives.nodes ▸ List.mem_map_of_mem hn) ?_
    split
    · exact hid
    · exact hid

/-- A step of a login. -/
theorem Foretells.step {n : Node} {i : Nat} (h : Foretells id s c) (hs : s.Harmony) (ht : t.Harmony)
    (halone : s.resources.aliases.others id = []) (hget : s.nodes.get? i = some n)
    (hnodes : t.nodes.nodes =
      s.nodes.nodes.modify i fun _ => (n.logInStep s.resources.aliases).node) :
    let os := ((.turn i :: (n.logInStep s.resources.aliases).picked.toList.map fun a =>
      .picked a n.id) : List Effect).map Occurrence.seen
    (Monitor.predicts id).Clears c os ∧ Foretells id t ((Monitor.predicts id).after c os) := by
  intro os
  have hn := List.mem_of_getElem? hget
  have hself : (n.logInStep s.resources.aliases).node ∈ t.nodes.nodes :=
    hnodes ▸ mem_modify_self hget
  have hkeeps : (n.logInStep s.resources.aliases).node.id = n.id := (n.advance _).id
  by_cases hid : n.id = id
  · subst hid
    have hdraws := (h.node n hn rfl).logInStep (hs.orderly n hn) halone fun hp seed hseed =>
      hs.register_isOk hn hp hseed
    have hnode : ∀ d, (n.logInStep s.resources.aliases).node.Foresees d → Foretells n.id t d := by
      refine fun d hd => ⟨fun m hm hid => ?_, fun hnone => absurd hkeeps (hnone _ hself)⟩
      rw [List.inj_on_of_nodup_map ht.ids hm hself (hid.trans hkeeps.symm)]
      exact hd
    cases hpicked : (n.logInStep s.resources.aliases).picked with
    | none =>
      have hignored : ∀ o ∈ os, o.picked? n.id = none := by
        simp [os, hpicked, Occurrence.picked?]
      obtain ⟨hclears, hafter⟩ := Monitor.predicts_ignores (c := c) hignored
      rw [hafter]
      exact ⟨hclears, hnode c (hdraws.none hpicked)⟩
    | some a =>
      obtain ⟨d, hd, hforesees⟩ := hdraws.some a hpicked
      have hos : os = [.seen (.turn i), .seen (.picked a n.id)] := by simp [os, hpicked]
      have hturn : Occurrence.picked? n.id (.seen (.turn i)) = none := rfl
      have hpick : Occurrence.picked? n.id (.seen (.picked a n.id)) = some a := if_pos rfl
      rw [hos]
      refine ⟨⟨?_, ?_, trivial⟩, ?_⟩
      · simp [Monitor.predicts, hturn]
      · simp [Monitor.predicts, hturn, hpick, hd]
      · simpa [Monitor.after, Monitor.predicts, hturn, hpick, hd] using hnode d hforesees
  · have hignored : ∀ o ∈ os, o.picked? id = none := by
      simp [os, Occurrence.picked?, hid]
    obtain ⟨hclears, hafter⟩ := Monitor.predicts_ignores (c := c) hignored
    rw [hafter]
    refine ⟨hclears, fun m hm hm' => ?_, fun hnone => h.fresh fun m hm hm' => ?_⟩
    · rw [hnodes] at hm
      rcases mem_modify hm with hm | ⟨-, -, rfl⟩
      · exact h.node m hm hm'
      · exact absurd (hkeeps.symm.trans hm') hid
    · refine hnone m (hnodes ▸ mem_modify_of_ne hm fun hi => hid ?_) hm'
      obtain rfl : n = m := Option.some.inj (hget.symm.trans hi)
      exact hm'

/-- One pass. -/
theorem Foretells.pass (h : Foretells id s c) (hs : s.Harmony) (ht : t.Harmony)
    (halone : s.resources.aliases.others id = []) (hpass : s.LoginPass t es) :
    (Monitor.predicts id).Clears c (es.map .seen) ∧
      Foretells id t ((Monitor.predicts id).after c (es.map .seen)) := by
  have hignored : (∀ e ∈ es, Occurrence.picked? id (.seen e) = none) → Foretells id t c →
      (Monitor.predicts id).Clears c (es.map .seen) ∧
        Foretells id t ((Monitor.predicts id).after c (es.map .seen)) := by
    intro hes hkeeps
    obtain ⟨hclears, hafter⟩ := Monitor.predicts_ignores (c := c) (List.forall_mem_map.2 hes)
    rw [hafter]
    exact ⟨hclears, hkeeps⟩
  cases hpass with
  | conflicts hgives => exact hignored (by simp) (h.conflicts hs hgives)
  | other hnodes _ hes => exact hignored (fun e he => picked?_of_aside (hes e he)) (h.of_same hnodes)
  | offer f accepts _ hnodes =>
    refine hignored (fun e he => ?_) (h.of_same hnodes)
    cases accepts <;> simp at he
    · rw [he]
      rfl
    · rcases he with rfl | rfl <;> rfl
  | turn i _ hnodes _ hes =>
    refine hignored (fun e he => ?_) (h.of_same hnodes)
    rcases List.mem_cons.1 he with rfl | he
    · rfl
    · exact picked?_of_aside (hes e he)
  | step i n _ hget hnodes => exact h.step hs ht halone hget hnodes

/-- Other requests. -/
theorem Foretells.perform (h : Foretells id s c) (ht : (s.perform streams req).interface.Harmony)
    (hreq : s.SparesWith (fun n m => m.seed = n.seed ∧ m.previousAlias = n.previousAlias) req)
    (hrun : ∀ accepts, req ≠ .run accepts) : Foretells id (s.perform streams req).interface c := by
  have hnodes := @perform_nodes streams s req
    (fun n m => n.Spared m ∧ m.seed = n.seed ∧ m.previousAlias = n.previousAlias)
    (fun n => ⟨⟨rfl, rfl, rfl, rfl, rfl⟩, rfl, rfl⟩) (fun _ n => ⟨⟨rfl, rfl, rfl, rfl, rfl⟩, rfl, rfl⟩)
    (fun n x => ⟨⟨rfl, rfl, rfl, rfl, rfl⟩, rfl, rfl⟩)
    (fun i change heq => by subst heq; exact hreq) hrun
  obtain ⟨-, hkept, hthere⟩ := hnodes
  refine ⟨fun m hm hid => ?_, fun hnone => h.fresh fun n hn hid => ?_⟩
  · by_cases hold : ∃ n ∈ s.nodes.nodes, n.id = id
    · -- the node was there before, and there is only one with this id
      obtain ⟨n, hn, hnid⟩ := hold
      obtain ⟨m', hm', hspared, hseed, hprevious⟩ := hkept n hn
      obtain rfl : m = m' :=
        List.inj_on_of_nodup_map ht.ids hm hm' (hid.trans (hspared.id.trans hnid).symm)
      exact (h.node n hn hnid).of_same hspared.id hspared.aliasId hspared.phase hseed hprevious
    · rcases hthere m hm with ⟨n, hn, hspared, -⟩ | ⟨id', params, rfl⟩
      · exact absurd ⟨n, hn, hspared.id.symm.trans hid⟩ hold
      · obtain rfl : id' = id := hid
        rw [h.fresh fun n hn hnid => hold ⟨n, hn, hnid⟩]
        exact Node.foresees_create _ _
  · obtain ⟨m, hm, hspared, -⟩ := hkept n hn
    exact hnone m hm (hspared.id.trans hid)

theorem picked?_of_mem_occurrences (hrun : ∀ accepts, req ≠ .run accepts) :
    ∀ o ∈ s.occurrences streams req, o.picked? id = none := by
  intro o ho
  by_cases htick : req = .tick
  · subst htick
    rw [List.mem_singleton.1 ho]
    rfl
  · obtain ⟨f, rfl⟩ := mem_occurrences hrun htick ho
    rfl

/-- **Prediction.** Where no other node has an alias, a node picks the candidates of its node id one
after the other, however often and whenever it loses the alias that it has. -/
theorem picks_eq_take (id : Nat)
    (h : (empty streams).Respects streams (Alone id) reqs) :
    picks id ((empty streams).transcript streams reqs) =
      (Candidates.ofNodeId id).take (picks id ((empty streams).transcript streams reqs)).length := by
  have hstart : Foretells id (empty streams) (.ofNodeId id) := ⟨fun n hn => (by cases hn), fun _ => rfl⟩
  refine Monitor.picks_of_clears (Monitor.clears_transcript (P := Alone id)
    (fun hreq => hreq.2.spares) (fun hs ht hi hreq hpass => hi.pass hs ht hreq.1 hpass)
    (fun {s c req} hs hi hreq hrun => ?_) (.empty streams) Outbox.covered_empty hstart h)
  have hharmony : (s.perform streams req).interface.Harmony := hs.perform hreq.2.spares
  have hignored := @picked?_of_mem_occurrences streams s id req hrun
  obtain ⟨hclears, hafter⟩ := Monitor.predicts_ignores (c := c) hignored
  rw [hafter]
  exact ⟨hclears, hi.perform hharmony hreq.2 hrun⟩

/-- It can be seen from the states alone that no other node has an alias, if no request changes a
node. -/
theorem respects_alone (hchange : ∀ i change, .revise i change ∉ reqs)
    (h : ∀ k < reqs.length, (s.after streams (reqs.take k)).resources.aliases.others id = []) :
    s.Respects streams (Alone id) reqs := by
  induction reqs generalizing s with
  | nil => trivial
  | cons req reqs ih =>
    refine ⟨⟨h 0 (Nat.zero_lt_succ _), ?_⟩, ih (fun i change hmem => ?_) fun k hk => ?_⟩
    · cases req with
      | revise i change => exact absurd List.mem_cons_self (hchange i change)
      | _ => trivial
    · exact hchange i change (List.mem_cons_of_mem _ hmem)
    · exact h (k + 1) (Nat.succ_lt_succ hk)

/-- A node loses its first alias when the driver has just refused the first check of it, and it loses
the next one as well.  Its second seed proposes the alias of the first once more. -/
def mishaps : List Request :=
  [.register 0xE8EE23A9A9DB (.ofSupport 0)] ++ List.replicate 5 (.run true) ++
    [.run false, .receive (.reserveId 0x3EC), .tick] ++ List.replicate 5 (.run true) ++
    [.receive (.reserveId 0xC0D)] ++ List.replicate 5 (.run true)

theorem picks_mishaps :
    (empty false).Respects false (Alone 0xE8EE23A9A9DB) mishaps ∧
      picks 0xE8EE23A9A9DB ((empty false).transcript false mishaps) = [0x3EC, 0xC0D, 0x8E5] ∧
      (Candidates.ofNodeId 0xE8EE23A9A9DB).take 3 = [0x3EC, 0xC0D, 0x8E5] := by
  have h : (empty false).Respects false (Alone 0xE8EE23A9A9DB) mishaps :=
    respects_alone (by simp [mishaps]) (by decide +kernel)
  have hpicks : picks 0xE8EE23A9A9DB ((empty false).transcript false mishaps) = [0x3EC, 0xC0D, 0x8E5] := by
    decide +kernel
  have htake := picks_eq_take 0xE8EE23A9A9DB h
  rw [hpicks] at htake
  exact ⟨h, hpicks, htake.symm⟩

end Interface

end LayoutBus
