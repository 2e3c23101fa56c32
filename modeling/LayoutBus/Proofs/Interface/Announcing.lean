import LayoutBus.Proofs.Interface.Pass
import LayoutBus.Proofs.Interface.Underway
import LayoutBus.Proofs.Interface.Withdrawal

/-!
# Logins are announced

All nodes of an interface share one place for the frame of a login, the driver may refuse it any
number of times, and a conflict may clear it.  Still every login is announced as it should be.

* `Interface.Follows` : how the login of a node goes on in one request.
* `Interface.resolveConflicts_follows` and `Interface.logIn_follows` : so it does when aliases are given
  up, and when a node has its turn.
* `Interface.Pass.follows` : every pass of the main loop lets the logins go on in this way.
-/

namespace LayoutBus

namespace Interface

variable {streams accepts : Bool} {s t u : Interface} {n m : Node} {fs : List Effect}

/-- How a node comes to have its alias: its login goes on, or it has just begun. -/
inductive Follows (s t : Interface) (fs : List Effect) (m : Node) : Prop where
  | further (n : Node) : n ∈ s.nodes.nodes → n.aliasId = m.aliasId → n.id = m.id →
      (n.Paced → m.Paced) → (∀ es, s.Underway n es → t.Underway m (es ++ fs)) → Follows s t fs m
  | begins (pre : List Effect) : fs = pre ++ [.picked m.aliasId m.id] → m.Paced →
      t.Underway m [] → Follows s t fs m

theorem Follows.of_kept (hn : n ∈ s.nodes.nodes) (hkept : n.Kept m)
    (h : ∀ es, s.Underway n es → t.Underway m (es ++ fs)) : s.Follows t fs m :=
  .further n hn hkept.aliasId.symm hkept.id.symm hkept.paced h

/-- The nodes that have an alias and the frame of a login are the same. -/
theorem Follows.of_same (h : s.Follows t fs m) (hnodes : s.nodes.nodes = u.nodes.nodes)
    (hlogin : s.loginFrame = u.loginFrame) (hclear : ∀ P, u.Sources P → s.Sources P) :
    u.Follows t fs m := by
  cases h with
  | further n hn halias hid hpaced hgoes =>
    refine .further n (hnodes ▸ hn) halias hid hpaced fun es hu => hgoes es ?_
    have hsame : s.Underway n (es ++ []) := hu.keep (.refl n) (by simp)
      (pending_of_loginFrame hlogin n.aliasId) fun hc => .inr (hclear _ hc)
    rwa [List.append_nil] at hsame
  | begins pre hfs hpaced hu => exact .begins pre hfs hpaced hu

/-! ### Conflicts -/

/-- The frame of a login waits on if its alias is not given up. -/
theorem GivesUp.pending {p : Nat → Bool} (h : GivesUp p s t) {a : Nat} (ha : p a = false) :
    t.pending a = s.pending a := by
  rw [Interface.pending, h.login, Interface.pending]
  cases s.loginFrame with
  | none => rfl
  | some f =>
    by_cases hf : f.source = a
    · simp [Option.filter, hf, ha]
    · cases hp : p f.source <;> simp [Option.filter, hp, hf]

theorem resolveConflicts_follows {held : List Handle} (h : s.Concord) (hs : s.Sound streams held)
    (hm : m ∈ s.resolveConflicts.interface.nodes.nodes) (hne : m.aliasId ≠ 0) :
    s.Follows s.resolveConflicts.interface [] m := by
  have hgives := h.resolveConflicts_givesUp
  obtain ⟨hold, hunmarked⟩ := hgives.kept hm hne
  have hpending := hgives.pending hunmarked
  have hsteady := resolveConflicts_steady hs
  have houtbox : s.resolveConflicts.interface.resources.outbox = s.resources.outbox := by
    obtain ⟨ns, f, ms, al, heq⟩ := giveUpAll_extent s.resources.aliases.mappings.length s
    exact congrArg (·.resources.outbox) heq
  refine .of_kept hold (.refl m) fun es hu => hu.keep (.refl m) (by simp) hpending fun hc => .inr ?_
  exact hc.of_same (fun k g hg => .inr (houtbox ▸ hg)) hsteady.segmenting hsteady.message

/-! ### Turns -/

section Turn

variable {i : Nat}

/-- The nodes after a turn. -/
theorem mem_nodes_logIn (h : s.Concord) (hn : s.nodes.get? i = some n) (hlogin : s.loginFrame = none)
    (hm : m ∈ (s.logIn i n).interface.nodes.nodes) :
    m = (n.logInStep s.resources.aliases).node ∨
      m ∈ s.nodes.nodes ∧ m.id ≠ n.id ∧
        (m.aliasId ≠ 0 → m.aliasId ≠ (n.logInStep s.resources.aliases).node.aliasId) := by
  have hafter := h.logIn hn
  have hid := (n.advance s.resources.aliases).id
  have hnodes : (s.logIn i n).interface.nodes.nodes =
      s.nodes.nodes.modify i fun _ => (n.logInStep s.resources.aliases).node := by
    rw [(logIn_eq i n hlogin).1]
    rfl
  have hnew : (n.logInStep s.resources.aliases).node ∈ (s.logIn i n).interface.nodes.nodes := by
    rw [hnodes]
    exact mem_modify_self hn
  by_cases hsame : m.id = n.id
  · exact .inl (List.inj_on_of_nodup_map hafter.ids hm hnew (hsame.trans hid.symm))
  · refine .inr ⟨?_, hsame, fun hne halias => hsame ?_⟩
    · rw [hnodes] at hm
      rcases mem_modify hm with hm | ⟨z, -, rfl⟩
      · exact hm
      · exact absurd hid hsame
    · rw [← hafter.eq_of_aliasId hm hnew hne halias.symm, hid]

theorem sources_logIn {P : Nat → Prop} (hlogin : s.loginFrame = none) (h : s.Sources P) :
    (s.logIn i n).interface.Sources P := by
  rw [(logIn_eq i n hlogin).1]
  exact ⟨h.frames, h.message⟩

/-- A frame that waits after a turn comes from the node that had it. -/
theorem pending_logIn {a : Nat} (hord : n.Orderly) (hpaced : n.aliasId ≠ 0 → n.Paced)
    (hvalid : n.aliasId ≠ 0 → Alias.Valid n.aliasId) (hlogin : s.loginFrame = none)
    (ha : n.aliasId ≠ 0 → a ≠ n.aliasId) : (s.logIn i n).interface.pending a = [] := by
  rw [(logIn_eq i n hlogin).1]
  refine List.filter_eq_nil_iff.2 fun f hf => ?_
  have hframe : (n.logInStep s.resources.aliases).frame = some f := by simpa using hf
  have hne : n.aliasId ≠ 0 := by
    intro hzero
    rw [((n.advance s.resources.aliases).unnamed hord hzero).1] at hframe
    cases hframe
  have hsteps := (n.advance s.resources.aliases).continues hord (hpaced hne) hne
  intro hsource
  exact ha hne ((of_decide_eq_true hsource).symm.trans (hsteps.source (hvalid hne) hframe))

/-- The login of the node that has its turn begins if it had no alias, and goes on otherwise. -/
theorem logIn_follows_self (h : s.Concord) (hn : s.nodes.get? i = some n) (hcovered : s.Covered)
    (hidle : s.Idle) (hseg : s.segmenting = none) (hlogin : s.loginFrame = none)
    (hpaced : n.aliasId ≠ 0 → n.Paced) (hne : (n.logInStep s.resources.aliases).node.aliasId ≠ 0) :
    s.Follows (s.logIn i n).interface (.turn i :: shown (s.logIn i n).trace)
      (n.logInStep s.resources.aliases).node := by
  have hmem := List.mem_of_getElem? hn
  have hord := h.orderly n hmem
  have hid := (n.advance s.resources.aliases).id
  by_cases hzero : n.aliasId = 0
  · obtain ⟨hframe, ⟨-, hunnamed⟩ | ⟨hpick, hphase⟩⟩ :=
      (n.advance s.resources.aliases).unnamed hord hzero
    · exact absurd hunnamed hne
    · have hnone : (s.logIn i n).interface.loginFrame = none := by
        rw [(logIn_eq i n hlogin).1]
        exact hframe
      have hpending := pending_of_none hnone (n.logInStep s.resources.aliases).node.aliasId
      -- nothing of a message is on its way when a node has its turn
      refine .begins [.turn i] ?_ (Node.paced_of_phase (by rw [hphase]; decide)
        (by rw [hphase]; decide)) ⟨by simp, ?_, fun _ => hpending, withheld_nil _ _,
          .inr (sources_logIn hlogin (sources_of_idle hcovered hidle hseg))⟩
      · rw [(logIn_eq i n hlogin).2, hpick, hid]
        rfl
      · rw [hpending, Node.announced_of_check7 hphase]
        rfl
  · have hsteps := (n.advance s.resources.aliases).continues hord (hpaced hzero) hzero
    obtain ⟨-, halias⟩ := (n.advance s.resources.aliases).named hord hzero
    exact .further n hmem halias.symm hid.symm (fun _ => hsteps.paced) fun es hu =>
      hu.logIn hlogin hord (hpaced hzero) (h.valid hmem hzero)

/-- What is sent and picked in the turn of a node has another alias than the other nodes. -/
theorem logIn_follows_other (h : s.Concord) (hn : s.nodes.get? i = some n)
    (hlogin : s.loginFrame = none) (hpaced : n.aliasId ≠ 0 → n.Paced) (hm : m ∈ s.nodes.nodes)
    (hother : m.id ≠ n.id) (hapart : m.aliasId ≠ (n.logInStep s.resources.aliases).node.aliasId) :
    s.Follows (s.logIn i n).interface (.turn i :: shown (s.logIn i n).trace) m := by
  have hmem := List.mem_of_getElem? hn
  have hord := h.orderly n hmem
  have hpending : (s.logIn i n).interface.pending m.aliasId = [] :=
    pending_logIn hord hpaced (h.valid hmem) hlogin fun hzero halias =>
      hother (congrArg Node.id (h.eq_of_aliasId hmem hm hzero halias))
  rw [(logIn_eq i n hlogin).2]
  refine .of_kept hm (.refl m) fun es hu => hu.extend rfl rfl (fun a j hpick => ?_) []
    (List.append_nil _).symm ?_ (fun _ => hpending) (by simp)
    fun hc => .inr (sources_logIn hlogin hc)
  · obtain ⟨b, hb, hpick⟩ : ∃ b ∈ (n.logInStep s.resources.aliases).picked.toList,
        Effect.picked b n.id = .picked a j := by simpa using hpick
    cases hpick
    have halias := (n.advance _).picked (Option.mem_toList.1 hb)
    exact ⟨halias ▸ hapart.symm, hother.symm⟩
  · rw [hpending, pending_of_none hlogin, loginFrames_eq_nil (by simp)]

/-- The login of one node goes on or begins, and the others wait. -/
theorem logIn_follows (h : s.Concord) (hn : s.nodes.get? i = some n) (hcovered : s.Covered)
    (hidle : s.Idle) (hseg : s.segmenting = none) (hlogin : s.loginFrame = none)
    (hpaced : n.aliasId ≠ 0 → n.Paced) (hm : m ∈ (s.logIn i n).interface.nodes.nodes)
    (hne : m.aliasId ≠ 0) :
    s.Follows (s.logIn i n).interface (.turn i :: shown (s.logIn i n).trace) m := by
  rcases mem_nodes_logIn h hn hlogin hm with rfl | ⟨hold, hother, hapart⟩
  · exact logIn_follows_self h hn hcovered hidle hseg hlogin hpaced hne
  · exact logIn_follows_other h hn hlogin hpaced hold hother (hapart hne)

theorem takeTurn_follows (h : s.Concord) (hcovered : s.Covered) (hidle : s.Idle)
    (hseg : s.segmenting = none) (hlogin : s.loginFrame = none)
    (hpaced : ∀ n ∈ s.nodes.nodes, n.aliasId ≠ 0 → n.Paced)
    (hm : m ∈ (s.takeTurn i).interface.nodes.nodes) (hne : m.aliasId ≠ 0) :
    s.Follows (s.takeTurn i).interface (shown (s.takeTurn i).trace) m := by
  rw [takeTurn] at hm ⊢
  split
  · rename_i hn
    rw [hn] at hm
    exact .of_kept hm (.refl m) fun es hu => hu.keep (.refl m) (by simp [shown, Effect.counts]) rfl .inr
  · rename_i n hn
    rw [hn] at hm
    simp only at hm
    split at hm <;> rename_i hrun
    · rw [if_pos hrun]
      exact .of_kept hm (.refl m) fun es hu => hu.keep (.refl m) (by simp [shown, Effect.counts]) rfl .inr
    · rw [if_neg hrun]
      exact logIn_follows h hn hcovered hidle hseg hlogin (hpaced n (List.mem_of_getElem? hn)) hm hne

end Turn

/-! ### One pass -/

/-- A node may send from an alias only if it is its own. -/
theorem Concord.level_of_isPermitted {a : Nat} (h : s.Concord) (hn : n ∈ s.nodes.nodes)
    (hne : n.aliasId ≠ 0) (hperm : s.resources.aliases.isPermitted a = true)
    (ha : a % 0x1000 = n.aliasId) : 2 ≤ n.phase.level := by
  obtain ⟨x, hx, rfl, hxp⟩ := h.proper.isPermitted_iff.1 hperm
  obtain ⟨n', hn', hclaim⟩ := h.exists_node hx
  have hvalid := h.proper.valid x hx
  have halias : n'.aliasId = n.aliasId :=
    (Node.aliasId_eq_of_claim? hclaim).trans
      ((Nat.mod_eq_of_lt (Nat.lt_succ_of_le hvalid.2)).symm.trans ha)
  obtain rfl := h.eq_of_aliasId hn hn' hne halias
  have hflag : n'.flags.permitted = x.permitted :=
    congrArg Claim.permitted (Node.claim?_eq_some_iff.1 hclaim).2
  exact (h.orderly n' hn).permitted.1 (hflag.trans hxp)

/-- Whatever a pass does, every login goes on. -/
theorem Pass.follows {held : List Handle} (hpass : Pass streams accepts s t fs) (h : s.Concord)
    (hs : s.Sound streams held) (hcovered : s.Covered)
    (hpaced : ∀ n ∈ s.nodes.nodes, n.aliasId ≠ 0 → n.Paced) (hm : m ∈ t.nodes.nodes)
    (hne : m.aliasId ≠ 0) : s.Follows t fs m := by
  cases hpass with
  | conflicts => exact resolveConflicts_follows h hs hm hne
  | frame =>
    have hold : m ∈ s.nodes.nodes := by
      obtain ⟨x, o, heq⟩ := @transmit_extent accepts s
      rw [heq] at hm
      exact hm
    exact .of_kept hold (.refl m) fun es hu => hu.transmit
  | login =>
    have hold : m ∈ s.nodes.nodes := by
      rw [transmitLogin] at hm
      split at hm
      · exact hm
      · split at hm <;> exact hm
    exact .of_kept hold (.refl m) fun es hu => hu.transmitLogin
  | message hlogin =>
    have hold : m ∈ s.nodes.nodes := by
      obtain ⟨g, b, ms, q, heq⟩ := @sendMessages_extent streams s
      rw [heq] at hm
      exact hm
    exact .of_kept hold (.refl m) fun es hu =>
      hu.sendMessages hlogin fun a ha heq => h.level_of_isPermitted hold hne ha heq
  | rest cursors current =>
    exact .of_kept hm (.refl m) fun es hu =>
      hu.keep (.refl m) (by simp) rfl fun hc => .inr ⟨hc.frames, hc.message⟩
  | turn cursors current i hidle hseg hlogin =>
    have hu : Concord { s with nodes := { s.nodes with cursors }, current } :=
      h.of_same rfl h.proper rfl
    exact (takeTurn_follows hu hcovered hidle hseg hlogin hpaced hm hne).of_same rfl rfl
      fun P hc => ⟨hc.frames, hc.message⟩

end Interface

end LayoutBus
