import LayoutBus.Proofs.Interface.Concord
import LayoutBus.Proofs.Interface.Sources
import LayoutBus.Proofs.Node.Announcement

/-!
# A login that is underway

The login of a node has begun when the node picked its alias.  What can be seen of it since then are
the frames that the driver accepted; one more may wait for the driver.

* `loginFrames` : the frames of a login that have been accepted.
* `Interface.Underway` : the accepted frames and the waiting one are what the node has done with, and
  no frame of a message from its alias has been accepted before the definition of the alias.
* `Interface.Underway.extend` : what keeps it so.  `Interface.Underway.transmit`,
  `Interface.Underway.transmitLogin`, `Interface.Underway.sendMessages` and
  `Interface.Underway.logIn` : the work of the main loop does.
-/

namespace LayoutBus

/-- The driver accepts a frame, or a node picks an alias. -/
def Effect.counts : Effect → Bool
  | offer _ _ true | picked .. => true
  | _ => false

/-- The frames of logins from this alias that the driver has accepted. -/
def loginFrames (a : Nat) (es : List Effect) : List Frame :=
  es.filterMap fun
    | .offer .login f true => if f.source = a then some f else none
    | _ => none

/-- No frame of a message from the alias has been accepted before this frame of a login. -/
def Withheld (a : Nat) (d : Frame) (es : List Effect) : Prop :=
  ∀ xs f ys, es = xs ++ .offer .outbox f true :: ys → f.isMessage = true → f.source = a →
    .offer .login d true ∈ xs

section History

variable {a : Nat} {d f : Frame} {es fs : List Effect}

theorem loginFrames_append (a : Nat) (es fs : List Effect) :
    loginFrames a (es ++ fs) = loginFrames a es ++ loginFrames a fs := List.filterMap_append ..

theorem mem_loginFrames_iff : f ∈ loginFrames a es ↔ .offer .login f true ∈ es ∧ f.source = a := by
  unfold loginFrames
  rw [List.mem_filterMap]
  constructor
  · rintro ⟨e, he, hf⟩
    split at hf
    · split at hf
      · cases hf
        exact ⟨he, ‹_›⟩
      · cases hf
    · cases hf
  · rintro ⟨he, hf⟩
    exact ⟨_, he, if_pos hf⟩

theorem loginFrames_eq_nil (h : ∀ f, .offer .login f true ∉ es) : loginFrames a es = [] :=
  List.eq_nil_iff_forall_not_mem.2 fun f hf => h f (mem_loginFrames_iff.1 hf).1

theorem withheld_nil (a : Nat) (d : Frame) : Withheld a d [] := by
  intro xs f ys heq
  cases xs <;> cases heq

theorem Withheld.append (h : Withheld a d es)
    (hfs : ∀ f, .offer .outbox f true ∈ fs → f.isMessage = true → f.source = a →
      .offer .login d true ∈ es) : Withheld a d (es ++ fs) := by
  intro xs f ys heq hmessage hsource
  rcases List.append_eq_append_iff.1 heq with ⟨bs, rfl, hbs⟩ | ⟨bs, rfl, hbs⟩
  · have hmem : .offer .outbox f true ∈ fs := by rw [hbs]; simp
    exact List.mem_append_left _ (hfs f hmem hmessage hsource)
  · cases bs with
    | nil =>
      have hmem : .offer .outbox f true ∈ fs := by rw [← List.nil_append fs, ← hbs]; simp
      exact List.append_nil xs ▸ hfs f hmem hmessage hsource
    | cons e bs =>
      obtain ⟨rfl, -⟩ := List.cons.inj hbs
      exact h xs f bs rfl hmessage hsource

end History

/-- The definition of the alias of the node. -/
def Node.definition (n : Node) : Frame := .aliasMapDefinition n.aliasId n.id

namespace Interface

variable {streams accepts : Bool} {s t : Interface} {n m : Node} {es fs : List Effect}

/-- The frame of a login that waits for the driver, if it comes from this alias. -/
def pending (s : Interface) (a : Nat) : List Frame :=
  s.loginFrame.toList.filter fun f => f.source = a

theorem pending_of_none (h : s.loginFrame = none) (a : Nat) : s.pending a = [] := by
  rw [pending, h]
  rfl

theorem pending_of_loginFrame (h : t.loginFrame = s.loginFrame) (a : Nat) :
    t.pending a = s.pending a := by
  rw [pending, h, pending]

/-- A turn when no frame of a login waits. -/
theorem logIn_eq (i : Nat) (n : Node) (h : s.loginFrame = none) :
    (s.logIn i n).interface =
        { s with
          nodes := s.nodes.modify i fun _ => (n.logInStep s.resources.aliases).node
          loginFrame := (n.logInStep s.resources.aliases).frame
          resources :=
            { s.resources with aliases := (n.logInStep s.resources.aliases).aliases } } ∧
      shown (s.logIn i n).trace =
        (n.logInStep s.resources.aliases).picked.toList.map fun a => .picked a n.id := by
  have hstep : n.logIn s.resources.aliases s.loginFrame = n.logInStep s.resources.aliases := by
    rw [h, Node.logIn]
  rw [Interface.logIn]
  simp only [locked, hstep]
  refine ⟨trivial, ?_⟩
  cases (n.logInStep s.resources.aliases).picked <;> rfl

/-- Where the login of a node stands, after what has been seen since the node picked its alias. -/
structure Underway (s : Interface) (n : Node) (es : List Effect) : Prop where
  /-- Neither has the node picked again, nor has another picked the alias. -/
  fresh : ∀ a i, .picked a i ∈ es → a ≠ n.aliasId ∧ i ≠ n.id
  frames : loginFrames n.aliasId es ++ s.pending n.aliasId = n.announced
  ended : n.phase = .running → s.pending n.aliasId = []
  withheld : Withheld n.aliasId n.definition es
  clear : .offer .login n.definition true ∈ es ∨ s.Sources (· ≠ n.aliasId)

namespace Underway

/-- What keeps a login underway.  `new` is what the node has done with meanwhile. -/
theorem extend (h : s.Underway n es) (hid : m.id = n.id) (halias : m.aliasId = n.aliasId)
    (hfresh : ∀ a i, .picked a i ∈ fs → a ≠ n.aliasId ∧ i ≠ n.id) (new : List Frame)
    (hdone : m.announced = n.announced ++ new)
    (hframes : loginFrames n.aliasId fs ++ t.pending n.aliasId = s.pending n.aliasId ++ new)
    (hended : m.phase = .running → t.pending n.aliasId = [])
    (hwithheld : ∀ f, .offer .outbox f true ∈ fs → f.isMessage = true → f.source = n.aliasId →
      .offer .login n.definition true ∈ es)
    (hclear : s.Sources (· ≠ n.aliasId) →
      .offer .login n.definition true ∈ es ∨ t.Sources (· ≠ n.aliasId)) :
    t.Underway m (es ++ fs) := by
  have hdef : m.definition = n.definition := by
    rw [Node.definition, Node.definition, hid, halias]
  refine ⟨?_, ?_, ?_, ?_, ?_⟩ <;> simp only [hid, halias, hdef]
  · intro a i hmem
    exact (List.mem_append.1 hmem).elim (h.fresh a i) (hfresh a i)
  · rw [loginFrames_append, List.append_assoc, hframes, ← List.append_assoc, h.frames, hdone]
  · exact hended
  · exact h.withheld.append hwithheld
  -- once the alias is defined, it stays so
  · rcases h.clear with hdefined | hclear'
    · exact .inl (List.mem_append_left _ hdefined)
    · exact (hclear hclear').imp_left (List.mem_append_left _)

/-- Work that the login does not notice. -/
theorem keep (h : s.Underway n es) (hkept : n.Kept m) (hfs : ∀ e ∈ fs, e.counts = false)
    (hpending : t.pending n.aliasId = s.pending n.aliasId)
    (hclear : s.Sources (· ≠ n.aliasId) →
      .offer .login n.definition true ∈ es ∨ t.Sources (· ≠ n.aliasId)) :
    t.Underway m (es ++ fs) := by
  have hnone : loginFrames n.aliasId fs = [] :=
    loginFrames_eq_nil fun f hf => Bool.false_ne_true (hfs _ hf).symm
  refine h.extend hkept.id hkept.aliasId (fun a i hpick => ?_) [] ?_ ?_ ?_ (fun f hf => ?_) hclear
  · cases hfs _ hpick
  · rw [hkept.announced, List.append_nil]
  · rw [hnone, hpending, List.nil_append, List.append_nil]
  · rw [hkept.phase, hpending]
    exact h.ended
  · cases hfs _ hf

/-- A node that may use its alias has defined it, once no frame of its login waits. -/
theorem defined (h : s.Underway n es) (hpending : s.pending n.aliasId = [])
    (hlevel : 2 ≤ n.phase.level) : .offer .login n.definition true ∈ es := by
  have hmem := Node.definition_mem_announced hlevel
  rw [← h.frames, hpending, List.append_nil] at hmem
  exact (mem_loginFrames_iff.1 hmem).1

/-! ### The main loop -/

/-- A frame of the outbox is offered. -/
theorem transmit (h : s.Underway n es) :
    (s.transmit accepts).interface.Underway n (es ++ shown (s.transmit accepts).trace) := by
  have hpending : (s.transmit accepts).interface.pending n.aliasId = s.pending n.aliasId := by
    obtain ⟨x, o, heq⟩ := @transmit_extent accepts s
    rw [heq]
    rfl
  rcases (@transmit_spec accepts s).2 with hnone | ⟨k, f, hf, hshown⟩
  · rw [hnone]
    exact h.keep (.refl n) (by simp) hpending fun hc => .inr hc.transmit
  · rw [hshown]
    cases accepts with
    | false => exact h.keep (.refl n) (by simp [Effect.counts]) hpending fun hc => .inr hc.transmit
    | true =>
      refine h.extend rfl rfl (by simp) [] (List.append_nil _).symm ?_ ?_ ?_ fun hc => .inr hc.transmit
      · rw [hpending, List.append_nil]
        exact List.nil_append _
      · rw [hpending]
        exact h.ended
      -- a frame of a message from the alias waited, so the definition is out already
      · intro g hg hmessage hsource
        obtain rfl : g = f := by simpa using hg
        exact h.clear.resolve_right fun hc => hc.frames k g hf hmessage hsource

/-- The frame of a login is offered. -/
theorem transmitLogin (h : s.Underway n es) :
    (s.transmitLogin accepts).interface.Underway n (es ++ shown (s.transmitLogin accepts).trace) := by
  rw [Interface.transmitLogin]
  split
  · exact h.keep (.refl n) (by simp [shown]) rfl .inr
  · rename_i f hf
    cases accepts with
    | false => exact h.keep (.refl n) (by simp [shown, Effect.shows, Effect.counts]) rfl .inr
    | true =>
      refine h.extend rfl rfl (by simp [shown, Effect.shows]) [] (List.append_nil _).symm ?_
        (fun _ => rfl) (by simp [shown, Effect.shows]) fun hc => .inr ⟨hc.frames, hc.message⟩
      show loginFrames n.aliasId [.offer .login f true, .sent f] ++ [] = _
      rw [loginFrames, pending, hf]
      by_cases hsource : f.source = n.aliasId <;> simp [hsource]

/-- A message is sent.  If its alias has not been defined yet, it is not from this alias. -/
theorem sendMessages (h : s.Underway n es) (hnone : s.loginFrame = none)
    (hperm : ∀ a, s.resources.aliases.isPermitted a = true → a % 0x1000 = n.aliasId →
      2 ≤ n.phase.level) :
    (s.sendMessages streams).interface.Underway n
      (es ++ shown (s.sendMessages streams).trace) := by
  refine h.keep (.refl n) (fun e he => ?_) ?_ fun hc => ?_
  · obtain ⟨k, f, rfl⟩ := shown_sendMessages s e he
    rfl
  · obtain ⟨g, b, ms, q, heq⟩ := @sendMessages_extent streams s
    rw [heq]
    rfl
  -- no frame of a login waits now: all that the node has done with is out
  · by_cases hlevel : 2 ≤ n.phase.level
    · exact .inl (h.defined (pending_of_none hnone _) hlevel)
    · exact .inr (hc.sendMessages fun a ha heq => hlevel (hperm a ha heq))

/-- The node has its turn. -/
theorem logIn {i : Nat} (h : s.Underway n es) (hnone : s.loginFrame = none) (hord : n.Orderly)
    (hpaced : n.Paced) (hvalid : Alias.Valid n.aliasId) :
    (s.logIn i n).interface.Underway (n.logInStep s.resources.aliases).node
      (es ++ (.turn i :: shown (s.logIn i n).trace)) := by
  have hne := Nat.ne_of_gt hvalid.1
  have hsteps := (n.advance s.resources.aliases).continues hord hpaced hne
  obtain ⟨hpick, halias⟩ := (n.advance s.resources.aliases).named hord hne
  obtain ⟨heq, hshown⟩ := logIn_eq i n hnone
  have hpending : (s.logIn i n).interface.pending n.aliasId =
      (n.logInStep s.resources.aliases).frame.toList := by
    rw [heq]
    exact List.filter_eq_self.2 fun f hf => decide_eq_true (hsteps.source hvalid (by simpa using hf))
  rw [hpick] at hshown
  rw [hshown]
  refine h.extend ((n.advance _).id) halias (by simp) _ hsteps.announced ?_ (fun hrun => ?_)
    (by simp) fun hc => .inr ?_
  · rw [hpending, pending_of_none hnone, loginFrames_eq_nil (by simp)]
  · rw [hpending, hsteps.running hrun]
    rfl
  · rw [heq]
    exact ⟨hc.frames, hc.message⟩

end Underway

end Interface

end LayoutBus
