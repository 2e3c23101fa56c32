import LayoutBus.Proofs.Interface.Permission

/-!
# Where frames of messages come from

A frame of a message waits in the outbox, or its message is on its way.  Only the main loop starts a
message, and only one whose source alias is permitted.

* `Interface.Sources` : a fact about the source aliases of all these frames.
* `Interface.Sources.transmit`, `Interface.Sources.sendMessages` and `Session.sources_step` : it
  stays true as long as it is true of permitted aliases.
* `Interface.sources_of_idle` : it is true when nothing is on its way.
-/

namespace LayoutBus

namespace Interface

variable {streams accepts : Bool} {s t : Interface} {P : Nat → Prop}

/-- `P` is true of the source aliases of the frames of messages that wait and of the message on its
way. -/
structure Sources (s : Interface) (P : Nat → Prop) : Prop where
  frames : ∀ h f, s.resources.outbox.frame? h = some f → f.isMessage = true → P f.source
  message : ∀ o m, s.segmenting = some o → s.message? o.handle = some m →
    P (m.header.source % 0x1000)

theorem sources_of_idle (hc : s.Covered) (hidle : s.Idle) (hseg : s.segmenting = none) :
    s.Sources P where
  frames h f hf := by
    rw [Covered] at hc
    have hmem := hc.covered h (by rw [hf]; rfl)
    rw [hidle.1, hidle.2] at hmem
    cases hmem
  message o m ho := by
    rw [hseg] at ho
    cases ho

/-- No frame of a message came in, and the message on its way is the same. -/
theorem Sources.of_same (h : s.Sources P)
    (hframes : ∀ k g, t.resources.outbox.frame? k = some g →
      g.isMessage = false ∨ s.resources.outbox.frame? k = some g)
    (hseg : t.segmenting = s.segmenting)
    (hmsg : ∀ k ∈ s.outgoing, t.message? k = s.message? k) : t.Sources P where
  frames k g hg hmessage := by
    rcases hframes k g hg with hcontrol | hold
    · rw [hcontrol] at hmessage
      cases hmessage
    · exact h.frames k g hold hmessage
  message o m ho hm := by
    rw [hseg] at ho
    refine h.message o m ho ((hmsg o.handle ?_).symm.trans hm)
    rw [outgoing, ho]
    exact List.mem_singleton_self _

/-! ### The main loop -/

theorem frame?_fetch (s : Interface) (k : FrameHandle) :
    s.fetch.interface.resources.outbox.frame? k = s.resources.outbox.frame? k := by
  rw [fetch]
  split
  · rfl
  · simp only [locked]
    split
    · rename_i hp
      exact Outbox.frame?_pop hp k
    · rfl

theorem shown_fetch (s : Interface) : shown s.fetch.trace = [] := by
  rw [fetch]
  split
  · rfl
  · simp only [locked]
    split <;> rfl

/-- A frame of the outbox is offered, and gone if it is accepted. -/
theorem transmit_spec (s : Interface) :
    (∀ k g, (s.transmit accepts).interface.resources.outbox.frame? k = some g →
      s.resources.outbox.frame? k = some g) ∧
    (shown (s.transmit accepts).trace = [] ∨
      ∃ h f, s.resources.outbox.frame? h = some f ∧
        shown (s.transmit accepts).trace =
          if accepts then [.offer .outbox f true, .sent f] else [.offer .outbox f false]) := by
  have hfetch := s.frame?_fetch
  have hshown := s.shown_fetch
  rw [transmit]
  simp only
  split
  · exact ⟨fun k g hg => (hfetch k).symm.trans hg, .inl hshown⟩
  · rename_i h _
    simp only [shown_append, hshown, List.nil_append]
    rw [offer]
    cases hf : s.fetch.interface.resources.outbox.frame? h with
    | none => exact ⟨fun k g hg => (hfetch k).symm.trans hg, .inl rfl⟩
    | some f =>
      have hold : s.resources.outbox.frame? h = some f := (hfetch h).symm.trans hf
      cases accepts with
      | false => exact ⟨fun k g hg => (hfetch k).symm.trans hg, .inr ⟨h, f, hold, rfl⟩⟩
      | true =>
        refine ⟨fun k g hg => ?_, .inr ⟨h, f, hold, rfl⟩⟩
        have hfree := Outbox.frame?_free (o := s.fetch.interface.resources.outbox) (h := h) k
        have hg' := hfree.symm.trans hg
        split at hg'
        · cases hg'
        · exact (hfetch k).symm.trans hg'

theorem Sources.transmit (h : s.Sources P) : (s.transmit accepts).interface.Sources P := by
  have hspec := (@transmit_spec accepts s).1
  obtain ⟨x, o, heq⟩ := @transmit_extent accepts s
  rw [heq] at hspec ⊢
  exact h.of_same (fun k g hg => .inr (hspec k g hg)) rfl fun _ _ => rfl

theorem Sources.continueMessage {o : Outgoing} {m : Message} (h : s.Sources P)
    (hm : s.message? o.handle = some m) (hp : P (m.header.source % 0x1000)) :
    (s.continueMessage streams o).interface.Sources P := by
  obtain ⟨b, o', heq, hh, hb⟩ := @continueMessage_cases streams s o m hm
  have hframes : ∀ k g, b.frame? k = some g → g.isMessage = true → P g.source := by
    intro k g hg hmessage
    rcases hb with ⟨rfl, -⟩ | ⟨f, n, hnext, hoffer, -⟩
    · exact h.frames k g hg hmessage
    · rcases Outbox.frame?_of_offer hoffer hg with rfl | hold
      · rw [Message.source_of_next hnext]
        exact hp
      · exact h.frames k g hold hmessage
  rw [heq]
  rw [settle]
  split
  · exact ⟨hframes, fun o'' m' ho => by cases ho⟩
  · refine ⟨hframes, fun o'' m' ho hm' => ?_⟩
    obtain rfl : o' = o'' := Option.some.inj ho
    have hm'' : s.message? o'.handle = some m' := hm'
    rw [hh, hm] at hm''
    exact Option.some.inj hm'' ▸ hp

/-- A message that is started comes from a permitted alias. -/
theorem Sources.sendMessages (h : s.Sources P)
    (hp : ∀ a, s.resources.aliases.isPermitted a = true → P (a % 0x1000)) :
    (s.sendMessages streams).interface.Sources P := by
  rw [Interface.sendMessages]
  split
  · rename_i o ho
    cases hm : s.message? o.handle with
    | none =>
      have hnone : s.resources.messages.get? o.handle = none := hm
      rw [Interface.continueMessage, hnone]
      exact ⟨h.frames, fun o' m' ho' => by cases ho'⟩
    | some m => exact h.continueMessage hm (h.message o m ho hm)
  · rename_i hseg
    cases hpop : s.resources.egress.pop with
    | none =>
      rw [popEgress_of_none hpop]
      exact h
    | some p =>
      obtain ⟨k, q⟩ := p
      rw [popEgress_of_some hpop]
      simp only
      have hq : Sources { s with resources := { s.resources with egress := q } } P :=
        ⟨h.frames, h.message⟩
      split
      -- this is where permission is asked for; what is underway goes on without
      · rename_i hmay
        obtain ⟨m, hm, hperm⟩ := (Option.any_eq_true _ _).1 hmay
        exact hq.continueMessage (o := ⟨k, 0, 0⟩) hm (hp _ hperm)
      · refine ⟨h.frames, fun o m ho => ?_⟩
        have hnone : s.segmenting = some o := ho
        rw [hseg] at hnone
        cases hnone

theorem shown_continueMessage (s : Interface) (o : Outgoing) :
    ∀ e ∈ shown (s.continueMessage streams o).trace, ∃ h f, e = .segment h f := by
  rw [continueMessage]
  split
  · simp [shown]
  · simp only [locked, segment]
    split
    · simp [shown, Effect.shows]
    · split <;> simp [shown, Effect.shows]

/-- Of a message that is sent, only the frames that go into the outbox can be seen. -/
theorem shown_sendMessages (s : Interface) :
    ∀ e ∈ shown (s.sendMessages streams).trace, ∃ h f, e = .segment h f := by
  rw [sendMessages]
  split
  · exact shown_continueMessage s _
  · cases hpop : s.resources.egress.pop with
    | none =>
      rw [popEgress_of_none hpop]
      simp [shown, Effect.shows]
    | some p =>
      obtain ⟨k, q⟩ := p
      rw [popEgress_of_some hpop]
      simp only
      split
      · intro e he
        rw [shown_append] at he
        exact shown_continueMessage _ _ e he
      · simp [shown, Effect.shows, update, locked]

end Interface

/-! ### Requests -/

namespace Session

variable {streams : Bool} {σ : Session} {req : Request} {P : Nat → Prop}

/-- Nothing but a pass of the main loop touches the message on its way. -/
theorem message_step (hs : σ.Sound streams) (hp : σ.Permits req)
    (hrun : ∀ accepts, req ≠ .run accepts) :
    (σ.step streams req).interface.segmenting = σ.interface.segmenting ∧
      ∀ k ∈ σ.interface.outgoing,
        (σ.step streams req).interface.message? k = σ.interface.message? k := by
  by_cases hrec : ∃ f, req = .receive f
  · obtain ⟨f, rfl⟩ := hrec
    refine ⟨rfl, fun k hk => (step_receive hs f).messages k (.inl (List.mem_append_right _ ?_))⟩
    exact List.mem_append_left _ (List.mem_append_left _ hk)
  · by_cases htick : req = .tick
    · subst htick
      refine ⟨rfl, fun k hk => (step_tick hs).others k (Ledger.not_listed hs ?_)⟩
      exact List.mem_append_right _ (List.mem_append_left _ (List.mem_append_left _ hk))
    · have hsteady := step_steady hs hp (fun f heq => hrec ⟨f, heq⟩) htick hrun
      exact ⟨hsteady.segmenting, hsteady.message⟩

/-- Nothing but a pass of the main loop puts a frame of a message into the outbox. -/
theorem sources_step (h : σ.interface.Sources P) (hs : σ.Sound streams) (hp : σ.Permits req)
    (hrun : ∀ accepts, req ≠ .run accepts) : (σ.step streams req).interface.Sources P := by
  obtain ⟨hseg, hmsg⟩ := message_step hs hp hrun
  refine h.of_same (fun k g hg => ?_) hseg hmsg
  by_cases hrec : ∃ f, req = .receive f
  · obtain ⟨f, rfl⟩ := hrec
    have hg' : (σ.interface.resources.receive streams f).outbox.frame? k = some g := hg
    rw [Resources.outbox_receive] at hg'
    exact (Outbox.frame?_of_postAll hg').imp_left Resources.isMessage_answers
  · obtain ⟨-, -, -, houtbox⟩ := @Interface.perform_aside streams σ.interface req
      (fun f heq => hrec ⟨f, heq⟩) hrun
    have hg' : (σ.interface.perform streams req).interface.resources.outbox.frame? k = some g := hg
    rcases houtbox with heq | heq <;> rw [heq] at hg'
    · exact .inr hg'
    · exact .inr hg'

end Session

end LayoutBus
