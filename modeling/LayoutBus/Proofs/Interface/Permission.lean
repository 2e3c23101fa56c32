import LayoutBus.Proofs.Interface.Frames
import LayoutBus.Proofs.Interface.Priority
import LayoutBus.Proofs.Interface.Session
import LayoutBus.Proofs.Interface.Standing

/-!
# Permission to send

The source alias of a message is checked when the message is taken to be sent, and its frames go into
the outbox one pass at a time.  Meanwhile another node may use the alias; then the alias is given
up, but the message goes on.

* `Session.Traced` : sessions, with a note whether the source alias of the outgoing message has been
  contested since the message was taken.  They are all sessions that can be reached
  (`Session.reachable_iff_exists_traced`).
* `Session.Traced.segment_permitted_iff` : **permission.**  A frame of a message goes out from a permitted
  alias if and only if the alias has not been contested since the message was taken.

The proof: while a message is on its way, no node has a turn, for the outbox is idle whenever the
message is looked at and so takes the frame (`Outbox.Covered.offer_isSome`).  Hence no alias is taken
into use meanwhile, and one that is given up stays so.
-/

namespace LayoutBus

namespace Interface

variable {streams : Bool} {s : Interface}

/-! ### Frames of messages -/

/-- What `Interface.sendMessages` does: it takes no message into hand, or it goes on with the
outgoing message or with one that it has just taken, which may be sent. -/
theorem sendMessages_cases (streams : Bool) (s : Interface) :
    (s.segmenting = none ∧ (s.sendMessages streams).interface.segmenting = none ∧
      (s.sendMessages streams).Silent) ∨
    ∃ o q, (s.segmenting = some o ∨ s.segmenting = none ∧ s.maySend o.handle = true) ∧
      (s.sendMessages streams).Like
        (continueMessage streams { s with resources := { s.resources with egress := q } } o) := by
  unfold sendMessages
  split
  · rename_i o ho
    exact .inr ⟨o, s.resources.egress, .inl ho, .refl _⟩
  · rename_i hnone
    cases hpop : s.resources.egress.pop with
    | none =>
      rw [popEgress_of_none hpop]
      exact .inl ⟨hnone, hnone, fun h f => by simp⟩
    | some p =>
      obtain ⟨h, q⟩ := p
      rw [popEgress_of_some hpop]
      simp only
      split
      · rename_i hmay
        exact .inr ⟨⟨h, 0, 0⟩, q, .inr ⟨hnone, hmay⟩, rfl, rfl, rfl⟩
      · exact .inl ⟨hnone, hnone, fun h f => by simp [update, locked]⟩

theorem settle_segmenting (s : Interface) (o : Outgoing) (m : Message) :
    (s.settle o m).segmenting = none ∨
      (s.settle o m).segmenting = some o ∧
        (s.settle o m).resources.messages = s.resources.messages := by
  unfold settle
  split
  · exact .inl rfl
  · exact .inr ⟨rfl, rfl⟩

theorem aliases_continueMessage (s : Interface) (o : Outgoing) :
    (s.continueMessage streams o).interface.resources.aliases = s.resources.aliases := by
  obtain ⟨g, b, ms, heq⟩ := @continueMessage_extent streams s o
  rw [heq]

theorem maySend_iff {h : Handle} (hp : s.resources.aliases.Proper) :
    s.maySend h = true ↔
      ∃ m, s.message? h = some m ∧ s.resources.aliases.Uses m.header.source := by
  unfold maySend
  rw [Option.any_eq_true]
  simp only [hp.isPermitted_iff]
  rfl

/-- An idle outbox takes the next frame of a message, so that nodes have to wait for their turn. -/
theorem continueMessage_value (streams : Bool) {o : Outgoing} {m : Message}
    {q : Queue Handle Limits.messageDepth} (hc : s.Covered) (hidle : s.Idle)
    (hm : s.message? o.handle = some m) :
    (continueMessage streams { s with resources := { s.resources with egress := q } } o).value =
      true := by
  obtain ⟨ht, hq⟩ := hidle
  unfold Covered at hc
  rw [ht] at hc
  obtain ⟨b, o', -, -, ⟨-, -, hroom⟩ | ⟨f, n, -, -, hv, -⟩⟩ := @continueMessage_cases streams
    { s with resources := { s.resources with egress := q } } o m hm
  · rw [← Bool.not_eq_false]
    intro hv
    obtain ⟨f, n, -, hfull⟩ := hroom hv
    obtain ⟨b, hb⟩ := hc.offer_isSome hq f
    cases hfull.symm.trans hb
  · exact hv

/-- Turns of nodes leave the outgoing message alone. -/
theorem turns_segmenting (o : Outcome Bool) :
    ((o.orElse firstTurn).orElse nextTurn).interface.segmenting = o.interface.segmenting := by
  let R : Interface → List Effect → Interface → Prop := fun s _ t => t.segmenting = s.segmenting
  have comp : ∀ {s t u es fs}, R s es t → R t fs u → R s (es ++ fs) u :=
    fun hst htu => Eq.trans htu hst
  have hturn : ∀ s i, R s (s.takeTurn i).trace (s.takeTurn i).interface := by
    intro s i
    show (s.takeTurn i).interface.segmenting = s.segmenting
    unfold takeTurn
    split
    · rfl
    · split <;> rfl
  have hfirst := firstTurn_rel (R := R) @comp (fun _ _ _ => rfl) hturn
  have hnext := nextTurn_rel (R := R) @comp (fun _ _ _ => rfl) hturn
  have ho : R o.interface o.trace o.interface := rfl
  exact orElse_rel (R := R) @comp (orElse_rel (R := R) @comp ho hfirst) hnext

end Interface

theorem Message.source_of_next {streams : Bool} {m : Message} {cursor n : Nat} {f : Frame}
    (h : m.next streams cursor = .frame f n) : f.source = m.header.source % 0x1000 := by
  unfold next segment at h
  split at h
  case h_5 =>
    split at h
    · cases h; exact Frame.source_pack _
    · cases h
  all_goals cases h; exact Frame.source_pack _

namespace Session

variable {streams : Bool} {σ : Session} {was : Bool} {req : Request}

/-! ### Contested messages -/

/-- The source alias of the outgoing message. -/
def outgoingSource? (σ : Session) : Option Nat :=
  (σ.interface.segmenting.bind fun o => σ.interface.message? o.handle).map fun m => m.header.source

/-- The frame is a control frame of another node with the source alias of the outgoing message. -/
def isContestedBy (σ : Session) (f : Frame) : Bool :=
  match f.kind with
  | .control _ => σ.outgoingSource? == some f.source
  | _ => false

/-- Whether the source alias of the outgoing message has been contested since the message was
taken, after a request. -/
def contestedAfter (streams : Bool) (σ : Session) (was : Bool) : Request → Bool
  | .receive f => was || σ.isContestedBy f
  | .run accepts => was && (σ.interface.run streams accepts).interface.segmenting.isSome
  | _ => was

/-- Sessions of an application that respects ownership, with a note whether the source alias of
the outgoing message has been contested since the message was taken. -/
inductive Traced (streams : Bool) : Session → Bool → Prop where
  | start : Traced streams (start streams) false
  | step {σ : Session} {was : Bool} {req : Request} :
      Traced streams σ was → σ.Permits req →
        Traced streams (σ.step streams req) (σ.contestedAfter streams was req)

/-- What is true all along: the source alias of the outgoing message stands as the note says. -/
structure Guarded (streams : Bool) (σ : Session) (was : Bool) : Prop where
  sound : σ.Sound streams
  marked : σ.interface.Marked
  covered : σ.interface.Covered
  idle : σ.interface.segmenting = none → was = false
  standing : ∀ o, σ.interface.segmenting = some o → ∃ m, σ.interface.message? o.handle = some m ∧
    σ.interface.resources.aliases.Standing m.header.source was

namespace Guarded

theorem start (streams : Bool) : (start streams).Guarded streams false where
  sound := Interface.sound_empty streams
  marked := ⟨AliasTable.proper_empty, fun _ ⟨_, hm, _⟩ => absurd hm List.not_mem_nil⟩
  covered := Outbox.covered_empty
  idle _ := rfl
  standing o ho := by cases ho

/-- Work that leaves the outgoing message alone. -/
theorem of_same {τ : Session} {was' : Bool} (h : σ.Guarded streams was)
    (hsound : τ.Sound streams) (hm : τ.interface.Marked) (hc : τ.interface.Covered)
    (hseg : τ.interface.segmenting = σ.interface.segmenting)
    (hmsg : ∀ h ∈ σ.interface.outgoing, τ.interface.message? h = σ.interface.message? h)
    (hidle : σ.interface.segmenting = none → was' = was)
    (hstand : ∀ o m, σ.interface.segmenting = some o → σ.interface.message? o.handle = some m →
      σ.interface.resources.aliases.Standing m.header.source was →
        τ.interface.resources.aliases.Standing m.header.source was') : τ.Guarded streams was' where
  sound := hsound
  marked := hm
  covered := hc
  idle hnone := by
    rw [hseg] at hnone
    exact (hidle hnone).trans (h.idle hnone)
  standing o ho := by
    rw [hseg] at ho
    obtain ⟨m, hget, hs⟩ := h.standing o ho
    refine ⟨m, (hmsg o.handle ?_).trans hget, hstand o m ho hget hs⟩
    unfold Interface.outgoing
    rw [ho]
    exact List.mem_singleton_self _

theorem receive (h : σ.Guarded streams was) (f : Frame) :
    (σ.step streams (.receive f)).Guarded streams (σ.contestedAfter streams was (.receive f)) := by
  have hal := Resources.aliases_receive streams σ.interface.resources f
  have hrec := step_receive h.sound f
  refine h.of_same (h.sound.step trivial) (Interface.perform_marked h.marked _)
    (Interface.perform_covered h.covered _) rfl
    (fun k hk => hrec.messages k (.inl (List.mem_append_right _ ?_))) (fun hnone => ?_)
    fun o m ho hm hs => ?_
  · exact List.mem_append_left _ (List.mem_append_left _ hk)
  · unfold contestedAfter isContestedBy outgoingSource?
    rw [hnone]
    simp only [Option.bind_none, Option.map_none]
    split <;> simp
  · show (σ.interface.resources.receive streams f).aliases.Standing _ _
    rw [hal]
    unfold contestedAfter isContestedBy outgoingSource?
    rw [ho]
    simp only [Option.bind_some, hm, Option.map_some, Option.some_beq_some]
    cases f.kind with
    | control k => exact hs.noteConflict h.marked.1 f.source
    | checkId number | unknownControl field | message t =>
      simp only [Bool.or_false]
      exact hs

/-- A step of which the aliases and the outgoing message are no concern. -/
theorem steady {τ : Session} {was' : Bool} (h : σ.Guarded streams was)
    (hst : Interface.Steady streams σ.interface τ.interface τ.held)
    (ha : τ.interface.resources.aliases = σ.interface.resources.aliases)
    (hc : τ.interface.Covered) (hwas : was' = was) : τ.Guarded streams was' := by
  subst hwas
  refine h.of_same hst.sound ?_ hc hst.segmenting hst.message (fun _ => rfl) fun _ _ _ _ hs => ?_
  · unfold Interface.Marked
    rw [ha]
    exact h.marked
  · rw [ha]
    exact hs

/-- The note of a pass that leaves the outgoing message where it is. -/
theorem and_isSome (h : σ.Guarded streams was) {x : Option Outgoing}
    (hx : x = σ.interface.segmenting) : (was && x.isSome) = was := by
  subst hx
  cases hs : σ.interface.segmenting with
  | none => rw [h.idle hs]; rfl
  | some o => exact Bool.and_true was

/-- The source alias of the message that the main loop goes on with, which is the outgoing message
or one that may be sent, stands as the note says. -/
theorem standing_of_next {o : Outgoing} (h : σ.Guarded streams was)
    (hflag : σ.interface.resources.aliases.hasDuplicate = false)
    (hnext : σ.interface.segmenting = some o ∨
      σ.interface.segmenting = none ∧ σ.interface.maySend o.handle = true) :
    ∃ m, σ.interface.message? o.handle = some m ∧
      σ.interface.resources.aliases.Standing m.header.source was := by
  rcases hnext with ho | ⟨hnone, hmay⟩
  · exact h.standing o ho
  · obtain ⟨m, hm, hu⟩ := (Interface.maySend_iff h.marked.1).1 hmay
    rw [h.idle hnone]
    refine ⟨m, hm, ?_, hu, fun hd => ?_⟩
    · obtain ⟨x, hx, ha, -⟩ := hu
      exact ha ▸ h.marked.1.valid x hx
    · rw [h.marked.2 _ hd] at hflag
      cases hflag

/-- What a pass of the main loop does to the outgoing message: it leaves the message where it is, or
there is none afterwards, or it goes on with a message whose source alias stands as the note
says. -/
theorem pass (h : σ.Guarded streams was) (accepts : Bool) :
    ((σ.interface.run streams accepts).Silent ∧
      Interface.Steady streams σ.interface (σ.interface.run streams accepts).interface σ.held ∧
      ∀ a, σ.interface.resources.aliases.Standing a was →
        (σ.interface.run streams accepts).interface.resources.aliases.Standing a was) ∨
    ((σ.interface.run streams accepts).Silent ∧
      (σ.interface.run streams accepts).interface.segmenting = none) ∨
    ∃ o q m, σ.interface.message? o.handle = some m ∧
      σ.interface.resources.aliases.hasDuplicate = false ∧
      σ.interface.resources.aliases.Standing m.header.source was ∧
      (σ.interface.run streams accepts).Like
        (Interface.continueMessage streams
          { σ.interface with resources := { σ.interface.resources with egress := q } } o) := by
  rcases Interface.run_cases streams accepts (fun hd => h.marked.2.nextDuplicate? hd) with
    ⟨-, hlike⟩ | ⟨hflag, ⟨-, hlike⟩ | ⟨-, -, hlike⟩ | ⟨hidle, -, hlike⟩⟩
  · left
    refine ⟨hlike.silent (Interface.resolveConflicts_silent _), ?_, fun a hs => ?_⟩ <;>
      rw [hlike.interface]
    · exact Interface.resolveConflicts_steady h.sound
    · exact Interface.giveUpAll_standing _ h.marked.1 hs
  · left
    refine ⟨hlike.silent (Interface.transmit_silent _), ?_, fun a hs => ?_⟩ <;>
      rw [hlike.interface]
    · exact Interface.transmit_steady h.sound
    · obtain ⟨x, o, heq⟩ := @Interface.transmit_extent accepts σ.interface
      rw [heq]
      exact hs
  · left
    refine ⟨hlike.silent (Interface.transmitLogin_silent _), ?_, fun a hs => ?_⟩ <;>
      rw [hlike.interface]
    · exact Interface.transmitLogin_steady h.sound
    · unfold Interface.transmitLogin
      split
      · exact hs
      · split <;> exact hs
  · right
    rcases Interface.sendMessages_cases streams σ.interface with
      ⟨-, hnone, hsilent⟩ | ⟨o, q, hwhich, hsend⟩
    · left
      refine ⟨hlike.silent ?_, ?_⟩
      · exact (hsilent.orElse Interface.firstTurn_silent).orElse Interface.nextTurn_silent
      · rw [hlike.interface, Interface.turns_segmenting, hnone]
    · right
      obtain ⟨m, hm, hs⟩ := h.standing_of_next hflag hwhich
      -- the frame finds room, so that nobody has a turn in this pass
      have hv := (hsend.value).trans (Interface.continueMessage_value streams (q := q) h.covered hidle hm)
      rw [Outcome.orElse_of_true hv, Outcome.orElse_of_true hv] at hlike
      exact ⟨o, q, m, hm, hflag, hs, hlike.trans hsend⟩

theorem run (h : σ.Guarded streams was) (accepts : Bool) :
    (σ.step streams (.run accepts)).Guarded streams
      (σ.contestedAfter streams was (.run accepts)) := by
  have hsound : (σ.step streams (.run accepts)).Sound streams := h.sound.step trivial
  have hmarked : (σ.interface.run streams accepts).interface.Marked :=
    Interface.perform_marked h.marked (.run accepts)
  have hcovered : (σ.interface.run streams accepts).interface.Covered :=
    Interface.perform_covered h.covered (.run accepts)
  -- the outgoing message has gone
  have gone (hnone : (σ.interface.run streams accepts).interface.segmenting = none) :
      (σ.step streams (.run accepts)).Guarded streams
        (σ.contestedAfter streams was (.run accepts)) := by
    refine ⟨hsound, hmarked, hcovered, fun _ => ?_, fun o ho => ?_⟩
    · simp [contestedAfter, hnone]
    · cases hnone.symm.trans ho
  rcases h.pass accepts with ⟨-, hst, hstand⟩ | ⟨-, hnone⟩ | ⟨o, q, m, hm, -, hs, hlike⟩
  · have hwas : σ.contestedAfter streams was (.run accepts) = was := h.and_isSome hst.segmenting
    rw [hwas]
    exact h.of_same hsound hmarked hcovered hst.segmenting hst.message (fun _ => rfl)
      fun _ _ _ _ hs => hstand _ hs
  · exact gone hnone
  · obtain ⟨b, o', heq, hh, -⟩ := @Interface.continueMessage_cases streams
      { σ.interface with resources := { σ.interface.resources with egress := q } } o m hm
    have hall := hlike.interface.trans heq
    rcases Interface.settle_segmenting
        { σ.interface with resources := { σ.interface.resources with egress := q, outbox := b } }
        o' m with hnone | ⟨hsome, hmessages⟩
    · exact gone (hall ▸ hnone)
    · have hseg := (congrArg Interface.segmenting hall).trans hsome
      have hwas : σ.contestedAfter streams was (.run accepts) = was := by
        show (was && (σ.interface.run streams accepts).interface.segmenting.isSome) = was
        rw [hseg]
        exact Bool.and_true was
      have hal : (σ.interface.run streams accepts).interface.resources.aliases =
          σ.interface.resources.aliases := by
        rw [hlike.interface]
        exact Interface.aliases_continueMessage _ o
      rw [hwas]
      refine ⟨hsound, hmarked, hcovered, fun hnone => ?_, fun o'' ho => ⟨m, ?_, ?_⟩⟩
      · cases hseg.symm.trans hnone
      · obtain rfl : o' = o'' := Option.some.inj (hseg.symm.trans ho)
        show (σ.interface.run streams accepts).interface.resources.messages.get? o'.handle = some m
        rw [hall, hmessages, hh]
        exact hm
      · show (σ.interface.run streams accepts).interface.resources.aliases.Standing _ _
        rw [hal]
        exact hs

theorem tick (h : σ.Guarded streams was) : (σ.step streams .tick).Guarded streams was := by
  have hage := step_tick h.sound
  have hal : (σ.step streams .tick).interface.resources.aliases =
      σ.interface.resources.aliases := σ.interface.resources.age_outside.aliases
  refine h.of_same (h.sound.step trivial) (Interface.perform_marked h.marked _)
    (Interface.perform_covered h.covered _) rfl
    (fun k hk => hage.others k (Ledger.not_listed h.sound ?_)) (fun _ => rfl) fun o m _ _ hs => ?_
  · exact List.mem_append_right _ (List.mem_append_left _ (List.mem_append_left _ hk))
  · rw [hal]
    exact hs

theorem step (h : σ.Guarded streams was) (hp : σ.Permits req) :
    (σ.step streams req).Guarded streams (σ.contestedAfter streams was req) := by
  by_cases hrec : ∃ f, req = .receive f
  · obtain ⟨f, rfl⟩ := hrec
    exact h.receive f
  · by_cases hrun : ∃ accepts, req = .run accepts
    · obtain ⟨accepts, rfl⟩ := hrun
      exact h.run accepts
    · have hrec' : ∀ f, req ≠ .receive f := fun f heq => hrec ⟨f, heq⟩
      have hrun' : ∀ accepts, req ≠ .run accepts := fun accepts heq => hrun ⟨accepts, heq⟩
      have hwas : σ.contestedAfter streams was req = was := by
        unfold contestedAfter
        split
        · exact absurd rfl (hrec' _)
        · exact absurd rfl (hrun' _)
        · rfl
      by_cases htick : req = .tick
      · subst htick
        exact h.tick
      · exact h.steady (step_steady h.sound hp hrec' htick hrun')
          (σ.interface.perform_aside hrec' hrun').1 (Interface.perform_covered h.covered _) hwas

end Guarded

theorem Traced.guarded (h : σ.Traced streams was) : σ.Guarded streams was := by
  induction h with
  | start => exact .start streams
  | step _ hp ih => exact ih.step hp

theorem Traced.reachable (h : σ.Traced streams was) : σ.Reachable streams := by
  induction h with
  | start => exact .start
  | step _ hp ih => exact ih.step hp

theorem Reachable.exists_traced (h : σ.Reachable streams) : ∃ was, σ.Traced streams was := by
  induction h with
  | start => exact ⟨false, .start⟩
  | step _ hp ih =>
    obtain ⟨was, ih⟩ := ih
    exact ⟨_, ih.step hp⟩

/-- The note can be kept along every session. -/
theorem reachable_iff_exists_traced : σ.Reachable streams ↔ ∃ was, σ.Traced streams was :=
  ⟨Reachable.exists_traced, fun ⟨_, h⟩ => h.reachable⟩

/-- **Permission.** Whenever a pass of the main loop puts a frame of a message into the outbox, the
source alias of the frame is permitted if and only if it has not been contested since the message
was taken.  In particular the first frame of a message goes out from a permitted alias. -/
theorem Traced.segment_permitted_iff (ht : σ.Traced streams was) {accepts : Bool} {h : Handle} {f : Frame}
    (hseg : .segment h f ∈ (σ.interface.run streams accepts).trace) :
    (σ.interface.run streams accepts).interface.resources.aliases.isPermitted f.source = true ↔
      was = false := by
  have hg := ht.guarded
  rcases hg.pass accepts with ⟨hsilent, -⟩ | ⟨hsilent, -⟩ | ⟨o, q, m, hm, hflag, ⟨hvalid, hs⟩, hlike⟩
  · exact absurd hseg (hsilent h f)
  · exact absurd hseg (hsilent h f)
  · have hmem := (hlike.segments h f).1 hseg
    have hal : (σ.interface.run streams accepts).interface.resources.aliases =
        σ.interface.resources.aliases := by
      rw [hlike.interface]
      exact Interface.aliases_continueMessage _ o
    obtain ⟨b, o', -, -, ⟨-, hsilent, -⟩ | ⟨g, n, hnext, -, -, hone⟩⟩ :=
      @Interface.continueMessage_cases streams
        { σ.interface with resources := { σ.interface.resources with egress := q } } o m hm
    · exact absurd hmem (hsilent h f)
    · obtain ⟨-, rfl⟩ := (hone h f).1 hmem
      have hsource : f.source = m.header.source := by
        rw [Message.source_of_next hnext]
        exact Nat.mod_eq_of_lt (Nat.lt_succ_of_le hvalid.2)
      rw [hal, hsource, hg.marked.1.isPermitted_iff]
      cases was with
      | false => exact iff_of_true hs.1 rfl
      | true =>
        -- every mark has been resolved, so the alias has been given up
        refine iff_of_false (fun hu => ?_) (by decide)
        rw [hg.marked.2 _ (hs hu)] at hflag
        cases hflag

/-- The note after a list of requests. -/
def contestedAlong (streams : Bool) (σ : Session) (was : Bool) : List Request → Bool
  | [] => was
  | req :: reqs =>
    (σ.step streams req).contestedAlong streams (σ.contestedAfter streams was req) reqs

theorem Traced.after {reqs : List Request} (h : σ.Traced streams was)
    (ha : σ.Allows streams reqs) :
    (σ.after streams reqs).Traced streams (σ.contestedAlong streams was reqs) := by
  induction reqs generalizing σ was with
  | nil => exact h
  | cons req reqs ih => exact ih (h.step ha.1) ha.2

/-- A node logs in and sends a datagram of three frames; when the first is on its way, another node
takes the alias into use, and the alias is given up. -/
def takeover : List Request :=
  [.register 1 (.ofSupport 0)] ++ List.replicate 20 (.run true) ++ List.replicate 3 .tick ++
    List.replicate 12 (.run true) ++
    [.send 0 Mti.datagram 0x123 (List.replicate 20 7), .run true,
      .receive (.aliasMapDefinition 1 0x0A0B0C0D0E0F)] ++ List.replicate 3 (.run true)

/-- The second frame of the datagram. -/
def lateFrame : Frame :=
  .messageData .datagramMiddle 0x123 1 (List.replicate 8 7) (by decide)

theorem allows_takeover : (start false).Allows false takeover := by
  refine allows_of_forall fun req hreq σ => ?_
  simp only [takeover, List.mem_append, List.mem_replicate, List.mem_cons, List.not_mem_nil,
    or_false] at hreq
  rcases hreq with ((((rfl | ⟨-, rfl⟩) | ⟨-, rfl⟩) | ⟨-, rfl⟩) | rfl | rfl | rfl) | ⟨-, rfl⟩ <;>
    trivial

theorem lateFrame_mem : .segment ⟨.datagram, 0⟩ lateFrame ∈
    (((start false).after false takeover).interface.run false true).trace := by
  decide +kernel

theorem segment_permitted_iff_takeover :
    ((start false).after false takeover).Traced false true ∧
      .segment ⟨.datagram, 0⟩ lateFrame ∈
        (((start false).after false takeover).interface.run false true).trace ∧
      ((((start false).after false takeover).interface.run false
        true).interface.resources.aliases.isPermitted lateFrame.source = true ↔ true = false) := by
  have hnote : (start false).contestedAlong false false takeover = true := by decide +kernel
  have ht := Traced.start.after allows_takeover
  rw [hnote] at ht
  exact ⟨ht, lateFrame_mem, ht.segment_permitted_iff lateFrame_mem⟩

/-- So it is not true that frames of messages go out from permitted aliases only. -/
theorem segment_from_lost_alias :
    ¬ ∀ (σ : Session) (accepts : Bool) (h : Handle) (f : Frame), σ.Reachable false →
      .segment h f ∈ (σ.interface.run false accepts).trace →
        (σ.interface.run false accepts).interface.resources.aliases.isPermitted f.source = true := by
  intro hall
  have hlost := hall _ true _ _ (Reachable.start.after allows_takeover) lateFrame_mem
  have hnot : (((start false).after false takeover).interface.run false
      true).interface.resources.aliases.isPermitted lateFrame.source = false := by decide +kernel
  rw [hnot] at hlost
  cases hlost

end Session

end LayoutBus
