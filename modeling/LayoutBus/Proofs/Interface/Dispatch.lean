import LayoutBus.Proofs.Interface.Egress
import LayoutBus.Proofs.Interface.Mail
import LayoutBus.Proofs.Interface.Pass

/-!
# Dispatch

The messages that are pushed to be sent are taken one by one, in the order in which they were
pushed.  One whose source alias is not permitted then is dropped; the frames of another go into the
outbox over many passes, while frames come in, nodes log in and more messages are pushed.

* `Interface.Stored` : the messages that are not gone rest in buffers of their own.
* `Interface.Progress` : which frames are in the outbox.
* `Interface.Dispatching` : both, and what carries them through a step
  (`Interface.Dispatching.step`).
* `Interface.Mailed.dispatches` : **dispatch.**  The frames in the outbox are those of the messages,
  in order and unmixed, and every buffer holds its message until the step that frees it.

A step adds messages at the end of the list of pushed messages, or moves the border between two of
its parts.
-/

namespace LayoutBus

namespace Interface

variable {streams accepts : Bool} {s t : Interface} {p : Parcel} {k : Nat} {req : Request}

/-! ### Buffers -/

/-- The messages that are not gone rest in buffers of their own, which they fit. -/
structure Stored (s : Interface) (d : Dispatch) : Prop where
  queue : s.resources.egress.toList = d.waiting.map Parcel.handle
  rests : ∀ p ∈ d.left, s.Rests p.handle p.message
  fits : ∀ p ∈ d.left, p.message.header.count ≤ p.message.capacity
  nodup : (d.left.map Parcel.handle).Nodup

namespace Stored

variable {gone gone' : List (Parcel × Bool)} {waiting new : List Parcel} {d : Dispatch}
  {q : Queue Handle Limits.messageDepth}

/-- The messages stay where they are, and new ones come to the back of the queue. -/
theorem push (h : s.Stored d)
    (hqueue : t.resources.egress.toList = s.resources.egress.toList ++ new.map Parcel.handle)
    (hrests : ∀ p ∈ d.left ++ new, t.Rests p.handle p.message)
    (hfits : ∀ p ∈ new, p.message.header.count ≤ p.message.capacity)
    (hnodup : ((d.left ++ new).map Parcel.handle).Nodup) :
    t.Stored { d with waiting := d.waiting ++ new } where
  queue := by rw [hqueue, h.queue, List.map_append]
  rests := by
    rw [Dispatch.left, ← List.append_assoc]
    exact hrests
  fits p hp := by
    rw [Dispatch.left, ← List.append_assoc] at hp
    exact (List.mem_append.1 hp).elim (h.fits p) (hfits p)
  nodup := by
    rw [Dispatch.left, ← List.append_assoc]
    exact hnodup

/-- The message at the front of the queue is taken. -/
theorem pop (h : s.Stored ⟨gone, none, p :: waiting⟩) (hq : q.toList = waiting.map Parcel.handle) :
    Stored { s with resources := { s.resources with egress := q } } ⟨gone, some p, waiting⟩ where
  queue := hq
  rests p' hp' := (h.rests p' hp').of_same rfl rfl rfl rfl
  fits := h.fits
  nodup := h.nodup

/-- The message that has been taken goes on. -/
theorem resume (h : s.Stored ⟨gone, some p, waiting⟩) (g : Option Outgoing) (b : Outbox) :
    Stored { s with segmenting := g, resources := { s.resources with outbox := b } }
      ⟨gone, some p, waiting⟩ where
  queue := h.queue
  rests p' hp' := (h.rests p' hp').of_same rfl rfl rfl rfl
  fits := h.fits
  nodup := h.nodup

/-- The message that has been taken is gone, and its buffer is free. -/
theorem free (h : s.Stored ⟨gone, some p, waiting⟩) (g : Option Outgoing) (b : Outbox) :
    Stored
      { s with
        segmenting := g
        resources :=
          { s.resources with outbox := b, messages := s.resources.messages.free p.handle } }
      ⟨gone', none, waiting⟩ where
  queue := h.queue
  rests p' hp' := by
    -- the others are in other buffers
    have hne : p'.handle ≠ p.handle := fun heq =>
      (List.nodup_cons.1 h.nodup).1 (heq ▸ List.mem_map_of_mem hp')
    have hrests := h.rests p' (List.mem_cons_of_mem p hp')
    have hfree := hrests.resources.free hne
    exact ⟨⟨hfree.message, hfree.unlisted, hfree.unqueued⟩, hrests.retained⟩
  fits p' hp' := h.fits p' (List.mem_cons_of_mem p hp')
  nodup := (List.nodup_cons.1 h.nodup).2

end Stored

/-! ### Progress -/

/-- The frames are those of the messages that are gone and some of the message underway. -/
structure Progress (streams : Bool) (s : Interface) (frames : List Frame) (d : Dispatch) :
    Prop where
  segmenting : s.segmenting =
    d.underway.map fun p => ⟨p.handle, p.message.cursorAt s.sent, s.sent⟩
  frames : frames = d.gone.flatMap (Parcel.share streams) ++
    d.underway.toList.flatMap fun p => (p.message.framesOn streams).take s.sent
  unfinished : ∀ p ∈ d.underway, s.sent < (p.message.framesOn streams).length

/-- After a pass that goes on with a message, the message is underway, or gone and its buffer
free. -/
theorem Stored.continueMessage {gone : List (Parcel × Bool)} {waiting : List Parcel}
    (h : s.Stored ⟨gone, some p, waiting⟩) (hk : k < p.message.parts) :
    ∃ d, (s.continueMessage streams ⟨p.handle, p.message.cursorAt k, k⟩).interface.Stored d ∧
      (s.continueMessage streams ⟨p.handle, p.message.cursorAt k, k⟩).interface.Progress streams
        (gone.flatMap (Parcel.share streams) ++ (p.message.framesOn streams).take k ++
          segments (s.continueMessage streams ⟨p.handle, p.message.cursorAt k, k⟩).trace) d ∧
      (d = ⟨gone, some p, waiting⟩ ∨
        d = ⟨gone ++ [(p, true)], none, waiting⟩ ∧
          (s.continueMessage streams ⟨p.handle, p.message.cursorAt k, k⟩).interface.message?
            p.handle = none) := by
  have hmem : p ∈ Dispatch.left ⟨gone, some p, waiting⟩ := List.mem_cons_self
  obtain ⟨n, b, htake, heq⟩ :=
    continueMessage_eq streams (h.rests p hmem).message? (h.fits p hmem) hk
  rw [List.append_assoc, htake, heq]
  by_cases hn : n < (p.message.framesOn streams).length
  · rw [if_pos hn]
    refine ⟨⟨gone, some p, waiting⟩, h.resume _ b, ⟨rfl, ?_, ?_⟩, .inl rfl⟩
    · simp [sent]
    · rintro p' ⟨⟩
      exact hn
  · rw [if_neg hn, List.take_of_length_le (Nat.not_lt.1 hn)]
    refine ⟨⟨gone ++ [(p, true)], none, waiting⟩, h.free _ b, ⟨rfl, ?_, ?_⟩, .inr ⟨rfl, ?_⟩⟩
    · simp [Parcel.share]
    · rintro p' ⟨⟩
    · exact (s.resources.messages.get?_free p.handle p.handle).trans (if_pos rfl)

/-! ### One step -/

/-- What is true all along. -/
structure Dispatching (streams : Bool) (s : Interface) (mail : Mail) (d : Dispatch) : Prop where
  covered : s.Covered
  marked : s.Marked
  pushed : mail.pushed = d.gone.map Prod.fst ++ d.left
  permitted : mail.permitted = d.gone.map Prod.snd ++ d.underway.toList.map fun _ => true
  stored : s.Stored d
  progress : s.Progress streams mail.frames d

namespace Dispatching

variable {mail : Mail} {d : Dispatch} {es : List Effect}

theorem start (streams : Bool) : Dispatching streams (.empty streams) {} ⟨[], none, []⟩ where
  covered := Outbox.covered_empty
  marked := ⟨AliasTable.proper_empty, fun _ ⟨_, hm, _⟩ => absurd hm List.not_mem_nil⟩
  pushed := rfl
  permitted := rfl
  stored := ⟨rfl, fun _ hp => absurd hp List.not_mem_nil, fun _ hp => absurd hp List.not_mem_nil,
    List.nodup_nil⟩
  progress := ⟨rfl, rfl, fun _ hp => nomatch hp⟩

theorem outgoing (h : s.Dispatching streams mail d) :
    s.outgoing = d.underway.toList.map Parcel.handle := by
  rw [Interface.outgoing, h.progress.segmenting]
  cases d.underway <;> rfl

theorem unsent (h : s.Dispatching streams mail d) : s.unsent = d.left.map Parcel.handle := by
  rw [Interface.unsent, h.outgoing, h.stored.queue, Dispatch.left, List.map_append]

theorem toDispatches (h : s.Dispatching streams mail d) : s.Dispatches streams mail d where
  pushed := h.pushed
  permitted := h.permitted
  outgoing := h.outgoing
  queue := h.stored.queue
  kept p hp := (h.stored.rests p hp).message?
  frames := h.progress.frames
  unfinished := h.progress.unfinished

/-- A step that leaves alone what is to be sent, and perhaps pushes more. -/
theorem push (new : List Parcel) (h : s.Dispatching streams mail d) (hc : t.Covered) (hm : t.Marked)
    (hseg : t.segmenting = s.segmenting)
    (hqueue : t.resources.egress.toList = s.resources.egress.toList ++ new.map Parcel.handle)
    (hrests : ∀ p ∈ d.left ++ new, t.Rests p.handle p.message)
    (hfits : ∀ p ∈ new, p.message.header.count ≤ p.message.capacity)
    (hnodup : ((d.left ++ new).map Parcel.handle).Nodup) (hes : segments es = []) :
    t.Dispatching streams (mail.note s t es) { d with waiting := d.waiting ++ new } := by
  have hsent : t.sent = s.sent := by rw [sent, sent, hseg]
  have hnew : ∀ p ∈ new, t.message? p.handle = some p.message := fun p hp =>
    (hrests p (List.mem_append_right _ hp)).message?
  rw [note_of_pushed mail es hqueue hnew, hes, List.append_nil]
  refine ⟨hc, hm, ?_, h.permitted, h.stored.push hqueue hrests hfits hnodup, ?_, ?_, ?_⟩
  · rw [h.pushed, Dispatch.left, Dispatch.left, List.append_assoc, List.append_assoc]
  · rw [hseg, hsent]
    exact h.progress.segmenting
  · rw [hsent]
    exact h.progress.frames
  · rw [hsent]
    exact h.progress.unfinished

/-- A step that has nothing to do with what is to be sent. -/
theorem same (h : s.Dispatching streams mail d) (hc : t.Covered) (hm : t.Marked)
    (hseg : t.segmenting = s.segmenting) (hqueue : t.resources.egress = s.resources.egress)
    (hrests : ∀ p ∈ d.left, t.Rests p.handle p.message) (hes : segments es = []) :
    t.Dispatching streams (mail.note s t es) d := by
  have hpush := h.push [] hc hm hseg (by rw [hqueue]; exact (List.append_nil _).symm)
    (by rwa [List.append_nil]) (fun _ hp => absurd hp List.not_mem_nil)
    (by rw [List.append_nil]; exact h.stored.nodup) hes
  rwa [List.append_nil] at hpush

end Dispatching

namespace Dispatching

variable {mail : Mail} {d : Dispatch} {es : List Effect}

/-- A request of the application, a frame from the bus or a tick. -/
theorem perform (h : s.Dispatching streams mail d) (hr : s.Honours streams req)
    (hrun : ∀ accepts, req ≠ .run accepts) :
    ∃ new, (s.perform streams req).interface.Dispatching streams
      (mail.note s (s.perform streams req).interface (s.perform streams req).trace)
      ⟨d.gone, d.underway, new⟩ := by
  have hc := @perform_covered streams s h.covered req
  have hm := @perform_marked streams s h.marked req
  have hes := (frameless_of_received (@shown_perform streams req s hrun)).1
  have hrests : ∀ p ∈ d.left, (s.perform streams req).interface.Rests p.handle p.message :=
    fun p hp => (h.stored.rests p hp).perform
      (hr.leaves _ (h.unsent ▸ List.mem_map_of_mem hp)) hrun
  obtain ⟨hseg, hqueue | ⟨k, m, hqueue, hget, hnew⟩⟩ := @perform_queue streams req s hrun
  · exact ⟨d.waiting, h.same hc hm hseg hqueue hrests hes⟩
  · have hpushed : s.pushedUntil (s.perform streams req).interface = [⟨k, m⟩] :=
      pushedUntil_eq [⟨k, m⟩] hqueue fun p hp => by rw [List.mem_singleton.1 hp]; exact hget
    -- the new message is in none of the buffers that are to be sent already
    have hfresh : k ∉ d.left.map Parcel.handle := by
      intro hk
      rcases hnew with rfl | hnone
      · exact hr.leaves k (h.unsent ▸ hk) rfl
      · obtain ⟨p, hp, rfl⟩ := List.mem_map.1 hk
        rw [(h.stored.rests p hp).message?] at hnone
        cases hnone
    refine ⟨d.waiting ++ [⟨k, m⟩],
      h.push [⟨k, m⟩] hc hm hseg hqueue (fun p hp => ?_) (hpushed ▸ hr.fits) ?_ hes⟩
    · rcases List.mem_append.1 hp with hp | hp
      · exact hrests p hp
      · exact hr.rests p (hpushed ▸ hp)
    · rw [List.map_append]
      exact h.stored.nodup.append (List.nodup_singleton k)
        (List.disjoint_singleton.2 hfresh)

end Dispatching

/-! ### One pass -/

namespace Dispatching

variable {mail : Mail} {d : Dispatch} {es : List Effect}

/-- The first message that is left goes. -/
theorem of_gone {waiting : List Parcel} {v : Bool} (hleft : d.left = p :: waiting) (hc : t.Covered)
    (hm : t.Marked) (hpushed : mail.pushed = d.gone.map Prod.fst ++ d.left)
    (hpermitted : mail.permitted = d.gone.map Prod.snd ++ [v])
    (hs : t.Stored ⟨d.gone ++ [(p, v)], none, waiting⟩)
    (hp : t.Progress streams mail.frames ⟨d.gone ++ [(p, v)], none, waiting⟩)
    (hfree : t.message? p.handle = none) :
    ∃ d', t.Dispatching streams mail d' ∧ t.Frees d d' := by
  refine ⟨_, ⟨hc, hm, ?_, ?_, hs, hp⟩, .inr ⟨(p, v), ?_, rfl, hfree⟩⟩
  · rw [hpushed, hleft]
    simp [Dispatch.left]
  · rw [hpermitted]
    simp
  · rw [hleft]
    rfl

/-- The first message that is left goes on. -/
theorem of_continued {waiting : List Parcel} (hleft : d.left = p :: waiting)
    (hs : s.Stored ⟨d.gone, some p, waiting⟩) (hk : k < p.message.parts)
    (ht : t = (s.continueMessage streams ⟨p.handle, p.message.cursorAt k, k⟩).interface)
    (hc : t.Covered) (hm : t.Marked) (hpushed : mail.pushed = d.gone.map Prod.fst ++ d.left)
    (hpermitted : mail.permitted = d.gone.map Prod.snd ++ [true])
    (hframes : mail.frames =
      d.gone.flatMap (Parcel.share streams) ++ (p.message.framesOn streams).take k ++
        segments (s.continueMessage streams ⟨p.handle, p.message.cursorAt k, k⟩).trace) :
    ∃ d', t.Dispatching streams mail d' ∧ t.Frees d d' := by
  obtain ⟨d', hstored, hprogress, hd⟩ :=
    @Stored.continueMessage streams s p k d.gone waiting hs hk
  rw [← hframes, ← ht] at hprogress
  rw [← ht] at hstored hd
  rcases hd with rfl | ⟨rfl, hfree⟩
  · rw [hleft] at hpushed
    exact ⟨_, ⟨hc, hm, hpushed, hpermitted, hstored, hprogress⟩, .inl rfl⟩
  · exact of_gone hleft hc hm hpushed hpermitted hstored hprogress hfree

/-- The message underway goes on. -/
theorem resume {o : Outgoing} (h : s.Dispatching streams mail d) (ho : s.segmenting = some o)
    (hc : (s.continueMessage streams o).interface.Covered)
    (hm : (s.continueMessage streams o).interface.Marked)
    (hes : segments es = segments (s.continueMessage streams o).trace) :
    ∃ d', (s.continueMessage streams o).interface.Dispatching streams
      (mail.note s (s.continueMessage streams o).interface es) d' ∧
        (s.continueMessage streams o).interface.Frees d d' := by
  obtain ⟨gone, _ | p, waiting⟩ := d
  · cases ho.symm.trans h.progress.segmenting
  · obtain rfl : o = ⟨p.handle, p.message.cursorAt s.sent, s.sent⟩ :=
      Option.some.inj (ho.symm.trans h.progress.segmenting)
    have hk : s.sent < p.message.parts :=
      Nat.lt_of_lt_of_le (h.progress.unfinished p rfl)
        (Message.length_framesOn_le streams p.message)
    have hqueue : (s.continueMessage streams
        ⟨p.handle, p.message.cursorAt s.sent, s.sent⟩).interface.resources.egress.toList =
          s.resources.egress.toList ++ ([] : List Parcel).map Parcel.handle := by
      obtain ⟨g, b, ms, heq⟩ := @continueMessage_extent streams s
        ⟨p.handle, p.message.cursorAt s.sent, s.sent⟩
      rw [heq]
      exact (List.append_nil _).symm
    have hframes : mail.frames =
        gone.flatMap (Parcel.share streams) ++ (p.message.framesOn streams).take s.sent :=
      h.progress.frames.trans (congrArg _ (List.flatMap_singleton _ p))
    rw [note_of_pushed mail es hqueue fun _ hp => absurd hp List.not_mem_nil, List.append_nil, hes,
      hframes]
    exact of_continued rfl h.stored hk rfl hc hm h.pushed h.permitted rfl

/-- A message is taken from the queue. -/
theorem take {k : Handle} {q : Queue Handle Limits.messageDepth} (h : s.Dispatching streams mail d)
    (hnone : s.segmenting = none) (hpop : s.resources.egress.pop = some (k, q))
    (hc : (s.sendMessages streams).interface.Covered)
    (hm : (s.sendMessages streams).interface.Marked)
    (hes : segments es = segments (s.sendMessages streams).trace) :
    ∃ d', (s.sendMessages streams).interface.Dispatching streams
      (mail.note s (s.sendMessages streams).interface es) d' ∧
        (s.sendMessages streams).interface.Frees d d' := by
  obtain ⟨gone, underway, waiting⟩ := d
  obtain rfl : underway = none := by
    have hseg := h.progress.segmenting
    rw [hnone] at hseg
    exact Option.map_eq_none_iff.1 hseg.symm
  have hqueue := Queue.pop_eq_some_iff.1 hpop
  obtain ⟨p, waiting, rfl, rfl, hq⟩ :=
    List.map_eq_cons_iff.1 (h.stored.queue.symm.trans hqueue)
  have hstored := h.stored.pop hq.symm
  have hfirst : mail.pushed[mail.permitted.length]? = some p := by
    rw [h.pushed, h.permitted]
    simp [Dispatch.left]
  have hpermitted : mail.permitted = gone.map Prod.snd := h.permitted.trans (List.append_nil _)
  have hframes : mail.frames = gone.flatMap (Parcel.share streams) :=
    h.progress.frames.trans (List.append_nil _)
  have hmay : maySend { s with resources := { s.resources with egress := q } } p.handle =
      s.resources.aliases.isPermitted p.message.header.source := by
    have hget : s.resources.messages.get? p.handle = some p.message :=
      (h.stored.rests p List.mem_cons_self).message?
    rw [maySend, hget]
    rfl
  by_cases hyes : s.resources.aliases.isPermitted p.message.header.source = true
  · obtain ⟨heq, htrace⟩ := @sendMessages_of_maySend streams s _ _ hnone hpop (hmay.trans hyes)
    have htaken : (s.sendMessages streams).interface.resources.egress = q := by
      obtain ⟨g, b, ms, hgo⟩ := @continueMessage_extent streams
        { s with resources := { s.resources with egress := q } } ⟨p.handle, 0, 0⟩
      rw [heq, hgo]
    have hzero : (⟨p.handle, 0, 0⟩ : Outgoing) = ⟨p.handle, p.message.cursorAt 0, 0⟩ := by
      rw [p.message.cursorAt_zero]
    rw [hzero] at heq htrace
    rw [note_of_taken es (htaken ▸ hqueue) hfirst, hyes, hpermitted, hes, htrace, hframes]
    refine of_continued rfl hstored p.message.parts_pos heq hc hm h.pushed rfl ?_
    rw [List.take_zero, List.append_nil]
  · obtain ⟨heq, htrace⟩ := @sendMessages_of_not_maySend streams s _ _ hnone hpop
      fun hno => hyes (hmay.symm.trans hno)
    have htaken : (s.sendMessages streams).interface.resources.egress = q := by rw [heq]
    rw [note_of_taken es (htaken ▸ hqueue) hfirst, Bool.eq_false_iff.2 hyes, hpermitted, hes,
      htrace, hframes, List.append_nil]
    refine of_gone rfl hc hm h.pushed rfl (heq ▸ hstored.free s.segmenting s.resources.outbox)
      ⟨?_, ?_, fun _ hp => nomatch hp⟩ ?_
    · rw [heq]
      exact hnone
    · simp [Parcel.share]
    · rw [heq]
      exact (s.resources.messages.get?_free p.handle p.handle).trans (if_pos rfl)

theorem sendMessages (h : s.Dispatching streams mail d)
    (hc : (s.sendMessages streams).interface.Covered)
    (hm : (s.sendMessages streams).interface.Marked)
    (hes : segments es = segments (s.sendMessages streams).trace) :
    ∃ d', (s.sendMessages streams).interface.Dispatching streams
      (mail.note s (s.sendMessages streams).interface es) d' ∧
        (s.sendMessages streams).interface.Frees d d' := by
  cases hseg : s.segmenting with
  | some o =>
    have heq : s.sendMessages streams = s.continueMessage streams o := by
      rw [Interface.sendMessages, hseg]
    rw [heq] at hc hm hes ⊢
    exact h.resume hseg hc hm hes
  | none =>
    cases hpop : s.resources.egress.pop with
    | some x => exact h.take hseg hpop hc hm hes
    | none =>
      have heq : (s.sendMessages streams).interface = s ∧
          segments (s.sendMessages streams).trace = [] := by
        rw [Interface.sendMessages, hseg]
        simp only
        rw [popEgress_of_none hpop]
        exact ⟨rfl, rfl⟩
      rw [heq.1]
      exact ⟨d, h.same h.covered h.marked rfl rfl h.stored.rests (hes.trans heq.2), .inl rfl⟩

theorem pass (h : s.Dispatching streams mail d) (hp : Pass streams accepts s t es) (hc : t.Covered)
    (hm : t.Marked) : ∃ d', t.Dispatching streams (mail.note s t es) d' ∧ t.Frees d d' := by
  cases hp with
  | conflicts =>
    obtain ⟨hseg, hqueue⟩ := giveUpAll_same s.resources.aliases.mappings.length s
    exact ⟨d, h.same hc hm hseg hqueue (fun p hp => (h.stored.rests p hp).resolveConflicts) rfl,
      .inl rfl⟩
  | frame =>
    refine ⟨d, h.same hc hm ?_ ?_ (fun p hp => (h.stored.rests p hp).transmit) ?_, .inl rfl⟩
    · obtain ⟨x, o, heq⟩ := @transmit_extent accepts s
      rw [heq]
    · obtain ⟨x, o, heq⟩ := @transmit_extent accepts s
      rw [heq]
    · rw [segments_shown]
      exact segments_of_silent (transmit_silent s)
  | login =>
    obtain ⟨hseg, hres⟩ := @transmitLogin_same accepts s
    refine ⟨d, h.same hc hm hseg (by rw [hres])
      (fun p hp => (h.stored.rests p hp).transmitLogin) ?_, .inl rfl⟩
    rw [segments_shown]
    exact segments_of_silent (transmitLogin_silent s)
  | message => exact h.sendMessages hc hm (segments_shown _)
  | rest cursors current =>
    exact ⟨d, h.same hc hm rfl rfl (fun p hp => (h.stored.rests p hp).of_same rfl rfl rfl rfl) rfl,
      .inl rfl⟩
  | turn cursors current i =>
    obtain ⟨hseg, hqueue⟩ :=
      takeTurn_same { s with nodes := { s.nodes with cursors }, current } i
    refine ⟨d, h.same hc hm hseg hqueue (fun p hp => ?_) ?_, .inl rfl⟩
    · have hmoved : Rests { s with nodes := { s.nodes with cursors }, current } p.handle
          p.message := (h.stored.rests p hp).of_same rfl rfl rfl rfl
      exact hmoved.takeTurn i
    · rw [segments_shown]
      exact segments_of_silent (takeTurn_silent _ i)

/-- Whatever happens next, at most one message goes, and its buffer is freed then. -/
theorem step (h : s.Dispatching streams mail d) (hr : s.Honours streams req) :
    ∃ d', (s.perform streams req).interface.Dispatching streams
      (mail.note s (s.perform streams req).interface (s.perform streams req).trace) d' ∧
        (s.perform streams req).interface.Frees d d' := by
  by_cases hrun : ∃ accepts, req = .run accepts
  · obtain ⟨accepts, rfl⟩ := hrun
    have hpass := h.pass (@passes streams s h.covered h.marked.2.nextDuplicate? accepts)
      (perform_covered h.covered (.run accepts)) (perform_marked h.marked (.run accepts))
    rw [Mail.note, segments_shown] at hpass
    exact hpass
  · obtain ⟨waiting, hnext⟩ := h.perform hr fun accepts heq => hrun ⟨accepts, heq⟩
    exact ⟨_, hnext, .inl rfl⟩

end Dispatching

/-! ### Dispatch -/

theorem Mailed.dispatching {mail : Mail} (h : Mailed streams s mail) :
    ∃ d, s.Dispatching streams mail d := by
  induction h with
  | start => exact ⟨_, .start streams⟩
  | step _ hr ih =>
    obtain ⟨d, ih⟩ := ih
    obtain ⟨d', hnext, -⟩ := ih.step hr
    exact ⟨d', hnext⟩

/-- **Dispatch.** The frames that have gone into the outbox are those of the messages pushed, in
order and unmixed: all frames of each message that is gone, none of one whose source alias was not
permitted when it was taken, and then the first frames of the message underway.  A message that is
not gone is in its buffer, as it was when it was pushed, and the step with which it goes frees the
buffer. -/
theorem Mailed.dispatches {mail : Mail} (h : Mailed streams s mail) :
    ∃ d, s.Dispatches streams mail d ∧ ∀ req, s.Honours streams req →
      ∃ d', (s.perform streams req).interface.Dispatches streams
          (mail.note s (s.perform streams req).interface (s.perform streams req).trace) d' ∧
        (s.perform streams req).interface.Frees d d' := by
  obtain ⟨d, hd⟩ := h.dispatching
  refine ⟨d, hd.toDispatches, fun req hr => ?_⟩
  obtain ⟨d', hnext, hfrees⟩ := hd.step hr
  exact ⟨d', hnext.toDispatches, hfrees⟩

/-- A node that has logged in sends a message, a node without an alias tries to, and the first node
goes on with a datagram of three frames and one more message. -/
def errands : List Request :=
  .register 0xE8EE23A9A9DB (.ofSupport 0) :: (List.replicate 20 (.run true) ++
    List.replicate 3 .tick ++ List.replicate 14 (.run true) ++
    [.register 2 (.ofSupport 0), .send 0 Mti.verifyNodeIdGlobal 0 [],
      .send 1 Mti.verifyNodeIdGlobal 0 [], .send 0 Mti.datagram 0x123 (List.replicate 20 7)] ++
    List.replicate 3 (.run true) ++ [.send 0 Mti.verifyNodeIdGlobal 0 []] ++
    List.replicate 4 (.run true))

/-- Two frames of the datagram are gone. -/
def errand : Session := (Session.start false).after false errands

def errandMail : Mail := Mail.along false (.empty false) {} errands

theorem allows_errands : (Session.start false).Allows false errands := by
  refine Session.allows_of_forall fun req hreq σ => ?_
  simp only [errands, List.mem_append, List.mem_replicate, List.mem_cons, List.not_mem_nil,
    or_false] at hreq
  rcases hreq with rfl | (((((⟨-, rfl⟩ | ⟨-, rfl⟩) | ⟨-, rfl⟩) | rfl | rfl | rfl | rfl) |
    ⟨-, rfl⟩) | rfl) | ⟨-, rfl⟩ <;> trivial

/-- With the next pass the last frame of the datagram goes, and its buffer is free. -/
theorem dispatches_errands :
    Mailed false errand.interface errandMail ∧
      errandMail.permitted = [true, false, true] ∧ errandMail.frames.length = 3 ∧
      errand.interface.outgoing = [⟨.datagram, 0⟩] ∧ errand.interface.sent = 2 ∧
      errand.interface.Honours false (.run true) ∧
      (errand.interface.perform false (.run true)).interface.outgoing = [] ∧
      ∃ d, errand.interface.Dispatches false errandMail d ∧
        ∃ d', (errand.interface.perform false (.run true)).interface.Dispatches false
            (errandMail.note errand.interface
              (errand.interface.perform false (.run true)).interface
              (errand.interface.perform false (.run true)).trace) d' ∧
          (errand.interface.perform false (.run true)).interface.Frees d d' := by
  have hstart : (Session.start false).Sound false := sound_empty false
  have hmailed : Mailed false errand.interface errandMail :=
    Mailed.start.after hstart allows_errands (by decide +kernel)
  have hpushed : errand.interface.pushedUntil (errand.step false (.run true)).interface = [] := by
    decide +kernel
  have hnext : errand.interface.Honours false (.run true) := by
    refine (hstart.after allows_errands).honours trivial fun p hp => ?_
    exact absurd (hpushed ▸ hp) List.not_mem_nil
  obtain ⟨d, hd, hstep⟩ := hmailed.dispatches
  exact ⟨hmailed, by decide +kernel, by decide +kernel, by decide +kernel, by decide +kernel, hnext,
    by decide +kernel, d, hd, hstep _ hnext⟩

end Interface

end LayoutBus
