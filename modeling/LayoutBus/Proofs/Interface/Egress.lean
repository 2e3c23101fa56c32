import LayoutBus.Proofs.Interface.Transit
import LayoutBus.Proofs.Message.Framing

/-!
# Messages to be sent, step by step

Messages that are to be sent wait in a queue, and one of them is on its way.

* `Interface.perform_queue` : of all requests only a push changes this, apart from the passes of the
  main loop.
* `Interface.sendMessages_of_maySend`, `Interface.sendMessages_of_not_maySend` : a pass takes the
  next message.
* `Interface.continueMessage_eq` : a pass goes on with a message.
-/

namespace LayoutBus

namespace Message

variable {m : Message} {k : Nat}

theorem take_frames_succ (hk : k < m.parts) :
    m.frames.take k ++ [m.part k] = m.frames.take (k + 1) := by
  have hget : m.frames[k]? = some (m.part k) := by simp [frames, hk]
  rw [List.take_add_one, hget, Option.toList_some]

theorem length_framesOn_le (streams : Bool) (m : Message) :
    (m.framesOn streams).length ≤ m.parts := by
  rw [framesOn]
  split
  · exact Nat.zero_le _
  · exact Nat.le_of_eq m.length_frames

end Message

namespace Interface

variable {streams accepts : Bool} {s : Interface} {req : Request}

/-! ### Requests -/

/-- Apart from the passes of the main loop, a request pushes a message at most. -/
theorem perform_queue (s : Interface) (hrun : ∀ accepts, req ≠ .run accepts) :
    (s.perform streams req).interface.segmenting = s.segmenting ∧
      ((s.perform streams req).interface.resources.egress = s.resources.egress ∨
        ∃ h m, (s.perform streams req).interface.resources.egress.toList =
            s.resources.egress.toList ++ [h] ∧
          (s.perform streams req).interface.message? h = some m ∧
          (req = .pushEgress h ∨ s.message? h = none)) := by
  cases req with
  | run accepts => exact absurd rfl (hrun accepts)
  | receive f => exact ⟨rfl, .inl (Resources.egress_receive streams s.resources f)⟩
  | tick => exact ⟨rfl, .inl s.resources.age_outside.egress⟩
  | register id params =>
    have heq : (s.perform streams (.register id params)).interface =
        (s.register id params).interface := rfl
    obtain hsame | hadded := s.register_cases id params
    · rw [heq, hsame]
      exact ⟨rfl, .inl rfl⟩
    · rw [heq, hadded]
      exact ⟨rfl, .inl rfl⟩
  | allocate c =>
    simp only [perform, allocate, locked]
    split <;> exact ⟨rfl, .inl rfl⟩
  | popIngress =>
    simp only [perform, popIngress, locked]
    split <;> exact ⟨rfl, .inl rfl⟩
  | pushEgress h =>
    have heq : (s.perform streams (.pushEgress h)).interface = (s.pushEgress h).interface := rfl
    obtain ⟨q, hin, hq, -, hpushed⟩ | ⟨-, -, hsame⟩ := s.pushEgress_cases h
    · obtain ⟨m, hm⟩ := Option.isSome_iff_exists.1 hin
      rw [heq, hpushed]
      exact ⟨rfl, .inr ⟨h, m, Queue.toList_push hq, hm, .inl rfl⟩⟩
    · rw [heq, hsame]
      exact ⟨rfl, .inl rfl⟩
  | send i mti dest payload =>
    have heq : (s.perform streams (.send i mti dest payload)).interface =
        (s.send i mti dest payload).interface := rfl
    obtain hsame | ⟨c, h, ms, g, ha, ⟨q, hq, hpushed⟩ | hfreed⟩ := s.send_cases i mti dest payload
    · rw [heq, hsame]
      exact ⟨rfl, .inl rfl⟩
    · obtain ⟨-, hnone, hget⟩ := MessageStore.get?_of_allocate ha
      have hm : (ms.modify h g).get? h = some (g (MessageStore.fresh c)) := by
        rw [MessageStore.get?_modify, if_pos rfl, hget, if_pos rfl, Option.map_some]
      rw [heq, hpushed]
      exact ⟨rfl, .inr ⟨h, _, Queue.toList_push hq, hm, .inr hnone⟩⟩
    · rw [heq, hfreed]
      exact ⟨rfl, .inl rfl⟩
  | free h | edit h change | retain i h | revise i change | clearPeaks => exact ⟨rfl, .inl rfl⟩

/-! ### Passes without messages -/

theorem segments_of_silent {α : Type} {o : Outcome α} (h : o.Silent) : segments o.trace = [] := by
  refine List.filterMap_eq_nil_iff.2 fun e he => ?_
  cases e with
  | segment k f => exact absurd he (h k f)
  | _ => rfl

theorem giveUpAll_same (n : Nat) (s : Interface) :
    (giveUpAll n s).segmenting = s.segmenting ∧
      (giveUpAll n s).resources.egress = s.resources.egress := by
  induction n generalizing s with
  | zero => exact ⟨rfl, rfl⟩
  | succ n ih =>
    unfold giveUpAll
    split
    · exact ih (s.giveUp _)
    · exact ⟨rfl, rfl⟩

theorem transmitLogin_same (s : Interface) :
    (s.transmitLogin accepts).interface.segmenting = s.segmenting ∧
      (s.transmitLogin accepts).interface.resources = s.resources := by
  unfold transmitLogin
  split
  · exact ⟨rfl, rfl⟩
  · split <;> exact ⟨rfl, rfl⟩

theorem takeTurn_same (s : Interface) (i : Nat) :
    (s.takeTurn i).interface.segmenting = s.segmenting ∧
      (s.takeTurn i).interface.resources.egress = s.resources.egress := by
  unfold takeTurn
  split
  · exact ⟨rfl, rfl⟩
  · split <;> exact ⟨rfl, rfl⟩

/-! ### A message is taken -/

section Take

variable {h : Handle} {q : Queue Handle Limits.messageDepth} (hnone : s.segmenting = none)
  (hpop : s.resources.egress.pop = some (h, q))
include hnone hpop

/-- A message that may be sent is taken and goes on. -/
theorem sendMessages_of_maySend
    (hmay : maySend { s with resources := { s.resources with egress := q } } h = true) :
    (s.sendMessages streams).interface = (continueMessage streams
        { s with resources := { s.resources with egress := q } } ⟨h, 0, 0⟩).interface ∧
      segments (s.sendMessages streams).trace = segments (continueMessage streams
        { s with resources := { s.resources with egress := q } } ⟨h, 0, 0⟩).trace := by
  rw [sendMessages, hnone]
  simp only
  rw [popEgress_of_some hpop]
  simp only
  rw [if_pos hmay]
  exact ⟨rfl, segments_append _ _⟩

/-- A message that may not be sent is taken and dropped. -/
theorem sendMessages_of_not_maySend
    (hmay : ¬ maySend { s with resources := { s.resources with egress := q } } h = true) :
    (s.sendMessages streams).interface =
        { s with
          resources :=
            { s.resources with egress := q, messages := s.resources.messages.free h } } ∧
      segments (s.sendMessages streams).trace = [] := by
  rw [sendMessages, hnone]
  simp only
  rw [popEgress_of_some hpop]
  simp only
  rw [if_neg hmay]
  exact ⟨by simp [update, locked, hnone], rfl⟩

end Take

/-! ### A message goes on -/

theorem segments_locked {α : Type} (s : Interface) (step : Interface → Outcome α) :
    segments (s.locked step).trace = segments (step s).trace := by
  rw [← segments_shown, shown_locked, segments_shown]

/-- The message goes on as long as parts are left, and then its buffer is free. -/
theorem settle_cursorAt (s : Interface) (h : Handle) (m : Message) (n : Nat) :
    s.settle ⟨h, m.cursorAt n, n⟩ m =
      if n < m.parts then
        { s with segmenting := some ⟨h, m.cursorAt n, n⟩ }
      else
        { s with
          segmenting := none
          resources := { s.resources with messages := s.resources.messages.free h } } := by
  have hdone : m.isSent (m.cursorAt n) n = true ↔ m.parts ≤ n := Message.completes_progress_iff
  unfold settle
  by_cases hn : n < m.parts
  · rw [if_pos hn, if_neg fun hall => Nat.not_le.2 hn (hdone.1 hall)]
  · rw [if_neg hn, if_pos (hdone.2 (Nat.not_lt.1 hn))]

/-- A pass goes on with a message of which `k` frames are gone: then `n` are, and after the last one
its buffer is free. -/
theorem continueMessage_eq (streams : Bool) {h : Handle} {m : Message} {k : Nat}
    (hm : s.message? h = some m) (hfits : m.header.count ≤ m.capacity) (hk : k < m.parts) :
    ∃ n b, (m.framesOn streams).take k ++
        segments (s.continueMessage streams ⟨h, m.cursorAt k, k⟩).trace =
          (m.framesOn streams).take n ∧
      (s.continueMessage streams ⟨h, m.cursorAt k, k⟩).interface =
        if n < (m.framesOn streams).length then
          { s with
            segmenting := some ⟨h, m.cursorAt n, n⟩
            resources := { s.resources with outbox := b } }
        else
          { s with
            segmenting := none
            resources :=
              { s.resources with outbox := b, messages := s.resources.messages.free h } } := by
  have hget : s.resources.messages.get? h = some m := hm
  rw [continueMessage, hget]
  simp only [segments_locked]
  show ∃ n b, _ ∧ (s.segment streams _ m).interface = _
  by_cases hdrop : Transport.ofMti m.header.mti = .stream ∧ streams = false
  · obtain ⟨ht, rfl⟩ := hdrop
    have hnext : m.next false (m.cursorAt k) = .dropped := by
      rw [Message.next, ht]
      rfl
    have hnone : m.framesOn false = [] := if_pos ⟨ht, rfl⟩
    have hsent : m.isSent m.header.count (k + 1) = true := by
      simp [Message.isSent, ht]
    refine ⟨k, s.resources.outbox, ?_, ?_⟩ <;> rw [segment, hnext, hnone]
    · exact List.append_nil _
    · exact (if_pos hsent).trans (if_neg (Nat.not_lt_zero k)).symm
  · have hs : Transport.ofMti m.header.mti = .stream → streams = true := fun ht =>
      Bool.eq_true_of_not_eq_false fun hno => hdrop ⟨ht, hno⟩
    have hnext := Message.next_eq hs (m.cursorAt k)
    have hframes : m.framesOn streams = m.frames := if_neg hdrop
    rw [hframes, Message.length_frames, segment, hnext]
    simp only
    cases hoffer : s.resources.outbox.offer (m.frameAt (m.cursorAt k)) with
    | none =>
      refine ⟨k, s.resources.outbox, List.append_nil _, ?_⟩
      exact settle_cursorAt s h m k
    | some b =>
      refine ⟨k + 1, b, Message.take_frames_succ hk, ?_⟩
      simp only
      rw [← Message.cursorAt_succ hfits]
      exact settle_cursorAt { s with resources := { s.resources with outbox := b } } h m (k + 1)

end Interface

end LayoutBus
