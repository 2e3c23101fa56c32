import LayoutBus.Proofs.Message.Segmentation
import LayoutBus.Proofs.Wire.MessageData
import Mathlib.Algebra.Order.Floor.Div

/-!
# Framing

What stands in the frames of a message, and what a driver sees of them when it refuses some calls.

* `Message.Standard` : what frame `i` of a message says.
* `Message.framesOn` : the frames that leave an interface with streams or without.
* `Message.calls` : the calls that it takes until the message is gone.
* `Message.segmented` : **segmentation.**  Whatever the driver refuses, the calls end, the driver has
  accepted the frames of the message, and they are the standard ones.
-/

namespace LayoutBus

/-- The places in a message of so many frames. -/
def Place.sequence : Nat → List Place
  | 0 => []
  | 1 => [only]
  | n + 2 => first :: List.replicate n middle ++ [last]

namespace Message

variable {m : Message} {streams : Bool} {answers : List Bool} {t : Transmission} {i n : Nat}

/-! ### What stands in a frame -/

/-- Piece `i` of the payload, in pieces of `w` bytes. -/
def piece (m : Message) (w i : Nat) : List UInt8 :=
  m.payload.extract (min (w * i) m.header.count) (min (w * (i + 1)) m.header.count)

/-- What frame `i` of a message says. -/
structure Standard (m : Message) (i : Nat) (f : Frame) : Prop where
  source : f.source = m.header.source % 0x1000
  form : match Transport.ofMti m.header.mti with
    | .datagram => f.kind = .message (m.place i).datagramType ∧ f.field = m.header.dest % 0x1000 ∧
        f.payload = m.piece 8 i
    | .addressed => f.kind = .message .standard ∧ f.field = m.header.mti % 0x1000 ∧
        f.payload = addressedPayload (m.place i).framing m.header.dest (m.piece 6 i)
    | .eventReport => f.kind = .message .standard ∧ f.field = (m.place i).eventReportMti ∧
        f.payload = m.piece 8 i
    | .global => f.kind = .message .standard ∧ f.field = m.header.mti % 0x1000 ∧
        f.payload = m.payload.take (min m.header.count 8)
    | .stream => f.kind = .message .stream ∧ f.field = m.header.dest % 0x1000 ∧
        f.payload = m.piece 8 i

theorem chunk_cursorAt (hm : m.header.count ≤ m.capacity) (i : Nat) :
    m.chunk (m.cursorAt i) m.width = m.piece m.width i := by
  unfold chunk piece cursorAt
  rw [List.extract_eq_take_drop, Nat.mul_comm i, List.take_eq_take_iff, List.length_drop,
    length_payload_of_le hm, Nat.mul_succ]
  omega

/-- What is in an addressed frame. -/
theorem addressed_part (ht : Transport.ofMti m.header.mti = .addressed)
    (hcount : m.header.count ≤ m.capacity) :
    (m.part i).kind = .message .standard ∧ (m.part i).field = m.header.mti % 0x1000 ∧
      (m.part i).payload = addressedPayload (m.place i).framing m.header.dest
        (m.chunk (m.cursorAt i) m.width) := by
  have hpart : m.part i = m.addressedFrame (m.cursorAt i) := by rw [part, frameAt, ht]
  have hwidth : m.width = addressedWidth := by rw [width, ht]
  rw [hpart]
  refine ⟨Frame.kind_messageData _, Frame.field_messageData _, ?_⟩
  rw [← addressedFraming_cursorAt ht hcount, hwidth]
  rfl

/-- What is in any other frame. -/
theorem plain_part {t : MessageType} {field : Nat}
    (hpart : m.part i = m.plainFrame t field (m.cursorAt i)) (hwidth : m.width = frameWidth) :
    (m.part i).kind = .message t ∧ (m.part i).field = field % 0x1000 ∧
      (m.part i).payload = m.chunk (m.cursorAt i) m.width := by
  rw [hpart, plainFrame, hwidth]
  exact ⟨Frame.kind_messageData _, Frame.field_messageData _, Frame.payload_messageData _⟩

theorem global_part (ht : Transport.ofMti m.header.mti = .global) (i : Nat) :
    m.part i = m.plainFrame .standard m.header.mti (m.cursorAt i) := by
  rw [part, frameAt, ht]

theorem stream_part (ht : Transport.ofMti m.header.mti = .stream) (i : Nat) :
    m.part i = m.plainFrame .stream m.header.dest (m.cursorAt i) := by
  rw [part, frameAt, ht]

theorem eventReport_part (ht : Transport.ofMti m.header.mti = .eventReport)
    (hcount : m.header.count ≤ m.capacity) (i : Nat) :
    m.part i = m.plainFrame .standard (m.place i).eventReportMti (m.cursorAt i) := by
  rw [← eventReportMti_cursorAt ht hcount, part, frameAt, ht]

theorem datagram_part (ht : Transport.ofMti m.header.mti = .datagram)
    (hcount : m.header.count ≤ m.capacity) (i : Nat) :
    m.part i = m.plainFrame (m.place i).datagramType m.header.dest (m.cursorAt i) := by
  rw [← datagramType_cursorAt ht hcount, part, frameAt, ht]

theorem source_part (m : Message) (i : Nat) : (m.part i).source = m.header.source % 0x1000 := by
  unfold part frameAt
  split <;> exact Frame.source_messageData _

/-- The frames of a message are the standard ones. -/
theorem standard_part (hm : m.header.count ≤ m.capacity) (hi : i < m.parts) :
    m.Standard i (m.part i) where
  source := source_part m i
  form := by
    have hwidth : m.width = if Transport.ofMti m.header.mti = .addressed then 6 else 8 := by
      unfold width
      cases Transport.ofMti m.header.mti <;> rfl
    have hchunk := chunk_cursorAt hm i
    cases ht : Transport.ofMti m.header.mti with
    | datagram =>
      rw [ht, if_neg (by decide)] at hwidth
      obtain ⟨hkind, hfield, hpayload⟩ := plain_part (datagram_part ht hm i) hwidth
      exact ⟨hkind, hfield, by rw [hpayload, hchunk, hwidth]⟩
    | addressed =>
      rw [ht, if_pos rfl] at hwidth
      obtain ⟨hkind, hfield, hpayload⟩ := addressed_part (i := i) ht hm
      exact ⟨hkind, hfield, by rw [hpayload, hchunk, hwidth]⟩
    | eventReport =>
      rw [ht, if_neg (by decide)] at hwidth
      obtain ⟨hkind, hfield, hpayload⟩ := plain_part (eventReport_part ht hm i) hwidth
      refine ⟨hkind, hfield.trans ?_, by rw [hpayload, hchunk, hwidth]⟩
      cases m.place i <;> rfl
    | global =>
      rw [ht, if_neg (by decide)] at hwidth
      obtain ⟨hkind, hfield, hpayload⟩ := plain_part (global_part ht i) hwidth
      have hone : m.parts = 1 := by rw [parts, ht]
      obtain rfl : i = 0 := by omega
      refine ⟨hkind, hfield, ?_⟩
      rw [hpayload, hchunk, hwidth, piece, List.extract_eq_take_drop]
      simp [Nat.min_comm]
    | stream =>
      rw [ht, if_neg (by decide)] at hwidth
      obtain ⟨hkind, hfield, hpayload⟩ := plain_part (stream_part ht i) hwidth
      exact ⟨hkind, hfield, by rw [hpayload, hchunk, hwidth]⟩

/-! ### How many frames there are -/

/-- The frames that leave an interface: without streams, none for stream data. -/
def framesOn (streams : Bool) (m : Message) : List Frame :=
  if Transport.ofMti m.header.mti = .stream ∧ streams = false then [] else m.frames

/-- The number of frames that leave an interface. -/
def frameCount (streams : Bool) (m : Message) : Nat :=
  match Transport.ofMti m.header.mti with
  | .datagram => max 1 (m.header.count ⌈/⌉ 8)
  | .addressed => max 1 (m.header.count ⌈/⌉ 6)
  | .eventReport => if m.header.count = 0 then 1 else max 2 (m.header.count ⌈/⌉ 8)
  | .global => 1
  | .stream => if streams then max 1 (m.header.count ⌈/⌉ 8) else 0

theorem pieces_eq_ceilDiv (m : Message) : m.pieces = m.header.count ⌈/⌉ m.width :=
  (Nat.ceilDiv_eq_add_pred_div _ _).symm

@[simp] theorem length_frames (m : Message) : m.frames.length = m.parts := by
  simp [frames]

theorem length_framesOn (streams : Bool) (m : Message) :
    (m.framesOn streams).length = m.frameCount streams := by
  unfold framesOn frameCount
  cases ht : Transport.ofMti m.header.mti with
  | stream =>
    cases streams with
    | false => rfl
    | true => simp [parts, pieces_eq_ceilDiv, width, ht, frameWidth]
  | _ => simp [parts, pieces_eq_ceilDiv, width, ht, frameWidth, addressedWidth]

theorem map_place_range (m : Message) : (List.range m.parts).map m.place = Place.sequence m.parts := by
  have hpos := m.parts_pos
  obtain ⟨n, hn⟩ | hone : (∃ n, m.parts = n + 2) ∨ m.parts = 1 := by
    rcases Nat.lt_or_ge 1 m.parts with h | h
    · exact .inl ⟨m.parts - 2, by omega⟩
    · exact .inr (by omega)
  · rw [hn, Place.sequence, List.range_succ, List.range_succ_eq_map, List.map_append, List.map_cons,
      List.map_map]
    have hfirst : m.place 0 = .first := by simp [place, hn]
    have hlast : m.place (n + 1) = .last := by simp [place, hn]
    have hmiddle : (List.range n).map (m.place ∘ Nat.succ) = List.replicate n .middle := by
      rw [List.eq_replicate_iff]
      refine ⟨by simp, fun p hp => ?_⟩
      obtain ⟨i, hi, rfl⟩ := List.mem_map.1 hp
      have hlt := List.mem_range.1 hi
      simp [place, hn, hlt]
    rw [hfirst, hmiddle, List.map_singleton, hlast, List.cons_append]
  · have honly : m.place 0 = .only := if_pos hone
    rw [hone]
    exact congrArg (List.cons · []) honly

/-! ### The calls -/

/-- One call with the next part of a message. -/
structure Call where
  /-- The cursor before it. -/
  cursor : Nat
  /-- The driver is ready for a frame. -/
  accepts : Bool
  /-- What comes of it. -/
  attempt : Attempt

/-- The frame that the driver accepts. -/
def Call.accepted (c : Call) : Option Frame := if c.accepts then c.attempt.offered else none

/-- The frame that the driver is told of as gone. -/
def Call.told (c : Call) : Option Frame := if c.attempt.sent then c.attempt.offered else none

/-- The calls of a driver that gives these answers, up to the one that completes the message. -/
def calls (streams : Bool) (m : Message) (t : Transmission) : List Bool → List Call
  | [] => []
  | a :: answers =>
    if m.completes t then []
    else ⟨t.cursor, a, (m.next streams t.cursor).attempt m t.cursor a⟩ ::
      calls streams m (m.offer streams t a) answers

theorem told_attempt (s : Segment) (m : Message) (cursor : Nat) (a : Bool) :
    Call.told ⟨cursor, a, s.attempt m cursor a⟩ = Call.accepted ⟨cursor, a, s.attempt m cursor a⟩ := by
  unfold Call.told Call.accepted
  cases s with
  | frame f length => rfl
  | dropped => cases a <;> rfl

/-- A call that fails leaves the cursor where it was. -/
theorem cursor_attempt {s : Segment} {cursor : Nat} {a : Bool}
    (h : (s.attempt m cursor a).sent = false) : (s.attempt m cursor a).cursor = cursor := by
  cases s with
  | frame f length => exact if_neg (Bool.eq_false_iff.1 h)
  | dropped => cases h

theorem mem_calls {c : Call} (hc : c ∈ m.calls streams t answers) :
    ∃ cursor a, c = ⟨cursor, a, (m.next streams cursor).attempt m cursor a⟩ := by
  induction answers generalizing t with
  | nil => cases hc
  | cons a answers ih =>
    rw [calls] at hc
    split at hc
    · cases hc
    · rcases List.mem_cons.1 hc with rfl | hc
      · exact ⟨_, _, rfl⟩
      · exact ih hc

theorem offer_of_completes (h : m.completes t = true) (a : Bool) : m.offer streams t a = t := if_pos h

theorem foldl_offer_of_completes (h : m.completes t = true) (answers : List Bool) :
    answers.foldl (m.offer streams) t = t := by
  induction answers with
  | nil => rfl
  | cons a answers ih => rw [List.foldl_cons, offer_of_completes h, ih]

/-- The frames that the driver is told of are those that the transmission counts as accepted. -/
theorem accepted_foldl_offer (streams : Bool) (m : Message) (t : Transmission) (answers : List Bool) :
    (answers.foldl (m.offer streams) t).accepted =
      t.accepted ++ (m.calls streams t answers).filterMap Call.told := by
  induction answers generalizing t with
  | nil => simp [calls]
  | cons a answers ih =>
    by_cases hdone : m.completes t = true
    · rw [foldl_offer_of_completes hdone, calls, if_pos hdone]
      simp
    · have hoffer : (m.offer streams t a).accepted = t.accepted ++
          (Call.told ⟨t.cursor, a, (m.next streams t.cursor).attempt m t.cursor a⟩).toList := by
        rw [offer, if_neg hdone, Call.told]
        dsimp only
        split
        · rfl
        · simp
      rw [List.foldl_cons, ih, hoffer, calls, if_neg hdone, List.append_assoc, List.filterMap_cons]
      split
      · rename_i hnone
        rw [hnone]
        rfl
      · rename_i f hsome
        rw [hsome]
        rfl

/-- Without streams the first call takes all stream data, and no frame leaves. -/
theorem transmit_dropped (ht : Transport.ofMti m.header.mti = .stream) (a : Bool) :
    m.transmit false (a :: answers) = ⟨m.header.count, 1, []⟩ := by
  have hfresh : ¬ m.completes {} = true := by simp [completes, isSent]
  have hfirst : m.offer false {} a = ⟨m.header.count, 1, []⟩ := by
    rw [offer, if_neg hfresh, next, ht]
    rfl
  have hdone : m.completes ⟨m.header.count, 1, []⟩ = true := by
    simp [completes, isSent, ht]
  rw [transmit, List.foldl_cons, hfirst, foldl_offer_of_completes hdone]

/-- As soon as the driver has been ready for all frames, the message is gone and they have been
accepted. -/
theorem transmit_of_parts_le (streams : Bool) (hm : m.header.count ≤ m.capacity)
    (h : m.parts ≤ answers.count true) :
    m.completes (m.transmit streams answers) = true ∧
      (m.transmit streams answers).accepted = m.framesOn streams := by
  by_cases hdrop : Transport.ofMti m.header.mti = .stream ∧ streams = false
  · obtain ⟨ht, rfl⟩ := hdrop
    have hne : answers ≠ [] := by
      rintro rfl
      exact Nat.not_le.2 m.parts_pos h
    obtain ⟨a, answers, rfl⟩ := List.exists_cons_of_ne_nil hne
    rw [transmit_dropped ht, framesOn, if_pos ⟨ht, rfl⟩]
    exact ⟨by simp [completes, isSent, ht], rfl⟩
  · have hs : Transport.ofMti m.header.mti = .stream → streams = true := fun ht =>
      Bool.eq_true_of_not_eq_false fun hno => hdrop ⟨ht, hno⟩
    have hdone := (completes_transmit_iff hs hm).2 h
    rw [framesOn, if_neg hdrop]
    exact ⟨hdone, accepted_of_completes hs hm hdone⟩

/-! ### Segmentation -/

/-- The answers of a driver that refuses some frames and then takes as many as the message has. -/
def patience (m : Message) (pattern : List Bool) : List Bool := pattern ++ List.replicate m.parts true

/-- What a driver sees of a message if its answers start with this pattern. -/
structure Segmented (streams : Bool) (m : Message) (pattern : List Bool) : Prop where
  /-- The calls end. -/
  completes : m.completes (m.transmit streams (m.patience pattern)) = true
  /-- The frames accepted do not depend on the pattern. -/
  accepted : (m.calls streams {} (m.patience pattern)).filterMap Call.accepted = m.framesOn streams
  /-- The driver is told of each of them once. -/
  told : (m.calls streams {} (m.patience pattern)).filterMap Call.told = m.framesOn streams
  /-- A call that fails leaves the cursor where it was. -/
  refused : ∀ c ∈ m.calls streams {} (m.patience pattern),
    c.attempt.sent = false → c.attempt.cursor = c.cursor
  /-- The number of frames. -/
  count : (m.framesOn streams).length = m.frameCount streams
  /-- One frame is the only one; more are a first one, some in the middle and a last one. -/
  places : (List.range (m.framesOn streams).length).map m.place =
    Place.sequence (m.framesOn streams).length
  /-- What stands in each frame. -/
  standard : ∀ i f, (m.framesOn streams)[i]? = some f → m.Standard i f

theorem standard_framesOn (hm : m.header.count ≤ m.capacity) {f : Frame}
    (hf : (m.framesOn streams)[i]? = some f) : m.Standard i f := by
  rw [framesOn] at hf
  split at hf
  · cases hf
  · obtain ⟨hi, rfl⟩ := List.getElem?_eq_some_iff.1 hf
    rw [length_frames] at hi
    have hpart : m.frames[i] = m.part i := by simp [frames]
    exact hpart ▸ standard_part hm hi

/-- **Segmentation.** A message leaves in the standard frames, whatever the driver refuses. -/
theorem segmented (hm : m.header.count ≤ m.capacity) (streams : Bool) (pattern : List Bool) :
    m.Segmented streams pattern := by
  have hready : m.parts ≤ (m.patience pattern).count true := by
    rw [patience, List.count_append, List.count_replicate_self]
    exact Nat.le_add_left ..
  obtain ⟨hdone, haccepted⟩ := transmit_of_parts_le streams hm hready
  have htold : (m.calls streams {} (m.patience pattern)).filterMap Call.told = m.framesOn streams := by
    rw [← haccepted, transmit, accepted_foldl_offer]
    rfl
  refine ⟨hdone, ?_, htold, ?_, length_framesOn streams m, ?_, fun i f => standard_framesOn hm⟩
  · rw [← htold]
    refine List.filterMap_congr fun c hc => ?_
    obtain ⟨cursor, a, rfl⟩ := mem_calls hc
    exact (told_attempt _ m cursor a).symm
  · intro c hc hsent
    obtain ⟨cursor, a, rfl⟩ := mem_calls hc
    exact cursor_attempt hsent
  · rw [framesOn]
    split
    · rfl
    · rw [length_frames, map_place_range]

/-- A datagram of three frames, the second of which is refused twice. -/
theorem segmented_datagram :
    let m := ((blank 72).load Mti.datagram 0xAAA 0 0xBBB 0).append (List.replicate 20 7)
    m.header.count ≤ m.capacity ∧ m.Segmented false [true, false, false] := by
  intro m
  have hm : m.header.count ≤ m.capacity := by decide
  exact ⟨hm, segmented hm false [true, false, false]⟩

/-- It is not true that all other messages leave in one frame: stream data leave in none if there are
no streams. -/
theorem stream_data_in_no_frame :
    ¬ ∀ (m : Message) (pattern : List Bool), m.header.count ≤ m.capacity →
      m.header.mti ≠ Mti.datagram → m.header.mti ≠ Mti.eventReportWithPayload →
      Mti.isAddressed m.header.mti = false →
      ((m.calls false {} (m.patience pattern)).filterMap Call.accepted).length = 1 := by
  intro h
  have hone := h (((blank 16).load Mti.streamData 0xAAA 0 0xBBB 0).append [0]) [] (by decide)
    (by decide) (by decide) (by decide)
  exact absurd hone (by decide)

end Message

end LayoutBus
