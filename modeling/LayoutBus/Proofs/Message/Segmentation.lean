import LayoutBus.Message.Segment
import Mathlib.Data.List.Basic

/-!
# The frames of a message

A message is offered to a driver part by part until nothing is left to send, and a part that the
driver refuses is offered again.  The frames that the driver accepts do not depend on what it
refuses: the cursor only moves with the frames that have gone.

* `Message.parts` : how many frames a message has.
* `Message.frames` : its frames.
* `Message.transmit_eq` : where a transmission stands after any answers of the driver.
* `Message.accepted_of_completes` : a transmission that is complete has sent the frames of the message.
* `Message.take_cursorAt_parts` : the frames carry the payload, piece by piece.
-/

namespace LayoutBus

/-- A place in the message. -/
inductive Place where
  | only
  | first
  | middle
  | last
deriving DecidableEq, Repr

namespace Place

/-- How the frames of an addressed message say where they stand. -/
def framing : Place → Nat
  | only => Framing.only
  | first => Framing.first
  | middle => Framing.middle
  | last => Framing.final

/-- How the frames of an event report say where they stand. -/
def eventReportMti : Place → Nat
  | first => Mti.eventReportFirst
  | middle => Mti.eventReportMiddle
  | only | last => Mti.eventReportLast

/-- How the frames of a datagram say where they stand. -/
def datagramType : Place → MessageType
  | only => .datagramOnly
  | first => .datagramFirst
  | middle => .datagramMiddle
  | last => .datagramFinal

/-- The place stands in the upper half of a byte. -/
theorem framing_lt (p : Place) : p.framing % 16 = 0 ∧ p.framing < 256 := by
  cases p <;> decide

end Place

/-- How far the transmission of a message has come. -/
structure Transmission where
  cursor : Nat := 0
  /-- The parts that are gone. -/
  sent : Nat := 0
  /-- The frames that the driver has accepted. -/
  accepted : List Frame := []
deriving DecidableEq, Repr

namespace Message

/-! ### Offering parts to a driver -/

/-- The transmission is complete. -/
def completes (m : Message) (t : Transmission) : Bool := m.isSent t.cursor t.sent

/-- Offers the next part to a driver that accepts a frame or not. -/
def offer (streams : Bool) (m : Message) (t : Transmission) (accepts : Bool) : Transmission :=
  if m.completes t then t
  else
    let a := (m.next streams t.cursor).attempt m t.cursor accepts
    if a.sent then ⟨a.cursor, t.sent + 1, t.accepted ++ a.offered.toList⟩
    else { t with cursor := a.cursor }

/-- The transmission to a driver that gives these answers. -/
def transmit (streams : Bool) (m : Message) (answers : List Bool) : Transmission :=
  answers.foldl (m.offer streams) {}

/-! ### The frames in closed form -/

/-- Payload bytes for which a frame of the message has room. -/
def width (m : Message) : Nat :=
  match Transport.ofMti m.header.mti with
  | .addressed => addressedWidth
  | _ => frameWidth

/-- How many frames it takes to carry the payload. -/
def pieces (m : Message) : Nat := (m.header.count + m.width - 1) / m.width

/-- How many frames the message has. -/
def parts (m : Message) : Nat :=
  match Transport.ofMti m.header.mti with
  | .global => 1
  | .eventReport => if m.header.count = 0 then 1 else max 2 m.pieces
  | .addressed | .datagram | .stream => max 1 m.pieces

/-- The place of frame `i`. -/
def place (m : Message) (i : Nat) : Place :=
  if m.parts = 1 then .only
  else if i = 0 then .first
  else if i + 1 < m.parts then .middle
  else .last

/-- The cursor before frame `i`. -/
def cursorAt (m : Message) (i : Nat) : Nat := min (i * m.width) m.header.count

/-- The frame that carries the chunk at `cursor`. -/
def frameAt (m : Message) (cursor : Nat) : Frame :=
  match Transport.ofMti m.header.mti with
  | .addressed => m.addressedFrame cursor
  | .global => m.plainFrame .standard m.header.mti cursor
  | .eventReport => m.plainFrame .standard (m.eventReportMti cursor) cursor
  | .datagram => m.plainFrame (m.datagramType cursor) m.header.dest cursor
  | .stream => m.plainFrame .stream m.header.dest cursor

/-- Frame `i` of the message. -/
def part (m : Message) (i : Nat) : Frame := m.frameAt (m.cursorAt i)

/-- The frames of the message. -/
def frames (m : Message) : List Frame := (List.range m.parts).map m.part

/-- The transmission when `k` parts are gone. -/
def progress (m : Message) (k : Nat) : Transmission :=
  ⟨m.cursorAt k, k, (List.range k).map m.part⟩

variable {m : Message} {streams : Bool} {answers : List Bool} {i k : Nat}

theorem width_pos (m : Message) : 0 < m.width := by
  unfold width
  split <;> decide

theorem width_le (m : Message) : m.width ≤ frameWidth := by
  unfold width
  split <;> decide

theorem parts_pos (m : Message) : 0 < m.parts := by
  unfold parts
  split
  · exact Nat.one_pos
  · split <;> omega
  all_goals omega

@[simp] theorem cursorAt_zero (m : Message) : m.cursorAt 0 = 0 := by
  simp [cursorAt]

/-- The frames before number `k` leave nothing of the payload behind. -/
theorem count_le_mul_iff : m.header.count ≤ k * m.width ↔ m.pieces ≤ k := by
  unfold pieces
  rw [Nat.div_le_iff_le_mul (width_pos m)]
  have := width_pos m
  omega

theorem lt_pieces_iff : k < m.pieces ↔ k * m.width < m.header.count := by
  rw [← Nat.not_le, ← count_le_mul_iff, Nat.not_le]

theorem pieces_eq_zero (hzero : m.header.count = 0) : m.pieces = 0 := by
  rw [← Nat.le_zero, ← count_le_mul_iff, hzero]
  exact Nat.zero_le _

theorem pieces_le_parts (hg : Transport.ofMti m.header.mti ≠ .global) : m.pieces ≤ m.parts := by
  unfold parts
  split
  · rename_i ht
    exact absurd ht hg
  · split
    · rename_i hzero
      exact (pieces_eq_zero hzero).symm ▸ Nat.zero_le 1
    · exact Nat.le_max_right ..
  all_goals exact Nat.le_max_right ..

/-- A transmission is complete when all parts are gone. -/
theorem completes_progress_iff : m.completes (m.progress k) = true ↔ m.parts ≤ k := by
  have hcursor : m.header.count ≤ m.cursorAt k ↔ m.pieces ≤ k := by
    rw [← count_le_mul_iff]
    unfold cursorAt
    omega
  unfold completes isSent progress parts
  simp only [Bool.and_eq_true, bne_iff_ne, ne_eq]
  cases Transport.ofMti m.header.mti with
  | global =>
    simp only [and_true]
    omega
  | eventReport =>
    simp only [Bool.and_eq_true, Bool.or_eq_true, decide_eq_true_eq, beq_iff_eq, hcursor]
    by_cases hzero : m.header.count = 0
    · have hnone := pieces_eq_zero hzero
      rw [if_pos hzero]
      omega
    · rw [if_neg hzero]
      omega
  | addressed | datagram | stream =>
    simp only [decide_eq_true_eq, hcursor]
    omega

/-- The part at a cursor is a frame, unless it is stream data on an interface without streams. -/
theorem next_eq (hs : Transport.ofMti m.header.mti = .stream → streams = true) (cursor : Nat) :
    m.next streams cursor = .frame (m.frameAt cursor) (m.chunk cursor m.width).length := by
  unfold next segment frameAt width
  cases ht : Transport.ofMti m.header.mti with
  | stream => simp only [hs ht, if_true]
  | _ => rfl

theorem length_payload_of_le (hm : m.header.count ≤ m.capacity) :
    m.payload.length = m.header.count := by
  rw [length_payload, start, Nat.min_eq_left hm]

theorem cursorAt_succ (hm : m.header.count ≤ m.capacity) (i : Nat) :
    m.cursorAt (i + 1) = m.cursorAt i + (m.chunk (m.cursorAt i) m.width).length := by
  unfold chunk cursorAt
  rw [List.length_take, List.length_drop, length_payload_of_le hm, Nat.succ_mul]
  omega

/-- A frame that is accepted makes one step of progress, and one that is refused makes none. -/
theorem offer_progress (hs : Transport.ofMti m.header.mti = .stream → streams = true)
    (hm : m.header.count ≤ m.capacity) (hk : k ≤ m.parts) (accepts : Bool) :
    m.offer streams (m.progress k) accepts =
      m.progress (min (k + if accepts then 1 else 0) m.parts) := by
  unfold offer
  by_cases hdone : m.parts ≤ k
  · rw [if_pos (completes_progress_iff.2 hdone)]
    congr 1
    omega
  · rw [if_neg fun h => hdone (completes_progress_iff.1 h)]
    simp only [next_eq hs, Segment.attempt]
    cases accepts with
    | false =>
      -- the cursor stays, so the same frame is offered again
      simp only [Bool.false_eq_true, if_false, Nat.add_zero, Nat.min_eq_left hk]
    | true =>
      have hnext : min (k + 1) m.parts = k + 1 := by omega
      simp only [if_true, hnext]
      unfold progress
      rw [cursorAt_succ hm, List.range_succ, List.map_append]
      rfl

theorem foldl_offer_progress (hs : Transport.ofMti m.header.mti = .stream → streams = true)
    (hm : m.header.count ≤ m.capacity) (hk : k ≤ m.parts) :
    answers.foldl (m.offer streams) (m.progress k) =
      m.progress (min (k + answers.count true) m.parts) := by
  induction answers generalizing k with
  | nil => simp [Nat.min_eq_left hk]
  | cons a answers ih =>
    rw [List.foldl_cons, offer_progress hs hm hk, ih (Nat.min_le_right ..), List.count_cons]
    congr 1
    cases a <;> simp <;> omega

theorem progress_zero (m : Message) : m.progress 0 = {} := by
  simp [progress]

/-- Where a transmission stands after any answers of the driver: as many frames of the message are
gone as the driver was ready to accept. -/
theorem transmit_eq (hs : Transport.ofMti m.header.mti = .stream → streams = true)
    (hm : m.header.count ≤ m.capacity) (answers : List Bool) :
    m.transmit streams answers = m.progress (min (answers.count true) m.parts) := by
  unfold transmit
  rw [← m.progress_zero, foldl_offer_progress hs hm (Nat.zero_le _), Nat.zero_add]

/-- A transmission is complete as soon as the driver has accepted as many frames as the message
has. -/
theorem completes_transmit_iff (hs : Transport.ofMti m.header.mti = .stream → streams = true)
    (hm : m.header.count ≤ m.capacity) :
    m.completes (m.transmit streams answers) = true ↔ m.parts ≤ answers.count true := by
  rw [transmit_eq hs hm, completes_progress_iff]
  omega

/-- A complete transmission has sent the frames of the message, whatever the driver refused. -/
theorem accepted_of_completes (hs : Transport.ofMti m.header.mti = .stream → streams = true)
    (hm : m.header.count ≤ m.capacity) (h : m.completes (m.transmit streams answers) = true) :
    (m.transmit streams answers).accepted = m.frames := by
  have hall := (completes_transmit_iff hs hm).1 h
  rw [transmit_eq hs hm, Nat.min_eq_right hall]
  rfl

/-! ### The places of the frames -/

theorem cursorAt_lt_width_iff (hw : m.width < m.header.count) : m.cursorAt i < m.width ↔ i = 0 := by
  unfold cursorAt
  cases i with
  | zero => simp [width_pos]
  | succ i =>
    rw [Nat.succ_mul]
    omega

/-- Something is left behind a frame as long as there are pieces. -/
theorem end_lt_iff (hm : m.header.count ≤ m.capacity) :
    m.cursorAt i + (m.chunk (m.cursorAt i) m.width).length < m.header.count ↔ i + 1 < m.pieces := by
  rw [← cursorAt_succ hm, lt_pieces_iff]
  unfold cursorAt
  omega

/-- The place of frame `i`, for messages that fill their frames. -/
theorem place_eq_of_parts (hm : m.header.count ≤ m.capacity) (hp : m.parts = max 1 m.pieces) :
    m.place i =
      if m.header.count ≤ m.width then .only
      else if m.cursorAt i < m.width then .first
      else if m.cursorAt i + (m.chunk (m.cursorAt i) m.width).length < m.header.count then .middle
      else .last := by
  have hone : m.header.count ≤ m.width ↔ m.parts = 1 := by
    have hpieces : m.header.count ≤ 1 * m.width ↔ m.pieces ≤ 1 := count_le_mul_iff
    rw [Nat.one_mul] at hpieces
    omega
  unfold place
  by_cases hcount : m.header.count ≤ m.width
  · rw [if_pos (hone.1 hcount), if_pos hcount]
  · have hmid : i + 1 < m.parts ↔
        m.cursorAt i + (m.chunk (m.cursorAt i) m.width).length < m.header.count := by
      rw [end_lt_iff hm]
      omega
    rw [if_neg fun h => hcount (hone.2 h), if_neg hcount]
    simp only [cursorAt_lt_width_iff (Nat.not_le.1 hcount), hmid]

theorem addressedFraming_cursorAt (ht : Transport.ofMti m.header.mti = .addressed)
    (hm : m.header.count ≤ m.capacity) (i : Nat) :
    m.addressedFraming (m.cursorAt i) = (m.place i).framing := by
  have hwidth : m.width = addressedWidth := by rw [width, ht]
  have hparts : m.parts = max 1 m.pieces := by rw [parts, ht]
  unfold addressedFraming
  rw [place_eq_of_parts hm hparts, hwidth]
  repeat' split
  all_goals rfl

theorem datagramType_cursorAt (ht : Transport.ofMti m.header.mti = .datagram)
    (hm : m.header.count ≤ m.capacity) (i : Nat) :
    m.datagramType (m.cursorAt i) = (m.place i).datagramType := by
  have hwidth : m.width = frameWidth := by rw [width, ht]
  have hparts : m.parts = max 1 m.pieces := by rw [parts, ht]
  unfold datagramType
  rw [place_eq_of_parts hm hparts, hwidth]
  repeat' split
  all_goals rfl

theorem eventReportMti_cursorAt (ht : Transport.ofMti m.header.mti = .eventReport)
    (hm : m.header.count ≤ m.capacity) (i : Nat) :
    m.eventReportMti (m.cursorAt i) = (m.place i).eventReportMti := by
  have hwidth : m.width = frameWidth := by rw [width, ht]
  have hend := end_lt_iff (i := i) hm
  rw [hwidth] at hend
  unfold eventReportMti place parts
  rw [ht]
  simp only [hend]
  by_cases hzero : m.header.count = 0
  · -- the empty report is a last frame alone
    have hnone := pieces_eq_zero hzero
    rw [if_neg (by omega), if_neg (by omega), if_pos (if_pos hzero)]
    rfl
  · have hcursor : m.cursorAt i = 0 ∧ 0 < m.header.count ↔ i = 0 := by
      have := width_pos m
      unfold cursorAt
      cases i with
      | zero => simp; omega
      | succ i =>
        rw [Nat.succ_mul]
        omega
    have hmany : ¬ max 2 m.pieces = 1 := by omega
    simp only [hcursor, hzero, hmany, if_false]
    by_cases hi : i = 0
    · simp only [hi, if_true]
      rfl
    · have hmid : i + 1 < max 2 m.pieces ↔ i + 1 < m.pieces := by omega
      simp only [hi, hmid, if_false]
      split <;> rfl

/-! ### The payload, piece by piece -/

theorem take_cursorAt_succ (hm : m.header.count ≤ m.capacity) (i : Nat) :
    m.payload.take (m.cursorAt (i + 1)) =
      m.payload.take (m.cursorAt i) ++ m.chunk (m.cursorAt i) m.width := by
  unfold chunk
  rw [← List.take_add, List.take_eq_take_iff, length_payload_of_le hm]
  unfold cursorAt
  rw [Nat.succ_mul]
  omega

/-- The frames of a message have room for its payload, for a message to all nodes if it is short. -/
theorem count_le_parts_mul (hg : Transport.ofMti m.header.mti = .global → m.header.count ≤ frameWidth) :
    m.header.count ≤ m.parts * m.width := by
  by_cases hglobal : Transport.ofMti m.header.mti = .global
  · unfold parts width
    rw [hglobal, Nat.one_mul]
    exact hg hglobal
  · rw [count_le_mul_iff]
    exact pieces_le_parts hglobal

theorem take_cursorAt_parts (hm : m.header.count ≤ m.capacity)
    (hg : Transport.ofMti m.header.mti = .global → m.header.count ≤ frameWidth) :
    m.payload.take (m.cursorAt m.parts) = m.payload := by
  refine List.take_of_length_le ?_
  rw [length_payload_of_le hm]
  have hall := count_le_parts_mul hg
  unfold cursorAt
  omega

end Message

end LayoutBus
