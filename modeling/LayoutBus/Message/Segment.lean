import LayoutBus.Message.Basic
import LayoutBus.Wire.Build

/-!
# Messages as frames

A message leaves as one or more frames.  A cursor says how much of the payload is gone; it moves
when a frame has been accepted for transmission, so a refused frame is simply offered again.

* `Transport.ofMti` chooses how a message travels.
* `Message.segment` is the next part of a message: a frame with some of the payload, or, for
  stream data on an interface without streams, the whole rest without a frame.
* `Message.isSent` says that nothing is left to send.
-/

namespace LayoutBus

/-- How a message travels. -/
inductive Transport where
  /-- To one node, with its alias and the place in the message in front of six data bytes. -/
  | addressed
  /-- To all nodes, in one frame. -/
  | global
  /-- To all nodes, in several frames told apart by their message types. -/
  | eventReport
  /-- To one node, in frames told apart by their frame types. -/
  | datagram
  /-- To one node, in frames that are all alike. -/
  | stream
deriving DecidableEq, Repr

/-- How messages of a type travel. -/
def Transport.ofMti (mti : Nat) : Transport :=
  if mti = Mti.datagram then .datagram
  else if mti = Mti.eventReportWithPayload then .eventReport
  else if mti = Mti.streamData then .stream
  else if Mti.isAddressed mti then .addressed
  else .global

/-- The next part of a message. -/
inductive Segment where
  /-- A frame, which carries `length` bytes of the payload. -/
  | frame (frame : Frame) (length : Nat)
  /-- The rest of the payload, which is dropped. -/
  | dropped
deriving DecidableEq, Repr

namespace Message

/-- At most `width` payload bytes from `cursor` on. -/
def chunk (m : Message) (cursor width : Nat) : List UInt8 := (m.payload.drop cursor).take width

theorem length_chunk_le (m : Message) (cursor width : Nat) :
    (m.chunk cursor width).length ≤ width :=
  List.length_take_le ..

/-- Data bytes in a frame of an addressed message. -/
def addressedWidth : Nat := 6

/-- Data bytes in any other frame. -/
def frameWidth : Nat := 8

/-- The place in the message, and the destination alias, in front of the data. -/
def addressedPayload (framing dest : Nat) (data : List UInt8) : List UInt8 :=
  UInt8.ofNat (framing + dest / 256 % 16) :: UInt8.ofNat dest :: data

/-- The place in an addressed message of the chunk at `cursor`. -/
def addressedFraming (m : Message) (cursor : Nat) : Nat :=
  if m.header.count ≤ addressedWidth then Framing.only
  else if cursor < addressedWidth then Framing.first
  else if cursor + (m.chunk cursor addressedWidth).length < m.header.count then Framing.middle
  else Framing.final

/-- The message type in the identifier that carries the chunk at `cursor` of an event report. -/
def eventReportMti (m : Message) (cursor : Nat) : Nat :=
  if cursor = 0 ∧ 0 < m.header.count then Mti.eventReportFirst
  else if cursor + (m.chunk cursor frameWidth).length < m.header.count then Mti.eventReportMiddle
  else Mti.eventReportLast

/-- The frame type that carries the chunk at `cursor` of a datagram. -/
def datagramType (m : Message) (cursor : Nat) : MessageType :=
  if m.header.count ≤ frameWidth then .datagramOnly
  else if cursor < frameWidth then .datagramFirst
  else if cursor + (m.chunk cursor frameWidth).length < m.header.count then .datagramMiddle
  else .datagramFinal

/-- The frame that carries the chunk at `cursor` of an addressed message. -/
def addressedFrame (m : Message) (cursor : Nat) : Frame :=
  .messageData .standard m.header.mti m.header.source
    (addressedPayload (m.addressedFraming cursor) m.header.dest (m.chunk cursor addressedWidth))
    (Nat.add_le_add_right (length_chunk_le m cursor addressedWidth) 2)

/-- A frame with the plain chunk at `cursor`. -/
def plainFrame (m : Message) (type : MessageType) (field cursor : Nat) : Frame :=
  .messageData type field m.header.source (m.chunk cursor frameWidth) (length_chunk_le ..)

/-- The part of the message at `cursor`, if it travels in the given way. -/
def segment (streams : Bool) (m : Message) (t : Transport) (cursor : Nat) : Segment :=
  match t with
  | .addressed => .frame (m.addressedFrame cursor) (m.chunk cursor addressedWidth).length
  | .global =>
    .frame (m.plainFrame .standard m.header.mti cursor) (m.chunk cursor frameWidth).length
  | .eventReport =>
    .frame (m.plainFrame .standard (m.eventReportMti cursor) cursor)
      (m.chunk cursor frameWidth).length
  | .datagram =>
    .frame (m.plainFrame (m.datagramType cursor) m.header.dest cursor)
      (m.chunk cursor frameWidth).length
  | .stream =>
    if streams then
      .frame (m.plainFrame .stream m.header.dest cursor) (m.chunk cursor frameWidth).length
    else .dropped

/-- The part of the message at `cursor`. -/
def next (streams : Bool) (m : Message) (cursor : Nat) : Segment :=
  m.segment streams (.ofMti m.header.mti) cursor

/-- Nothing is left to send at `cursor`, after `sent` parts. -/
def isSent (m : Message) (cursor sent : Nat) : Bool :=
  sent != 0 &&
    match Transport.ofMti m.header.mti with
    | .eventReport => decide (m.header.count ≤ cursor) && (decide (2 ≤ sent) || m.header.count == 0)
    | .datagram | .stream | .addressed => decide (m.header.count ≤ cursor)
    | .global => true

end Message

/-- The result of offering a part of a message. -/
structure Attempt where
  /-- The part is gone. -/
  sent : Bool
  /-- The cursor afterwards. -/
  cursor : Nat
  /-- The frame that was offered. -/
  offered : Option Frame
deriving DecidableEq, Repr

/-- Offers a part of message `m` at `cursor` to a driver that accepts a frame or not. -/
def Segment.attempt (s : Segment) (m : Message) (cursor : Nat) (accepted : Bool) : Attempt :=
  match s with
  | .frame f length => ⟨accepted, if accepted then cursor + length else cursor, some f⟩
  | .dropped => ⟨true, m.header.count, none⟩

end LayoutBus
