import LayoutBus.Wire.Codes
import LayoutBus.Wire.Frame

/-!
# What a frame is

The identifier says what a frame is for.  Without the message bit, a type other than zero is a
check of an alias and type zero a control frame, told apart by its field.  With the message bit,
the type says how the frame takes part in a message.

* `Frame.kind` classifies a frame.
* `Frame.dest` and `Frame.mti` read the destination and the message type from wherever this kind
  of frame carries them.
* `ControlKind.code` and `MessageType.code` are the numbers on the wire; `ControlKind.ofCode` and
  `MessageType.ofCode` read them.
-/

namespace LayoutBus

/-- The control frames that the field tells apart. -/
inductive ControlKind where
  /-- An alias is claimed. -/
  | reserveId
  /-- An alias is now in use for a node id. -/
  | aliasMapDefinition
  /-- Asks who uses which alias. -/
  | aliasMapEnquiry
  /-- An alias is given up. -/
  | aliasMapReset
  /-- A node reports an error. -/
  | errorReport (number : Fin 4)
deriving DecidableEq, Repr

/-- How a frame with the message bit takes part in a message. -/
inductive MessageType where
  /-- Not assigned. -/
  | reserved
  /-- A message other than a datagram or a stream, with its type in the field. -/
  | standard
  /-- A datagram of one frame. -/
  | datagramOnly
  /-- The first frame of a datagram. -/
  | datagramFirst
  /-- A frame inside a datagram. -/
  | datagramMiddle
  /-- The last frame of a datagram. -/
  | datagramFinal
  /-- Stream data. -/
  | stream
deriving DecidableEq, Repr

/-- What a frame is. -/
inductive FrameKind where
  /-- A check of an alias, with its number. -/
  | checkId (number : Nat)
  /-- A control frame. -/
  | control (kind : ControlKind)
  /-- A control frame whose field is not assigned. -/
  | unknownControl (field : Nat)
  /-- A frame that carries message data. -/
  | message (type : MessageType)
deriving DecidableEq, Repr

/-- Why a number is not the code of a control frame. -/
inductive FrameError where
  /-- The number is not assigned. -/
  | unknownControl (field : Nat)
deriving DecidableEq, Repr

/-- The text of the error. -/
def FrameError.message : FrameError → String
  | .unknownControl field => s!"Received a control frame with an unknown type field ({field})"

namespace ControlKind

/-- The field of the control frame. -/
def code : ControlKind → Nat
  | reserveId => 0x700
  | aliasMapDefinition => 0x701
  | aliasMapEnquiry => 0x702
  | aliasMapReset => 0x703
  | errorReport number => 0x710 + number

/-- The control frame with this field. -/
def ofCode (field : Nat) : Except FrameError ControlKind :=
  match field with
  | 0x700 => .ok reserveId
  | 0x701 => .ok aliasMapDefinition
  | 0x702 => .ok aliasMapEnquiry
  | 0x703 => .ok aliasMapReset
  | 0x710 => .ok (errorReport 0)
  | 0x711 => .ok (errorReport 1)
  | 0x712 => .ok (errorReport 2)
  | 0x713 => .ok (errorReport 3)
  | _ => .error (.unknownControl field)

theorem ofCode_code (k : ControlKind) : ofCode k.code = .ok k := by
  match k with
  | reserveId | aliasMapDefinition | aliasMapEnquiry | aliasMapReset => rfl
  | errorReport 0 | errorReport 1 | errorReport 2 | errorReport 3 => rfl

end ControlKind

namespace MessageType

/-- The type in the identifier. -/
def code : MessageType → Nat
  | reserved => 0
  | standard => 1
  | datagramOnly => 2
  | datagramFirst => 3
  | datagramMiddle => 4
  | datagramFinal => 5
  | stream => 7

/-- The message type with this type in the identifier; what is not assigned is reserved. -/
def ofCode : Nat → MessageType
  | 1 => standard
  | 2 => datagramOnly
  | 3 => datagramFirst
  | 4 => datagramMiddle
  | 5 => datagramFinal
  | 7 => stream
  | _ => reserved

theorem ofCode_code (t : MessageType) : ofCode t.code = t := by cases t <;> rfl

theorem code_lt (t : MessageType) : t.code < 8 := by cases t <;> decide

end MessageType

namespace Frame

/-- What the frame is. -/
def kind (f : Frame) : FrameKind :=
  if f.isMessage then .message (.ofCode f.typeCode)
  else if f.typeCode = 0 then
    match ControlKind.ofCode f.field with
    | .ok k => .control k
    | .error _ => .unknownControl f.field
  else .checkId f.typeCode

/-- The frame belongs to a standard message that is directed to one node, whose alias leads the
payload. -/
def isAddressed (f : Frame) : Bool :=
  f.kind == .message .standard && f.field / Identifier.destBit % 2 == 1

/-- The destination alias; zero for frames without one. -/
def dest (f : Frame) : Nat :=
  match f.kind with
  | .message .standard =>
    if f.isAddressed then
      match f.payload with
      | high :: low :: _ => high.toNat % 16 * 256 + low.toNat
      | _ => 0
    else 0
  | .message .datagramOnly | .message .datagramFirst | .message .datagramMiddle
  | .message .datagramFinal | .message .stream => f.field
  | _ => 0

/-- The upper half of the first payload byte, in which the frames of an addressed message say
where in the message they stand. -/
def framing (f : Frame) : Nat :=
  match f.payload with
  | [] => 0
  | b :: _ => b.toNat / 16 * 16

/-- The message type of the message that the frame belongs to; zero if it belongs to none. -/
def mti (f : Frame) : Nat :=
  match f.kind with
  | .message .standard =>
    if f.field = Mti.eventReportFirst ∨ f.field = Mti.eventReportMiddle ∨
        f.field = Mti.eventReportLast then
      Mti.eventReportWithPayload
    else f.field
  | .message .datagramOnly | .message .datagramFirst | .message .datagramMiddle
  | .message .datagramFinal => Mti.datagram
  | .message .stream => Mti.streamData
  | _ => 0

end Frame

/-- Values of `Frame.framing` in the frames of an addressed message. -/
def Framing.only : Nat := 0x00
def Framing.first : Nat := 0x10
def Framing.final : Nat := 0x20
def Framing.middle : Nat := 0x30

end LayoutBus
