import LayoutBus.Wire.Kind

/-!
# Building frames

The frames of the alias protocol, and frames that carry message data.

* `Frame.checkId`, `Frame.reserveId`, `Frame.aliasMapDefinition`, `Frame.aliasMapReset` and
  `Frame.aliasMapEnquiry` always succeed: aliases are cut to 12 bits and node ids to 48.
* `Frame.messageData?` and `Frame.standard?` refuse a payload that is too long;
  `Frame.messageData` takes a proof that it is not.
-/

namespace LayoutBus.Frame

/-- A control frame. -/
def control (kind : ControlKind) (source : Nat) (payload : List UInt8) (h : payload.length ≤ 8) :
    Frame :=
  pack false 0 kind.code source payload h

theorem kind_control (k : ControlKind) (source : Nat) {p : List UInt8} (h : p.length ≤ 8) :
    (control k source p h).kind = .control k := by
  have hcode : k.code % 0x1000 = k.code := by
    cases k with
    | errorReport number => simp only [ControlKind.code]; omega
    | _ => rfl
  unfold kind control
  rw [isMessage_pack, typeCode_pack, field_pack, hcode, ControlKind.ofCode_code]
  rfl

theorem source_control (k : ControlKind) (source : Nat) {p : List UInt8} (h : p.length ≤ 8) :
    (control k source p h).source = source % 0x1000 :=
  source_pack h

/-- The check of `source` with the given number, which is taken into 4 .. 7; the four checks
carry the four slices of 12 bits of the node id, number 7 the highest. -/
def checkId (number source nodeId : Nat) : Frame :=
  let n := max 4 (min number 7)
  pack false n (nodeId >>> (12 * (n - 4))) source [] empty_le

section CheckId

variable {number source nodeId : Nat} (h : 4 ≤ number ∧ number ≤ 7)
include h

theorem checkId_eq : checkId number source nodeId =
    pack false number (nodeId >>> (12 * (number - 4))) source [] empty_le := by
  have hnumber : max 4 (min number 7) = number := by omega
  rw [checkId, hnumber]

theorem kind_checkId : (checkId number source nodeId).kind = .checkId number := by
  have hcode : number % 8 = number := by omega
  unfold kind
  rw [checkId_eq h, isMessage_pack, typeCode_pack, hcode, if_neg Bool.false_ne_true,
    if_neg (by omega)]

theorem source_checkId : (checkId number source nodeId).source = source % 0x1000 := by
  rw [checkId_eq h, source_pack]

theorem field_checkId :
    (checkId number source nodeId).field = nodeId >>> (12 * (number - 4)) % 0x1000 := by
  rw [checkId_eq h, field_pack]

end CheckId

/-- The claim of an alias. -/
def reserveId (source : Nat) : Frame := control .reserveId source [] empty_le

/-- The alias `source` is now in use for `nodeId`. -/
def aliasMapDefinition (source nodeId : Nat) : Frame :=
  control .aliasMapDefinition source (BigEndian.encode 6 nodeId) (by simp)

/-- The alias `source` is no longer in use for `nodeId`. -/
def aliasMapReset (source nodeId : Nat) : Frame :=
  control .aliasMapReset source (BigEndian.encode 6 nodeId) (by simp)

/-- Asks for the alias of one node, or for those of all nodes. -/
def aliasMapEnquiry (source : Nat) : Option Nat → Frame
  | some nodeId => control .aliasMapEnquiry source (BigEndian.encode 6 nodeId) (by simp)
  | none => control .aliasMapEnquiry source [] empty_le

/-- A frame with message data.  The field is the message type of a standard message and the
destination alias of a datagram or a stream. -/
def messageData (type : MessageType) (field source : Nat) (payload : List UInt8)
    (h : payload.length ≤ 8) : Frame :=
  pack true type.code field source payload h

/-- A frame with message data, if the payload fits. -/
def messageData? (type : MessageType) (field source : Nat) (payload : List UInt8) : Option Frame :=
  if h : payload.length ≤ 8 then some (messageData type field source payload h) else none

/-- A frame of a standard message, if the payload fits. -/
def standard? (mti source : Nat) (payload : List UInt8) : Option Frame :=
  messageData? .standard mti source payload

end LayoutBus.Frame
