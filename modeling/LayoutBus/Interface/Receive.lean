import LayoutBus.Alias.Answer
import LayoutBus.Interface.Reassembly

/-!
# Receiving a frame

A control frame is answered from the alias table; a frame with message data joins its message.
Frames directed to an alias that is not ours are left alone.

* `Resources.receive` takes any frame from the bus.
-/

namespace LayoutBus.Resources

/-! ### Control frames -/

/-- Another node checks an alias. -/
def receiveCheck (r : Resources) (f : Frame) : Resources :=
  { r with outbox := r.outbox.postAll (r.aliases.objection f.source) }

/-- Another node uses its alias in a control frame. -/
def receiveClaim (r : Resources) (f : Frame) : Resources :=
  { r with
    outbox := r.outbox.postAll (r.aliases.conflict f.source)
    aliases := r.aliases.noteConflict f.source }

/-- Another node asks for aliases. -/
def receiveEnquiry (r : Resources) (f : Frame) : Resources :=
  if (r.aliases.find? f.source).isSome then r.receiveClaim f
  else { r with outbox := r.outbox.postAll (r.aliases.definitions f.payload) }

/-- A control frame. -/
def receiveControl (r : Resources) (f : Frame) : ControlKind → Resources
  | .aliasMapEnquiry => r.receiveEnquiry f
  | .reserveId | .aliasMapDefinition | .aliasMapReset | .errorReport _ => r.receiveClaim f

/-! ### Message data -/

/-- The frame is directed to one of our nodes. -/
def isForUs (r : Resources) (f : Frame) : Bool := (r.aliases.find? f.dest).isSome

/-- A frame of a standard message that is directed to one of our nodes. -/
def receiveAddressed (r : Resources) (f : Frame) : Resources :=
  let isNodeInfo : Bool := f.mti = Mti.nodeInfoReply
  if f.framing = Framing.only then
    if isNodeInfo then r.acceptUnmarked f else r.acceptOnly f addressedOffset .basic
  else if f.framing = Framing.first then
    r.acceptFirst f addressedOffset (if isNodeInfo then .snip else .basic)
  else if f.framing = Framing.middle then r.acceptMiddle f addressedOffset
  else if f.framing = Framing.final then r.acceptLast f addressedOffset
  else r

/-- A frame of a standard message that is directed to all nodes. -/
def receiveGlobal (r : Resources) (f : Frame) : Resources :=
  if f.field = Mti.eventReportFirst then r.acceptFirst f 0 .snip
  else if f.field = Mti.eventReportMiddle then r.acceptMiddle f 0
  else if f.field = Mti.eventReportLast then r.acceptLast f 0
  else r.acceptOnly f 0 .basic

/-- A frame of stream data. -/
def receiveStream (streams : Bool) (r : Resources) (f : Frame) : Resources :=
  if streams && r.isForUs f then r.acceptOnly f 0 .stream else r

/-- A frame with message data. -/
def receiveMessage (streams : Bool) (r : Resources) (f : Frame) (t : MessageType) : Resources :=
  match t with
  | .standard =>
    if f.isAddressed then if r.isForUs f then r.receiveAddressed f else r
    else r.receiveGlobal f
  | .datagramOnly => if r.isForUs f then r.acceptOnly f 0 .basic else r
  | .datagramFirst => if r.isForUs f then r.acceptFirst f 0 .datagram else r
  | .datagramMiddle => if r.isForUs f then r.acceptMiddle f 0 else r
  | .datagramFinal => if r.isForUs f then r.acceptLast f 0 else r
  | .stream => r.receiveStream streams f
  | .reserved => r

/-- A frame from the bus. -/
def receive (streams : Bool) (r : Resources) (f : Frame) : Resources :=
  match f.kind with
  | .checkId number => if 4 ≤ number ∧ number ≤ 7 then r.receiveCheck f else r
  | .control kind => r.receiveControl f kind
  | .unknownControl _ => r
  | .message type => r.receiveMessage streams f type

end LayoutBus.Resources
