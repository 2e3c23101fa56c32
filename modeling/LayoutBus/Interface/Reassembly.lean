import LayoutBus.Interface.Resources
import LayoutBus.Wire.Build

/-!
# Frames into messages

A message that fits in one frame is delivered at once.  One that does not is put under assembly
by its first frame, grows with the frames in the middle, and is delivered by its last frame.
What cannot be taken is answered by a rejection, which is delivered like a message, directed from
the destination of the frame to its source.

* `Resources.acceptOnly`, `Resources.acceptFirst`, `Resources.acceptMiddle` and
  `Resources.acceptLast` take a frame by its place in the message.
* `Resources.acceptUnmarked` takes a frame of a node information reply that does not say its
  place: the reply ends with its sixth zero byte.
* `Resources.age` gives up messages that have waited too long.
-/

namespace LayoutBus

/-- The message that the frame belongs to. -/
def Frame.assemblyKey (f : Frame) : AssemblyKey := ⟨f.source, f.dest, f.mti⟩

/-- The message data of the frame, which start at `offset` of its payload. -/
def Frame.dataFrom (f : Frame) (offset : Nat) : List UInt8 := f.payload.drop offset

/-- Where the data of an addressed message start in its frames. -/
def addressedOffset : Nat := 2

/-- Zero bytes in a node information reply. -/
def nodeInfoZeros : Nat := 6

/-- The message type that rejects a frame. -/
def Frame.rejectionMti (f : Frame) : Nat :=
  if f.mti = Mti.datagram then Mti.datagramRejected else Mti.optionalInteractionRejected

/-- The message in a buffer that rejects the frame for the reason `code`. -/
def Message.rejecting (m : Message) (f : Frame) (code : Nat) : Message :=
  ((m.load f.rejectionMti f.dest 0 f.source 0).append (Message.wordBytes f.source)).append
    (Message.wordBytes code)

/-- The message in a buffer, now empty and addressed as the frame is. -/
def Message.headed (m : Message) (f : Frame) : Message := m.load f.mti f.source 0 f.dest 0

/-- The message one tick older. -/
def Message.older (m : Message) : Message :=
  { m with header := { m.header with ticks := min 255 (m.header.ticks + 1) } }

/-- The message under assembly, or complete. -/
def Message.withInProcess (m : Message) (inProcess : Bool) : Message :=
  { m with header := { m.header with inProcess } }

namespace Resources

/-- Delivers a rejection of the frame, if there is a buffer for it. -/
def reject (r : Resources) (f : Frame) (code : Nat) : Resources :=
  match r.messages.allocate .basic with
  | some (h, messages) =>
    (deliver { r with messages := messages.modify h fun m => m.rejecting f code } h).1
  | none => r

/-- A buffer of size `c` for the message of the frame. -/
def allocateFor (r : Resources) (f : Frame) (c : SizeClass) : Option (Handle × Resources) :=
  match r.messages.allocate c with
  | some (h, messages) => some (h, { r with messages := messages.modify h fun m => m.headed f })
  | none => none

/-- Gives up a message under assembly. -/
def abandon (r : Resources) (h : Handle) : Resources :=
  { r with assemblies := r.assemblies.release h, messages := r.messages.free h }

/-- How many bytes of `data` the message in a buffer takes. -/
def accepts (r : Resources) (h : Handle) (data : List UInt8) : Nat :=
  match r.messages.get? h with
  | some m => m.accepts data
  | none => 0

/-- Takes the only frame of a message, into a buffer of size `c`. -/
def acceptOnly (r : Resources) (f : Frame) (offset : Nat) (c : SizeClass) : Resources :=
  match r.allocateFor f c with
  | some (h, r) =>
    (deliver { r with messages := r.messages.modify h fun m => m.append (f.dataFrom offset) } h).1
  | none => if f.dest ≠ 0 then r.reject f Rejection.bufferUnavailable else r

/-- Takes the first frame of a message, into a buffer of size `c`. -/
def acceptFirst (r : Resources) (f : Frame) (offset : Nat) (c : SizeClass) : Resources :=
  match r.assemblies.find? f.assemblyKey with
  | some _ => r.reject f Rejection.startBeforeEnd
  | none =>
    match r.allocateFor f c with
    | none => r.reject f Rejection.bufferUnavailable
    | some (h, r) =>
      match r.assemblies.add f.assemblyKey h with
      | .ok assemblies =>
        { r with
          assemblies
          messages := r.messages.modify h fun m =>
            (m.append (f.dataFrom offset)).withInProcess true }
      | .error _ =>
        reject { r with messages := r.messages.free h } f Rejection.bufferUnavailable

/-- Adds the data of the frame to a message under assembly, and says whether they fit.  A message
that they do not fit into is given up. -/
def extend (r : Resources) (f : Frame) (offset : Nat) (h : Handle) : Resources × Bool :=
  let data := f.dataFrom offset
  if r.accepts h data = data.length then
    ({ r with messages := r.messages.modify h fun m => m.append data }, true)
  else ((r.abandon h).reject f Rejection.bufferUnavailable, false)

/-- Takes a frame in the middle of a message. -/
def acceptMiddle (r : Resources) (f : Frame) (offset : Nat) : Resources :=
  match r.assemblies.find? f.assemblyKey with
  | some h => (r.extend f offset h).1
  | none => r.reject f Rejection.endWithoutStart

/-- Delivers a message whose last frame has come. -/
def complete (r : Resources) (h : Handle) : Resources :=
  (deliver
    { r with
      messages := r.messages.modify h fun m => m.withInProcess false
      assemblies := r.assemblies.release h } h).1

/-- Takes the last frame of a message. -/
def acceptLast (r : Resources) (f : Frame) (offset : Nat) : Resources :=
  match r.assemblies.find? f.assemblyKey with
  | some h =>
    match r.extend f offset h with
    | (r, true) => r.complete h
    | (r, false) => r
  | none => r.reject f Rejection.endWithoutStart

/-- Zero bytes in the payload so far of the message in a buffer. -/
def zeros (r : Resources) (h : Handle) : Nat :=
  match r.messages.get? h with
  | some m => m.zeros
  | none => 0

/-- Takes a frame of a node information reply that does not say its place. -/
def acceptUnmarked (r : Resources) (f : Frame) : Resources :=
  let incoming := f.zerosFrom addressedOffset
  match r.assemblies.find? f.assemblyKey with
  | none =>
    if nodeInfoZeros ≤ incoming then r.acceptOnly f addressedOffset .snip
    else r.acceptFirst f addressedOffset .snip
  | some h =>
    if r.zeros h + incoming < nodeInfoZeros then r.acceptMiddle f addressedOffset
    else r.acceptLast f addressedOffset

/-- The message in a buffer one tick older, and its handle behind those of the messages that have
waited too long, if it has. -/
def growOne (p : MessageStore × List Handle) (h : Handle) : MessageStore × List Handle :=
  match p.1.get? h with
  | some m =>
    (p.1.modify h Message.older,
      if Limits.assemblyTimeout ≤ m.older.header.ticks then p.2 ++ [h] else p.2)
  | none => p

/-- The messages of `handles` one tick older, and those that have waited too long. -/
def grow (messages : MessageStore) (handles : List Handle) : MessageStore × List Handle :=
  handles.foldl growOne (messages, [])

/-- One tick later: messages under assembly grow older, and those that have waited too long are
given up. -/
def age (r : Resources) : Resources :=
  let (messages, expired) := grow r.messages (r.assemblies.entries.map Prod.snd)
  expired.foldl abandon { r with messages }

end Resources

end LayoutBus
