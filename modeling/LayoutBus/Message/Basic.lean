import LayoutBus.Bytes
import LayoutBus.Limits
import LayoutBus.Wire.Codes

/-!
# Messages

A message is a header over a buffer of fixed size.  The header counts the payload bytes at the
start of the buffer; what lies behind them is kept, so that a larger count shows it again.

* `Message.payload` is the view: the counted bytes, as far as the buffer goes.
* `Message.append` adds the longest part of the data that fits, `Message.accepts` bytes of it.
* `Message.payload_append` says what appending does to the view.
* `Message.word`, `Message.nodeId` and `Message.eventId` read fields back.
-/

namespace LayoutBus

/-- The sizes of message buffers, each with a pool of its own. -/
inductive SizeClass where
  | basic
  | datagram
  | snip
  | stream
deriving DecidableEq, Repr

namespace SizeClass

/-- Payload bytes of a buffer. -/
def capacity : SizeClass → Nat
  | basic => Limits.basicLength
  | datagram => Limits.datagramLength
  | snip => Limits.snipLength
  | stream => Limits.streamLength

/-- All sizes. -/
def all : List SizeClass := [basic, datagram, snip, stream]

/-- The number of a size. -/
def code : SizeClass → Nat
  | basic => 0
  | datagram => 1
  | snip => 2
  | stream => 3

/-- The size with this number. -/
def ofCode? : Nat → Option SizeClass
  | 0 => some basic
  | 1 => some datagram
  | 2 => some snip
  | 3 => some stream
  | _ => none

/-- The name of a size in error texts. -/
def name : SizeClass → String
  | basic => "Basic"
  | datagram => "Datagram"
  | snip => "Snip"
  | stream => "Stream"

end SizeClass

/-- Names one message buffer. -/
structure Handle where
  /-- The size, which chooses the pool. -/
  size : SizeClass
  /-- The slot in the pool. -/
  index : Nat
deriving DecidableEq, Repr

/-- The handle in error texts. -/
def Handle.describe (h : Handle) : String :=
  s!"MessageHandle \x7b payload_type: {h.size.name}, index: {h.index} \x7d"

/-- What is known of a message besides its payload. -/
structure Header where
  mti : Nat := 0
  /-- The alias and the node id of the sender. -/
  source : Nat := 0
  sourceId : Nat := 0
  /-- The alias and the node id of the receiver, zero for a message to all. -/
  dest : Nat := 0
  destId : Nat := 0
  /-- Payload bytes. -/
  count : Nat := 0
  size : SizeClass := .basic
  /-- Age in ticks, while the message is under assembly. -/
  ticks : Nat := 0
  /-- The buffer is in use. -/
  allocated : Bool := false
  /-- The message is under assembly. -/
  inProcess : Bool := false
deriving DecidableEq, Repr

/-- The message is directed to one node. -/
def Header.isAddressed (h : Header) : Bool := Mti.isAddressed h.mti

/-- A header and a buffer. -/
structure Message where
  header : Header
  /-- All bytes of the buffer. -/
  bytes : List UInt8
deriving DecidableEq, Repr

namespace Message

/-- An empty message in a zeroed buffer of `n` bytes. -/
def blank (n : Nat) : Message := ⟨{}, List.replicate n 0⟩

/-- Bytes of the buffer. -/
def capacity (m : Message) : Nat := m.bytes.length

/-- The payload: the counted bytes, as far as the buffer goes. -/
def payload (m : Message) : List UInt8 := m.bytes.take m.header.count

/-! ### Writing -/

/-- Where the next byte goes. -/
def start (m : Message) : Nat := min m.header.count m.capacity

/-- How many bytes of `data` fit behind the payload. -/
def accepts (m : Message) (data : List UInt8) : Nat := min data.length (m.capacity - m.start)

/-- Adds `data` to the payload, as far as it fits. -/
def append (m : Message) (data : List UInt8) : Message :=
  let stop := m.start + m.accepts data
  ⟨{ m.header with count := stop },
    m.bytes.take m.start ++ data.take (m.accepts data) ++ m.bytes.drop stop⟩

/-- Sets the addresses and empties the payload. -/
def load (m : Message) (mti source sourceId dest destId : Nat) : Message :=
  { m with header :=
      { m.header with mti, source, sourceId, dest, destId, count := 0, ticks := 0 } }

/-- Empties the payload. -/
def truncate (m : Message) : Message := { m with header := { m.header with count := 0 } }

/-- Empties the payload and zeroes the buffer. -/
def clear (m : Message) : Message :=
  ⟨{ m.header with count := 0 }, List.replicate m.capacity 0⟩

/-- The two bytes of a word. -/
def wordBytes (word : Nat) : List UInt8 := BigEndian.encode 2 word

/-- The six bytes of a node id. -/
def nodeIdBytes (id : Nat) : List UInt8 := BigEndian.encode 6 id

/-- The eight bytes of an event id. -/
def eventIdBytes (id : Nat) : List UInt8 := BigEndian.encode 8 id

/-! ### Reading -/

/-- How many payload bytes are zero. -/
def zeros (m : Message) : Nat := m.payload.count 0

/-- The word in the payload at `offset`. -/
def word (m : Message) (offset : Nat) : Option Nat := BigEndian.readAt 2 offset m.payload

/-- The node id in the payload at `offset`. -/
def nodeId (m : Message) (offset : Nat) : Option Nat := BigEndian.readAt 6 offset m.payload

/-- The event id at the start of the payload. -/
def eventId (m : Message) : Option Nat := BigEndian.readAt 8 0 m.payload

/-! ### The view -/

theorem length_payload (m : Message) : m.payload.length = m.start := by
  simp [payload, start, capacity]

@[simp] theorem capacity_append (m : Message) (data : List UInt8) :
    (m.append data).capacity = m.capacity := by
  simp [append, capacity, start, accepts]
  omega

@[simp] theorem capacity_load (m : Message) (mti source sourceId dest destId : Nat) :
    (m.load mti source sourceId dest destId).capacity = m.capacity := rfl

@[simp] theorem capacity_truncate (m : Message) : m.truncate.capacity = m.capacity := rfl

@[simp] theorem capacity_clear (m : Message) : m.clear.capacity = m.capacity := by
  simp [clear, capacity]

theorem payload_append (m : Message) (data : List UInt8) :
    (m.append data).payload = m.payload ++ data.take (m.accepts data) := by
  have taken : m.bytes.take m.start = m.payload := by
    simp [start, payload, capacity, List.take_eq_take_iff]
  have length : (m.payload ++ data.take (m.accepts data)).length = m.start + m.accepts data := by
    rw [List.length_append, length_payload]
    simp [accepts]
  unfold append payload
  simp only
  rw [taken, List.take_append_of_le_length (Nat.le_of_eq length.symm),
    List.take_of_length_le (Nat.le_of_eq length)]
  rfl

@[simp] theorem payload_load (m : Message) (mti source sourceId dest destId : Nat) :
    (m.load mti source sourceId dest destId).payload = [] := rfl

@[simp] theorem payload_truncate (m : Message) : m.truncate.payload = [] := rfl

@[simp] theorem payload_clear (m : Message) : m.clear.payload = [] := rfl

end Message

end LayoutBus
