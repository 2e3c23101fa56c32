import LayoutBus.Wire.Frame

/-!
# CAN hardware

Hardware knows more frames than an interface: ones with a standard identifier of 11 bits, and
remote frames without data.  Neither ever reaches an interface.

* `Frame.toBus` and `Frame.ofBus?` convert between the two.
* `Peripheral.received` and `Peripheral.transmitted` are what an interface sees of an answer of
  the hardware.
-/

namespace LayoutBus

/-- A frame as hardware sees it. -/
structure BusFrame where
  /-- The identifier has 29 bits rather than 11. -/
  extended : Bool
  /-- The frame asks for data. -/
  remote : Bool
  id : Nat
  data : List UInt8
deriving DecidableEq, Repr

/-- The frame for the hardware. -/
def Frame.toBus (f : Frame) : BusFrame := ⟨true, false, f.id, f.payload⟩

/-- The frame from the hardware, unless it is a standard or a remote frame or too long. -/
def Frame.ofBus? (b : BusFrame) : Option Frame :=
  if b.extended && !b.remote then Frame.ofId? b.id b.data else none

namespace Peripheral

/-- What hardware says to a frame that is to be sent. -/
inductive Answer where
  | accepted
  /-- The frame took the place of one of lower priority, which is lost. -/
  | displaced
  /-- The transmit buffer is full. -/
  | wouldBlock
  | failed
deriving DecidableEq, Repr

/-- The frame is in the hands of the hardware. -/
def Answer.isAccepted : Answer → Bool
  | accepted | displaced => true
  | wouldBlock | failed => false

/-- The driver accepts a frame: the hardware has frames of its kind, and takes it. -/
def transmitted (supported : Bool) (answer : Answer) : Bool := supported && answer.isAccepted

/-- The frame that an interface gets from a read, which may have found or yielded nothing. -/
def received (read : Option BusFrame) : Option Frame := read.bind Frame.ofBus?

end Peripheral

end LayoutBus
