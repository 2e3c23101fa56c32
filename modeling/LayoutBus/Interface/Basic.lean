import LayoutBus.Interface.Receive
import LayoutBus.Message.Segment
import LayoutBus.Node.Login
import LayoutBus.Node.Registry

/-!
# Interfaces

An interface hosts nodes on one bus.  Frames from the bus are given to `Interface.receive`, a
tick every 100 ms to `Interface.tick`, and the main loop does one unit of work at a time.

Every operation answers with an `Outcome`: its value, the interface afterwards, and the trace of
what could be seen from outside meanwhile, as `Effect`s in order.  The shared state is guarded by
a lock: `Effect.lock` shows it when the lock is taken and `Effect.unlock` when it is given back.

* `Interface.locked` runs a step while the lock is held.
* `Interface.receive` and `Interface.tick` run where the lock is held already.
-/

namespace LayoutBus

/-- Where a frame that is offered to the driver comes from. -/
inductive Origin where
  /-- The outbox. -/
  | outbox
  /-- The login of a node. -/
  | login
deriving DecidableEq, Repr

/-- What can be seen of an interface from outside. -/
inductive Effect where
  /-- The lock is taken over the given state. -/
  | lock (shared : Resources)
  /-- The lock is given back over the given state. -/
  | unlock (shared : Resources)
  /-- A frame is offered to the driver, which accepts it or not. -/
  | offer (origin : Origin) (frame : Frame) (accepted : Bool)
  /-- The driver is told that it has accepted the frame. -/
  | sent (frame : Frame)
  /-- A frame of an outgoing message goes into the outbox. -/
  | segment (message : Handle) (frame : Frame)
  /-- The application is told of a received frame. -/
  | received (frame : Frame)
  /-- The application is told of the alias that a node picked. -/
  | picked (aliasId nodeId : Nat)
  /-- The node at an index has its turn. -/
  | turn (index : Nat)
  /-- The application works for a node that is logged in. -/
  | work (nodeId : Nat)
deriving DecidableEq, Repr

/-- Why an interface refuses a request. -/
inductive InterfaceError where
  | bufferUnavailable (size : SizeClass)
  | egressFull
  | invalidHandle
  | node (error : NodeError)
deriving DecidableEq, Repr

/-- The text of the error. -/
def InterfaceError.message : InterfaceError → String
  | bufferUnavailable c => s!"No free message buffer of type ({c.name})"
  | egressFull => "The egress queue is full"
  | invalidHandle => "The message handle does not refer to an allocated message"
  | node e => s!"Node registration failed ({e.describe})"

/-- A message on its way into the outbox. -/
structure Outgoing where
  handle : Handle
  /-- Payload bytes that are gone. -/
  cursor : Nat
  /-- Parts that are gone. -/
  sent : Nat
deriving DecidableEq, Repr

/-- An interface. -/
structure Interface where
  resources : Resources
  nodes : Registry
  /-- The frame from the outbox that the driver is to accept next. -/
  transmitting : Option FrameHandle := none
  /-- The frame of a login that waits for transmission. -/
  loginFrame : Option Frame := none
  /-- The message whose frames go into the outbox. -/
  segmenting : Option Outgoing := none
  /-- The node that had the last turn of the current round. -/
  current : Option Nat := none
deriving DecidableEq, Repr

/-- The result of an operation on an interface. -/
structure Outcome (α : Type) where
  value : α
  interface : Interface
  trace : List Effect := []

namespace Interface

/-- An interface without nodes. -/
def empty (streams : Bool) : Interface := { resources := .empty streams, nodes := .empty }

/-- Runs a step while the lock is held. -/
def locked {α : Type} (s : Interface) (step : Interface → Outcome α) : Outcome α :=
  let o := step s
  { o with trace := .lock s.resources :: (o.trace ++ [.unlock o.interface.resources]) }

/-- Changes the shared state while the lock is held. -/
def update (s : Interface) (f : Resources → Resources) : Outcome Unit :=
  s.locked fun s => { value := (), interface := { s with resources := f s.resources } }

/-- Adds a node, which starts to log in. -/
def register (s : Interface) (id : Nat) (params : NodeParameters) :
    Outcome (Except InterfaceError Nat) :=
  match s.nodes.register id params with
  | .ok nodes => { value := .ok s.nodes.size, interface := { s with nodes } }
  | .error e => { value := .error (.node e), interface := s }

/-- Takes a frame from the bus. -/
def receive (streams : Bool) (s : Interface) (f : Frame) : Outcome Unit where
  value := ()
  interface := { s with resources := s.resources.receive streams f }
  trace := [.received f]

/-- One tick of 100 ms. -/
def tick (s : Interface) : Outcome Unit where
  value := ()
  interface := { s with nodes := s.nodes.tick, resources := s.resources.age }

end Interface

end LayoutBus
