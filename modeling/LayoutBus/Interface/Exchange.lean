import LayoutBus.Interface.Basic

/-!
# Messages of the application

An application takes a buffer, fills it and pushes it to be sent; it pops messages that came in,
and frees them.  Every request takes the lock.

* `Interface.allocate`, `Interface.free`, `Interface.popIngress` and `Interface.pushEgress` act on
  one buffer.
* `Interface.send` does all that it takes to send a message from one of the nodes.
-/

namespace LayoutBus.Interface

/-- Takes an empty buffer. -/
def allocate (s : Interface) (c : SizeClass) : Outcome (Except InterfaceError Handle) :=
  s.locked fun s =>
    match s.resources.messages.allocate c with
    | some (h, messages) =>
      { value := .ok h, interface := { s with resources := { s.resources with messages } } }
    | none => { value := .error (.bufferUnavailable c), interface := s }

/-- Frees a buffer. -/
def free (s : Interface) (h : Handle) : Outcome Unit :=
  s.update fun r => { r with messages := r.messages.free h }

/-- The message in a buffer in use. -/
def message? (s : Interface) (h : Handle) : Option Message := s.resources.messages.get? h

/-- Changes the message in a buffer in use. -/
def edit (s : Interface) (h : Handle) (f : Message → Message) : Interface :=
  { s with resources := { s.resources with messages := s.resources.messages.modify h f } }

/-- Takes the next message that came in. -/
def popIngress (s : Interface) : Outcome (Option Handle) :=
  s.locked fun s =>
    match s.resources.ingress.pop with
    | some (h, ingress) =>
      { value := some h, interface := { s with resources := { s.resources with ingress } } }
    | none => { value := none, interface := s }

/-- Pushes a message to be sent; its buffer is freed when its last frame has gone into the
outbox. -/
def pushEgress (s : Interface) (h : Handle) : Outcome (Except InterfaceError Unit) :=
  match s.message? h with
  | none => { value := .error .invalidHandle, interface := s }
  | some _ =>
    s.locked fun s =>
      match s.resources.egress.push h with
      | some egress =>
        { value := .ok (), interface := { s with resources := { s.resources with egress } } }
      | none => { value := .error .egressFull, interface := s }

/-- The size of buffer for a message. -/
def sizeFor (mti : Nat) (payload : List UInt8) : SizeClass :=
  if mti = Mti.datagram then .datagram
  else if mti = Mti.streamData then .stream
  else if payload.length ≤ SizeClass.basic.capacity then .basic
  else .snip

/-- Sends a message from the node at an index: takes a buffer, fills it and pushes it. -/
def send (s : Interface) (i mti dest : Nat) (payload : List UInt8) :
    Outcome (Except InterfaceError Unit) :=
  match s.nodes.get? i with
  | none => { value := .error .invalidHandle, interface := s }
  | some n =>
    let o := s.allocate (sizeFor mti payload)
    match o.value with
    | .error e => { value := .error e, interface := o.interface, trace := o.trace }
    | .ok h =>
      let filled := o.interface.edit h fun m => (m.load mti n.aliasId n.id dest 0).append payload
      let p := filled.pushEgress h
      match p.value with
      | .ok () => { p with trace := o.trace ++ p.trace }
      | .error e =>
        let q := p.interface.free h
        { value := .error e, interface := q.interface, trace := o.trace ++ p.trace ++ q.trace }

/-- The load of the frame buffers. -/
def frameStats (s : Interface) : PoolStats := s.resources.outbox.buffers.stats

/-- The load of the message buffers of one size. -/
def messageStats (s : Interface) (c : SizeClass) : PoolStats := s.resources.messages.stats c

/-- Forgets the peaks of all buffers. -/
def clearPeaks (s : Interface) : Outcome Unit :=
  s.update fun r =>
    { r with
      outbox := { r.outbox with buffers := r.outbox.buffers.clearPeak }
      messages := r.messages.clearPeak }

end LayoutBus.Interface
