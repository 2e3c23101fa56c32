import LayoutBus.Interface.Basic

/-!
# The main loop

One pass of the main loop does the most urgent work there is: it resolves conflicts of aliases,
offers a frame from the outbox to the driver, offers the frame of a login, puts a frame of an
outgoing message into the outbox, or gives the next node its turn.

* `Interface.run` is one pass; its value says whether anything was done.
* `Interface.resolveConflicts`, `Interface.transmit`, `Interface.transmitLogin`,
  `Interface.sendMessages`, `Interface.firstTurn` and `Interface.nextTurn` are the kinds of work,
  most urgent first.

A driver is asked at most once in a pass, so its answer is a single Boolean.
-/

namespace LayoutBus

/-- Does the next kind of work if this one had nothing to do. -/
def Outcome.orElse (o : Outcome Bool) (work : Interface → Outcome Bool) : Outcome Bool :=
  if o.value then o
  else
    let p := work o.interface
    { p with trace := o.trace ++ p.trace }

namespace Interface

/-! ### Conflicts -/

/-- Sends the node that holds a conflicting alias back to look for another, and takes the alias
out of the login and the table. -/
def giveUp (s : Interface) (a : Nat) : Interface :=
  let holder := s.nodes.findAnyAlias? a
  let retained := (holder.bind s.nodes.get?).bind Node.retained
  let messages :=
    match retained with
    | some h => s.resources.messages.free h
    | none => s.resources.messages
  { s with
    nodes :=
      match holder with
      | some i => s.nodes.modify i Node.restart
      | none => s.nodes
    loginFrame := s.loginFrame.filter fun f => f.source ≠ a
    resources :=
      { s.resources with messages, aliases := s.resources.aliases.unregister a } }

/-- Gives up conflicting aliases until none is left or `n` have been given up. -/
def giveUpAll : Nat → Interface → Interface
  | 0, s => s
  | n + 1, s =>
    match s.resources.aliases.nextDuplicate? with
    | some m => giveUpAll n (s.giveUp m.aliasId)
    | none => s

/-- Gives up all conflicting aliases. -/
def resolveConflicts (s : Interface) : Outcome Bool :=
  s.locked fun s =>
    let t := giveUpAll s.resources.aliases.mappings.length s
    { value := s.resources.aliases.hasDuplicate
      interface :=
        { t with resources :=
            { t.resources with aliases := { t.resources.aliases with hasDuplicate := false } } } }

/-! ### Frames -/

/-- Takes the next frame from the outbox, if none has been taken yet. -/
def fetch (s : Interface) : Outcome Unit :=
  match s.transmitting with
  | some _ => { value := (), interface := s }
  | none =>
    s.locked fun s =>
      match s.resources.outbox.pop with
      | some (h, outbox) =>
        { value := ()
          interface :=
            { s with transmitting := some h, resources := { s.resources with outbox } } }
      | none => { value := (), interface := s }

/-- Offers the frame in a buffer to the driver, and frees the buffer when it is accepted. -/
def offer (s : Interface) (accepts : Bool) (h : FrameHandle) : Outcome Bool :=
  match s.resources.outbox.frame? h with
  | none => { value := true, interface := { s with transmitting := none } }
  | some f =>
    if accepts then
      let o := s.update fun r => { r with outbox := r.outbox.free h }
      { value := true
        interface := { o.interface with transmitting := none }
        trace := .offer .outbox f true :: .sent f :: o.trace }
    else { value := true, interface := s, trace := [.offer .outbox f false] }

/-- Offers the next frame of the outbox to the driver. -/
def transmit (s : Interface) (accepts : Bool) : Outcome Bool :=
  let o := s.fetch
  match o.interface.transmitting with
  | none => { value := false, interface := o.interface, trace := o.trace }
  | some h =>
    let p := o.interface.offer accepts h
    { p with trace := o.trace ++ p.trace }

/-- Offers the frame of a login to the driver. -/
def transmitLogin (s : Interface) (accepts : Bool) : Outcome Bool :=
  match s.loginFrame with
  | none => { value := false, interface := s }
  | some f =>
    if accepts then
      { value := true
        interface := { s with loginFrame := none }
        trace := [.offer .login f true, .sent f] }
    else { value := true, interface := s, trace := [.offer .login f false] }

/-! ### Messages -/

/-- The message may be sent: it is there, and its source alias is permitted. -/
def maySend (s : Interface) (h : Handle) : Bool :=
  (s.resources.messages.get? h).any fun m => s.resources.aliases.isPermitted m.header.source

/-- The outgoing message after an attempt to send a part of it, or nothing once it has been sent
and its buffer is free. -/
def settle (s : Interface) (o : Outgoing) (m : Message) : Interface :=
  if m.isSent o.cursor o.sent then
    { s with
      segmenting := none
      resources := { s.resources with messages := s.resources.messages.free o.handle } }
  else { s with segmenting := some o }

/-- Puts the next part of a message into the outbox, and says whether there was room. -/
def segment (streams : Bool) (s : Interface) (o : Outgoing) (m : Message) : Outcome Bool :=
  match m.next streams o.cursor with
  | .dropped =>
    { value := true
      interface := s.settle { o with cursor := m.header.count, sent := o.sent + 1 } m }
  | .frame f length =>
    match s.resources.outbox.offer f with
    | some outbox =>
      { value := true
        interface :=
          settle { s with resources := { s.resources with outbox } }
            { o with cursor := o.cursor + length, sent := o.sent + 1 } m
        trace := [.segment o.handle f] }
    | none => { value := false, interface := s.settle o m }

/-- Goes on with the outgoing message, if its buffer is still in use. -/
def continueMessage (streams : Bool) (s : Interface) (o : Outgoing) : Outcome Bool :=
  match s.resources.messages.get? o.handle with
  | none => { value := true, interface := { s with segmenting := none } }
  | some m => s.locked fun s => s.segment streams o m

/-- Takes the next message to be sent. -/
def popEgress (s : Interface) : Outcome (Option Handle) :=
  s.locked fun s =>
    match s.resources.egress.pop with
    | some (h, egress) =>
      { value := some h, interface := { s with resources := { s.resources with egress } } }
    | none => { value := none, interface := s }

/-- Puts the next frame of an outgoing message into the outbox.  A message whose source alias is
not permitted when its turn comes is dropped. -/
def sendMessages (streams : Bool) (s : Interface) : Outcome Bool :=
  match s.segmenting with
  | some o => s.continueMessage streams o
  | none =>
    let p := s.popEgress
    match p.value with
    | none => { value := false, interface := p.interface, trace := p.trace }
    | some h =>
      if p.interface.maySend h then
        let o := p.interface.continueMessage streams ⟨h, 0, 0⟩
        { o with trace := p.trace ++ o.trace }
      else
        let o := p.interface.update fun r => { r with messages := r.messages.free h }
        { value := true, interface := o.interface, trace := p.trace ++ o.trace }

/-! ### Turns -/

/-- A step of the login of the node at an index. -/
def logIn (s : Interface) (i : Nat) (n : Node) : Outcome Unit :=
  s.locked fun s =>
    let step := n.logIn s.resources.aliases s.loginFrame
    { value := ()
      interface :=
        { s with
          nodes := s.nodes.modify i fun _ => step.node
          loginFrame := step.frame
          resources := { s.resources with aliases := step.aliases } }
      trace := step.picked.toList.map fun a => .picked a n.id }

/-- Gives the node at an index its turn: a step of its login, or work of the application. -/
def takeTurn (s : Interface) (i : Nat) : Outcome Unit :=
  match s.nodes.get? i with
  | none => { value := (), interface := s, trace := [.turn i] }
  | some n =>
    if n.phase = .running then { value := (), interface := s, trace := [.turn i, .work n.id] }
    else
      let o := s.logIn i n
      { o with trace := .turn i :: o.trace }

/-- Starts a round with the turn of the first node. -/
def firstTurn (s : Interface) : Outcome Bool :=
  match s.current with
  | some _ => { value := false, interface := s }
  | none =>
    match s.nodes.first Registry.mainCursor with
    | (nodes, none) => { value := false, interface := { s with nodes } }
    | (nodes, some i) =>
      let o := takeTurn { s with nodes, current := some i } i
      { value := true, interface := o.interface, trace := o.trace }

/-- Goes on with a round, or ends it after the turn of the last node. -/
def nextTurn (s : Interface) : Outcome Bool :=
  match s.current with
  | none => { value := false, interface := s }
  | some _ =>
    match s.nodes.next Registry.mainCursor with
    | (nodes, none) => { value := false, interface := { s with nodes, current := none } }
    | (nodes, some i) =>
      let o := takeTurn { s with nodes, current := some i } i
      { value := true, interface := o.interface, trace := o.trace }

/-! ### One pass -/

/-- One pass of the main loop, in which the driver accepts a frame or not. -/
def run (streams : Bool) (s : Interface) (accepts : Bool) : Outcome Bool :=
  (((((s.resolveConflicts.orElse (transmit · accepts)).orElse (transmitLogin · accepts)).orElse
    (sendMessages streams)).orElse firstTurn).orElse nextTurn)

end Interface

end LayoutBus
