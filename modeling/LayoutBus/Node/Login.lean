import LayoutBus.Alias.Seed
import LayoutBus.Alias.Table
import LayoutBus.Node.Basic
import LayoutBus.Wire.Build

/-!
# Logging in

A node picks an alias, checks it with four frames, waits for objections, claims it, takes it into
use, and announces itself and its events.  Each step sends at most one frame, and no step is
taken while the frame of an earlier one waits for transmission.

* `Node.logIn` is one step.
* `Node.pickAlias` finds an alias that is not zero, not the one just lost, and not held by
  another node of the interface.
-/

namespace LayoutBus

/-- What a step of the login leaves behind. -/
structure LoginStep where
  node : Node
  aliases : AliasTable
  /-- The frame that waits for transmission. -/
  frame : Option Frame := none
  /-- The alias that the node picked in this step. -/
  picked : Option Nat := none
deriving DecidableEq, Repr

/-- The message that says that a node produces an event. -/
def EventStatus.producerMti : EventStatus → Nat
  | unknown => Mti.producerIdentifiedUnknown
  | set => Mti.producerIdentifiedSet
  | clear => Mti.producerIdentifiedClear

/-- The message that says that a node consumes an event. -/
def EventStatus.consumerMti : EventStatus → Nat
  | unknown => Mti.consumerIdentifiedUnknown
  | set => Mti.consumerIdentifiedSet
  | clear => Mti.consumerIdentifiedClear

namespace Node

/-- The node may take the alias. -/
def mayTake (n : Node) (t : AliasTable) (a : Nat) : Bool :=
  a != 0 && a != n.previousAlias && !(t.find? a).any fun m => m.nodeId ≠ n.id

/-- Walks to a seed whose alias the node may take, and takes it.  The node stays in this phase if
there is no such seed or the table refuses the alias. -/
def pickAlias (n : Node) (t : AliasTable) : LoginStep :=
  match Seed.find? (n.mayTake t) n.seed with
  | none => { node := n, aliases := t }
  | some seed =>
    match t.register (Seed.aliasOf seed) n.id with
    | .error _ => { node := { n with seed }, aliases := t }
    | .ok t =>
      { node := { n with seed, aliasId := Seed.aliasOf seed, phase := .check7 }
        aliases := t
        picked := some (Seed.aliasOf seed) }

/-- The announcement of a node that has an alias. -/
def initializationComplete (n : Node) : Frame :=
  .messageData .standard
    (if Support.includes n.params.support Support.simple then Mti.initializationCompleteSimple
      else Mti.initializationComplete)
    n.aliasId (BigEndian.encode 6 n.id) (by simp)

/-- The announcement of an event. -/
def identified (n : Node) (mti : Nat) (e : Event) : Frame :=
  .messageData .standard mti n.aliasId (BigEndian.encode 8 e.id) (by simp)

/-- A step of the login with no frame waiting. -/
def logInStep (n : Node) (t : AliasTable) : LoginStep :=
  match n.phase with
  | .start => { node := { n with seed := n.id, phase := .pickAlias }, aliases := t }
  | .nextSeed => { node := { n with seed := Seed.next n.seed, phase := .pickAlias }, aliases := t }
  | .pickAlias => n.pickAlias t
  | .check7 =>
    { node := { n with phase := .check6 }, aliases := t, frame := some (.checkId 7 n.aliasId n.id) }
  | .check6 =>
    { node := { n with phase := .check5 }, aliases := t, frame := some (.checkId 6 n.aliasId n.id) }
  | .check5 =>
    { node := { n with phase := .check4 }, aliases := t, frame := some (.checkId 5 n.aliasId n.id) }
  | .check4 =>
    { node := { n with phase := .wait, ticks := 0 }
      aliases := t
      frame := some (.checkId 4 n.aliasId n.id) }
  | .wait =>
    { node := if Limits.loginWait ≤ n.ticks then { n with phase := .reserve } else n, aliases := t }
  | .reserve =>
    { node := { n with phase := .define }, aliases := t, frame := some (.reserveId n.aliasId) }
  | .define =>
    { node := { n with phase := .announce, flags := { n.flags with permitted := true } }
      aliases := t.permit n.aliasId
      frame := some (.aliasMapDefinition n.aliasId n.id) }
  | .announce =>
    { node :=
        { n with
          phase := .producers
          flags := { n.flags with initialized := true }
          producers := n.producers.rewind
          consumers := n.consumers.rewind }
      aliases := t
      frame := some n.initializationComplete }
  | .producers =>
    match n.producers.next with
    | some (e, producers) =>
      { node := { n with producers }
        aliases := t
        frame := some (n.identified e.status.producerMti e) }
    | none => { node := { n with phase := .consumers }, aliases := t }
  | .consumers =>
    match n.consumers.next with
    | some (e, consumers) =>
      { node := { n with consumers }
        aliases := t
        frame := some (n.identified e.status.consumerMti e) }
    | none => { node := { n with phase := .running }, aliases := t }
  | .running => { node := n, aliases := t }

/-- A step of the login; nothing happens while a frame waits. -/
def logIn (n : Node) (t : AliasTable) (pending : Option Frame) : LoginStep :=
  match pending with
  | some f => { node := n, aliases := t, frame := some f }
  | none => n.logInStep t

end Node

end LayoutBus
