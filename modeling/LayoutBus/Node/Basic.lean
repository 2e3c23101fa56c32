import LayoutBus.Message.Basic
import LayoutBus.Node.Event
import LayoutBus.Node.Parameters

/-!
# Nodes

A node hosted by an interface: its permanent id, its alias and where it stands in the login that
gives it one, its events, and what it keeps for its application.

* `Phase` orders the login; `Phase.code` numbers its steps.
* `Node.create` is a node that has not started; `Node.restart` sends a node that lost its alias
  back to look for another.
-/

namespace LayoutBus

/-- Where a node stands in its login. -/
inductive Phase where
  /-- Takes the node id as its first seed. -/
  | start
  /-- Moves on to the next seed. -/
  | nextSeed
  /-- Picks an alias. -/
  | pickAlias
  | check7
  | check6
  | check5
  | check4
  /-- Waits for objections to the checks. -/
  | wait
  /-- Claims the alias. -/
  | reserve
  /-- Takes the alias into use. -/
  | define
  /-- Announces itself. -/
  | announce
  /-- Announces the events it produces. -/
  | producers
  /-- Announces the events it consumes. -/
  | consumers
  /-- Is logged in. -/
  | running
deriving DecidableEq, Repr

/-- The phases in order. -/
def Phase.all : List Phase :=
  [.start, .nextSeed, .pickAlias, .check7, .check6, .check5, .check4, .wait, .reserve, .define,
    .announce, .producers, .consumers, .running]

/-- The number of a phase. -/
def Phase.code (p : Phase) : Nat := Phase.all.idxOf p

/-- Conditions of a node. -/
structure NodeFlags where
  /-- The alias may be used for traffic. -/
  permitted : Bool := false
  /-- The node has announced itself. -/
  initialized : Bool := false
  duplicateId : Bool := false
  firmwareUpgrade : Bool := false
  resendDatagram : Bool := false
deriving DecidableEq, Repr

/-- A node. -/
structure Node where
  id : Nat
  params : NodeParameters
  /-- The alias, or zero. -/
  aliasId : Nat := 0
  /-- The alias lost in the last conflict; the next one differs. -/
  previousAlias : Nat := 0
  seed : Nat := 0
  phase : Phase := .start
  flags : NodeFlags := {}
  /-- Ticks since the wait began. -/
  ticks : Nat := 0
  producers : EventList Limits.producerDepth := .empty
  consumers : EventList Limits.consumerDepth := .empty
  /-- A received datagram that is kept until it is acknowledged. -/
  retained : Option Handle := none
deriving DecidableEq, Repr

namespace Node

/-- The first `count` of the events that a node owns. -/
def ownEvents (id count : Nat) : List Nat := (List.range count).map fun i => id * 0x10000 + i

/-- A node that has not started. -/
def create (id : Nat) (params : NodeParameters) : Node :=
  { id, params,
    producers := EventList.empty.pushAll (ownEvents id params.producers)
    consumers := EventList.empty.pushAll (ownEvents id params.consumers) }

/-- The node may send traffic. -/
def isPermitted (n : Node) : Bool := n.flags.permitted

/-- A message with this header is for the node. -/
def isAddressedBy (n : Node) (h : Header) : Bool := n.aliasId != 0 && n.aliasId == h.dest

/-- The node without its alias, back at the search for another.  It gives up the datagram it
kept. -/
def restart (n : Node) : Node :=
  { n with
    previousAlias := n.aliasId
    aliasId := 0
    flags := {}
    phase := .nextSeed
    producers := n.producers.rewind
    consumers := n.consumers.rewind
    retained := none }

/-- One tick later. -/
def tick (n : Node) : Node := { n with ticks := min 255 (n.ticks + 1) }

end Node

end LayoutBus
