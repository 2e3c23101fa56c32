import LayoutBus.Node.Basic
import LayoutBus.Wire.Identifier

/-!
# The nodes of an interface

Nodes are added once and stay.  Several cursors go through them independently.

* `Registry.register` adds a node, or names the first reason not to.
* `Registry.first` and `Registry.next` move a cursor.
* `Registry.findAlias?` and `Registry.findId?` see the nodes that may send traffic,
  `Registry.findAnyAlias?` all.
-/

namespace LayoutBus

/-- Why a node is not added. -/
inductive NodeError where
  | invalidNodeId (id : Nat)
  | duplicateNodeId (id : Nat)
  | tableFull
deriving DecidableEq, Repr

namespace NodeError

/-- The text of the error. -/
def message : NodeError → String
  | invalidNodeId n =>
    s!"Tried to register a node id ({n}) outside of the valid range (1..=0xFFFFFFFFFFFF)"
  | duplicateNodeId n => s!"A node with this id ({n}) is already registered"
  | tableFull => "The node table is full"

/-- The error inside the text of another. -/
def describe : NodeError → String
  | invalidNodeId n => s!"InvalidNodeId({n})"
  | duplicateNodeId n => s!"DuplicateNodeId({n})"
  | tableFull => "TableFull"

end NodeError

/-- Nodes and cursors. -/
structure Registry where
  nodes : List Node
  cursors : List Nat
deriving DecidableEq, Repr

namespace Registry

/-- The registry without nodes. -/
def empty : Registry := ⟨[], List.replicate Limits.cursorCount 0⟩

/-- The cursor that the interface itself uses. -/
def mainCursor : Nat := 0

/-- How many nodes there are. -/
def size (r : Registry) : Nat := r.nodes.length

/-- The node at an index. -/
def get? (r : Registry) (i : Nat) : Option Node := r.nodes[i]?

/-- Changes the node at an index. -/
def modify (r : Registry) (i : Nat) (f : Node → Node) : Registry :=
  { r with nodes := r.nodes.modify i f }

/-- Adds a node that has not started, at the end. -/
def register (r : Registry) (id : Nat) (params : NodeParameters) : Except NodeError Registry :=
  if ¬ NodeId.Valid id then .error (.invalidNodeId id)
  else if r.nodes.any fun n => n.id = id then .error (.duplicateNodeId id)
  else if r.size < Limits.nodeDepth then .ok { r with nodes := r.nodes ++ [.create id params] }
  else .error .tableFull

/-- Puts a cursor on the first node. -/
def first (r : Registry) (key : Nat) : Registry × Option Nat :=
  if key < r.cursors.length then
    ({ r with cursors := r.cursors.set key 0 }, if r.nodes.isEmpty then none else some 0)
  else (r, none)

/-- Moves a cursor to the next node; nothing once it is past the last. -/
def next (r : Registry) (key : Nat) : Registry × Option Nat :=
  match r.cursors[key]? with
  | some c =>
    let c := min (c + 1) r.size
    ({ r with cursors := r.cursors.set key c }, if c < r.size then some c else none)
  | none => (r, none)

/-- The node that may send traffic under this alias. -/
def findAlias? (r : Registry) (a : Nat) : Option Nat :=
  r.nodes.findIdx? fun n => n.flags.permitted ∧ n.aliasId = a

/-- The node with this alias, whether or not it may send traffic. -/
def findAnyAlias? (r : Registry) (a : Nat) : Option Nat :=
  if a = 0 then none else r.nodes.findIdx? fun n => n.aliasId = a

/-- The node with this id, if it may send traffic. -/
def findId? (r : Registry) (id : Nat) : Option Nat :=
  r.nodes.findIdx? fun n => n.flags.permitted ∧ n.id = id

/-- One tick later. -/
def tick (r : Registry) : Registry := { r with nodes := r.nodes.map Node.tick }

end Registry

end LayoutBus
