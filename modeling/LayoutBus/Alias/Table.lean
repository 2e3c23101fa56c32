import LayoutBus.Limits
import LayoutBus.Memory.Removal
import LayoutBus.Wire.Identifier

/-!
# The aliases of an interface

Which node of the interface holds which alias.  A node holds at most one alias and an alias has
at most one holder.  A mapping is *permitted* once the alias has been defined on the bus, and
*duplicate* once another node on the bus was seen with the same alias; the table remembers that
there may be a duplicate until it is told to forget.

* `AliasTable.find?` and `AliasTable.findNode?` are the views.
* `AliasTable.register` gives a node an alias in place of any earlier one, or names the first
  reason not to.
* `AliasTable.markDuplicate` records a conflict, `AliasTable.unregister` gives an alias up.
-/

namespace LayoutBus

/-- An alias and the node that holds it. -/
structure Mapping where
  aliasId : Nat
  nodeId : Nat
  /-- The alias may be used for traffic. -/
  permitted : Bool := false
  /-- Another node on the bus uses the alias. -/
  duplicate : Bool := false
deriving DecidableEq, Repr

/-- Why a node does not get an alias. -/
inductive AliasError where
  | invalidAlias (a : Nat)
  | invalidNodeId (nodeId : Nat)
  /-- Another node holds the alias. -/
  | aliasInUse (a : Nat)
  | tableFull
deriving DecidableEq, Repr

/-- The text of the error. -/
def AliasError.message : AliasError → String
  | invalidAlias a =>
    s!"Tried to register an alias ({a}) outside of the valid range (0x001..=0xFFF)"
  | invalidNodeId n =>
    s!"Tried to register a node id ({n}) outside of the valid range (1..=0xFFFFFFFFFFFF)"
  | aliasInUse a => s!"The alias ({a}) is already mapped to another node"
  | tableFull => "The alias mapping table is full"

/-- The mappings of an interface. -/
structure AliasTable where
  mappings : List Mapping
  /-- A mapping may be a duplicate. -/
  hasDuplicate : Bool
deriving DecidableEq, Repr

namespace AliasTable

/-- The table without mappings. -/
def empty : AliasTable := ⟨[], false⟩

/-- The mapping of an alias; zero is no alias. -/
def find? (t : AliasTable) (a : Nat) : Option Mapping :=
  if a = 0 then none else t.mappings.find? fun m => m.aliasId = a

/-- The mapping of a node; zero is no node id. -/
def findNode? (t : AliasTable) (nodeId : Nat) : Option Mapping :=
  if nodeId = 0 then none else t.mappings.find? fun m => m.nodeId = nodeId

/-- Gives `nodeId` the alias, in place of any alias it held.  The alias is not permitted yet. -/
def register (t : AliasTable) (a nodeId : Nat) : Except AliasError AliasTable :=
  if ¬ Alias.Valid a then .error (.invalidAlias a)
  else if ¬ NodeId.Valid nodeId then .error (.invalidNodeId nodeId)
  else if t.mappings.any fun m => m.aliasId = a ∧ m.nodeId ≠ nodeId then
    .error (.aliasInUse a)
  else
    match t.mappings.findIdx? fun m => m.nodeId = nodeId with
    | some i => .ok { t with mappings := t.mappings.set i ⟨a, nodeId, false, false⟩ }
    | none =>
      if t.mappings.length < Limits.aliasDepth then
        .ok { t with mappings := t.mappings ++ [⟨a, nodeId, false, false⟩] }
      else .error .tableFull

/-- The position of an alias. -/
def position? (t : AliasTable) (a : Nat) : Option Nat :=
  t.mappings.findIdx? fun m => m.aliasId = a

/-- Takes an alias from its holder. -/
def unregister (t : AliasTable) (a : Nat) : AliasTable :=
  match t.position? a with
  | some i => { t with mappings := moveLastTo t.mappings i }
  | none => t

/-- The mapping that `AliasTable.unregister` takes away. -/
def unregistered? (t : AliasTable) (a : Nat) : Option Mapping :=
  t.mappings.find? fun m => m.aliasId = a

/-- Changes the mapping of an alias. -/
def modify (t : AliasTable) (a : Nat) (f : Mapping → Mapping) : AliasTable :=
  match t.position? a with
  | some i => if a = 0 then t else { t with mappings := t.mappings.modify i f }
  | none => t

/-- The alias may be used for traffic from now on. -/
def permit (t : AliasTable) (a : Nat) : AliasTable :=
  t.modify a fun m => { m with permitted := true }

/-- The alias may be used for traffic. -/
def isPermitted (t : AliasTable) (a : Nat) : Bool := (t.find? a).any Mapping.permitted

/-- Another node uses the alias: marks its mapping, if there is one. -/
def markDuplicate (t : AliasTable) (a : Nat) : AliasTable :=
  match t.find? a with
  | some _ => { t.modify a fun m => { m with duplicate := true } with hasDuplicate := true }
  | none => t

/-- The first mapping that is marked as a duplicate. -/
def nextDuplicate? (t : AliasTable) : Option Mapping := t.mappings.find? Mapping.duplicate

end AliasTable

end LayoutBus
