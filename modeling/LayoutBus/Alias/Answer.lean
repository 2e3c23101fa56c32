import LayoutBus.Alias.Table
import LayoutBus.Wire.Build

/-!
# Answers to control frames

Another node that checks one of our aliases is told that it is reserved; one that uses it loses
it.  An enquiry is answered for every mapping it asks for, if the mapping is permitted.

* `AliasTable.objection`, `AliasTable.conflict` and `AliasTable.definitions` are the answers to a
  single kind of frame.
* `AliasTable.noteConflict` marks our mapping of an alias that another node uses.
-/

namespace LayoutBus.AliasTable

/-- The answer to a check of an alias. -/
def objection (t : AliasTable) (source : Nat) : List Frame :=
  if (t.find? source).isSome then [.reserveId source] else []

/-- The answer to another node that uses an alias. -/
def conflict (t : AliasTable) (source : Nat) : List Frame :=
  match t.find? source with
  | some m => if m.permitted then [.aliasMapReset source m.nodeId] else []
  | none => []

/-- Another node uses the alias: the table with its mapping marked, if it is one of ours. -/
def noteConflict (t : AliasTable) (source : Nat) : AliasTable := t.markDuplicate source

/-- The mappings that an enquiry with this payload asks for: that of one node, all, or none. -/
def enquired (t : AliasTable) (payload : List UInt8) : List Mapping :=
  if payload.length = 6 then (t.findNode? (BigEndian.decode payload)).toList
  else if payload.length = 0 then t.mappings
  else []

/-- The answer to an enquiry from an alias that is not ours. -/
def definitions (t : AliasTable) (payload : List UInt8) : List Frame :=
  ((t.enquired payload).filter Mapping.permitted).map fun m => .aliasMapDefinition m.aliasId m.nodeId

end LayoutBus.AliasTable
