/-!
# Addresses and the 29-bit identifier

Every frame carries an extended identifier of 29 bits.  From the top: one bit that is sent as
one, the *message bit*, a *type* of 3 bits, a *field* of 12 bits, and the *source* alias of 12
bits.  A frame whose message bit is set carries message data; the others run the alias protocol.

* `Identifier.pack` lays the parts side by side; `Identifier.isMessage`, `Identifier.typeCode`,
  `Identifier.field` and `Identifier.source` take them out again.
* `Alias.Valid` and `NodeId.Valid` are the ranges in which an alias and a node id name something.
-/

namespace LayoutBus

/-- The largest alias, the short name of a node on one bus. -/
def Alias.mask : Nat := 0xFFF

/-- Aliases that can belong to a node. -/
def Alias.Valid (a : Nat) : Prop := 0 < a ∧ a ≤ Alias.mask

instance (a : Nat) : Decidable (Alias.Valid a) := inferInstanceAs (Decidable (_ ∧ _))

/-- The largest node id, the permanent name of a node. -/
def NodeId.mask : Nat := 0xFFFFFFFFFFFF

/-- Node ids that can belong to a node. -/
def NodeId.Valid (n : Nat) : Prop := 0 < n ∧ n ≤ NodeId.mask

instance (n : Nat) : Decidable (NodeId.Valid n) := inferInstanceAs (Decidable (_ ∧ _))

namespace Identifier

/-- Identifiers are below this number. -/
def bound : Nat := 0x20000000

/-- The top bit, which is sent as one. -/
def topBit : Nat := 0x10000000

/-- The bit of frames that carry message data. -/
def messageBit : Nat := 0x08000000

/-- The weight of the type. -/
def typeUnit : Nat := 0x01000000

/-- The weight of the field. -/
def fieldUnit : Nat := 0x1000

/-- The bit of the field that says that a destination alias leads the payload. -/
def destBit : Nat := 0x8

/-- The frame carries message data. -/
def isMessage (id : Nat) : Bool := id / messageBit % 2 == 1

/-- The three bits of the type: the kind of message frame, or the number of an alias check. -/
def typeCode (id : Nat) : Nat := id / typeUnit % 8

/-- The 12 bits of the field: a message type, a destination alias, a slice of a node id or the
kind of a control frame. -/
def field (id : Nat) : Nat := id / fieldUnit % 0x1000

/-- The alias of the sender. -/
def source (id : Nat) : Nat := id % 0x1000

/-- The identifier with the given parts, each cut to its width, and the top bit set. -/
def pack (message : Bool) (typeCode field source : Nat) : Nat :=
  topBit + (if message then messageBit else 0) + typeCode % 8 * typeUnit +
    field % 0x1000 * fieldUnit + source % 0x1000

theorem pack_lt (message : Bool) (t v s : Nat) : pack message t v s < bound := by
  unfold pack bound topBit messageBit typeUnit fieldUnit
  split <;> omega

@[simp] theorem isMessage_pack (message : Bool) (t v s : Nat) :
    isMessage (pack message t v s) = message := by
  unfold isMessage pack topBit messageBit typeUnit fieldUnit
  cases message with
  | false => exact beq_eq_false_iff_ne.2 (by simp only [Bool.false_eq_true, ↓reduceIte]; omega)
  | true => exact beq_iff_eq.2 (by simp only [↓reduceIte]; omega)

@[simp] theorem typeCode_pack (message : Bool) (t v s : Nat) :
    typeCode (pack message t v s) = t % 8 := by
  unfold typeCode pack topBit messageBit typeUnit fieldUnit
  split <;> omega

@[simp] theorem field_pack (message : Bool) (t v s : Nat) :
    field (pack message t v s) = v % 0x1000 := by
  unfold field pack topBit messageBit typeUnit fieldUnit
  split <;> omega

@[simp] theorem source_pack (message : Bool) (t v s : Nat) :
    source (pack message t v s) = s % 0x1000 := by
  unfold source pack topBit messageBit typeUnit fieldUnit
  split <;> omega

end Identifier

end LayoutBus
