import LayoutBus.Bytes
import LayoutBus.Wire.Identifier

/-!
# Frames

A frame is an identifier of 29 bits with at most 8 bytes of payload; both bounds are part of the
type.

* `Frame.ofId?` builds a frame from any number and any bytes, and refuses what does not fit.
* `Frame.pack` builds a frame from the parts of its identifier, which always fit.
* `Frame.nodeIdAt` and `Frame.zerosFrom` read the payload.
-/

namespace LayoutBus

/-- A data frame with an extended identifier. -/
structure Frame where
  /-- The identifier. -/
  id : Nat
  /-- The data bytes. -/
  payload : List UInt8
  id_lt : id < Identifier.bound
  length_le : payload.length ≤ 8
deriving DecidableEq, Repr

namespace Frame

/-- A frame may be without data. -/
theorem empty_le : ([] : List UInt8).length ≤ 8 := Nat.zero_le 8

/-- The frame with identifier zero and no data, which an unused buffer holds. -/
def blank : Frame := ⟨0, [], by decide, empty_le⟩

instance : Inhabited Frame := ⟨blank⟩

/-- The frame with these parts, if they fit. -/
def ofId? (id : Nat) (payload : List UInt8) : Option Frame :=
  if h : id < Identifier.bound ∧ payload.length ≤ 8 then some ⟨id, payload, h.1, h.2⟩ else none

/-- The frame whose identifier has these parts, each cut to its width. -/
def pack (message : Bool) (typeCode field source : Nat) (payload : List UInt8)
    (h : payload.length ≤ 8) : Frame :=
  ⟨Identifier.pack message typeCode field source, payload, Identifier.pack_lt .., h⟩

/-- The frame carries message data. -/
def isMessage (f : Frame) : Bool := Identifier.isMessage f.id

/-- The type of the identifier. -/
def typeCode (f : Frame) : Nat := Identifier.typeCode f.id

/-- The field of the identifier. -/
def field (f : Frame) : Nat := Identifier.field f.id

/-- The alias of the sender. -/
def source (f : Frame) : Nat := Identifier.source f.id

/-- The node id in the six payload bytes from `offset` on, if they are there. -/
def nodeIdAt (f : Frame) (offset : Nat) : Option Nat := BigEndian.readAt 6 offset f.payload

/-- How many payload bytes from `offset` on are zero. -/
def zerosFrom (f : Frame) (offset : Nat) : Nat := (f.payload.drop offset).count 0

theorem ofId?_eq_some_iff {id : Nat} {payload : List UInt8} {f : Frame} :
    ofId? id payload = some f ↔ f.id = id ∧ f.payload = payload := by
  unfold ofId?
  constructor
  · intro h
    split at h
    · cases h
      exact ⟨rfl, rfl⟩
    · cases h
  · rintro ⟨rfl, rfl⟩
    exact dif_pos ⟨f.id_lt, f.length_le⟩

@[simp] theorem isMessage_pack {m : Bool} {t v s : Nat} {p : List UInt8} (h : p.length ≤ 8) :
    (pack m t v s p h).isMessage = m := Identifier.isMessage_pack ..

@[simp] theorem typeCode_pack {m : Bool} {t v s : Nat} {p : List UInt8} (h : p.length ≤ 8) :
    (pack m t v s p h).typeCode = t % 8 := Identifier.typeCode_pack ..

@[simp] theorem field_pack {m : Bool} {t v s : Nat} {p : List UInt8} (h : p.length ≤ 8) :
    (pack m t v s p h).field = v % 0x1000 := Identifier.field_pack ..

@[simp] theorem source_pack {m : Bool} {t v s : Nat} {p : List UInt8} (h : p.length ≤ 8) :
    (pack m t v s p h).source = s % 0x1000 := Identifier.source_pack ..

@[simp] theorem payload_pack {m : Bool} {t v s : Nat} {p : List UInt8} (h : p.length ≤ 8) :
    (pack m t v s p h).payload = p := rfl

end Frame

end LayoutBus
