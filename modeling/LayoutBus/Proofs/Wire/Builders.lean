import LayoutBus.Proofs.Wire.MessageData
import Mathlib.Algebra.Group.Nat.Defs

/-!
# Building a frame and reading it

What the builders of frames are given, the readers give back, and a frame with message data is the
one that the builder makes from what the readers say of it.

* `Identifier.pack_parts` : an identifier is packed from its own parts, once its top bit is set.
* `Frame.messageData?_eq_some_iff` : the frames that `Frame.messageData?` builds, by their parts.
* `Frame.image` : a frame as it is stored, with all eight data bytes.  Frames are equal if and only
  if their images are (`Frame.image_injective`), since the bytes behind the data are zero.
* `Frame.AliasInverse`, `Frame.MessageInverse`, `Frame.Stored` : what holds of the frames of the
  alias protocol, of those with message data, and of all.
* `Frame.builders_inverse` : **builders and readers are inverse.**

The type of a frame with message data has to be an assigned one: both types that are not
assigned, 0 and 6, are read as `MessageType.reserved`, and only 0 is built from it.
-/

namespace LayoutBus

namespace Identifier

theorem testBit_eq {id i : Nat} : id.testBit i = true ↔ id / 2 ^ i % 2 = 1 := by
  rw [Nat.testBit_eq_decide_div_mod_eq, decide_eq_true_eq]

theorem top_pack (message : Bool) (t v s : Nat) : (pack message t v s).testBit 28 = true := by
  rw [testBit_eq]
  unfold pack topBit messageBit typeUnit fieldUnit
  split <;> omega

/-- The fields lie side by side and fill the identifier. -/
theorem pack_parts {id : Nat} (hlt : id < bound) (htop : id.testBit 28 = true) :
    pack (isMessage id) (typeCode id) (field id) (source id) = id := by
  rw [testBit_eq] at htop
  unfold bound at hlt
  unfold pack isMessage typeCode field source topBit messageBit typeUnit fieldUnit
  simp only [beq_iff_eq]
  split <;> omega

/-- Only the low bits of the parts go into an identifier. -/
theorem pack_mod (message : Bool) (t v s : Nat) :
    pack message t (v % 0x1000) (s % 0x1000) = pack message t v s := by
  simp only [pack, Nat.mod_mod]

end Identifier

namespace MessageType

theorem code_ofCode {c : Nat} (hc : c < 8) (h : ofCode c ≠ reserved) : (ofCode c).code = c := by
  have hall : ∀ c < 8, ofCode c ≠ reserved → (ofCode c).code = c := by decide
  exact hall c hc h

end MessageType

namespace Frame

theorem eq_of_parts {f g : Frame} (hid : f.id = g.id) (hpayload : f.payload = g.payload) :
    f = g := by
  cases f
  cases g
  cases hid
  cases hpayload
  rfl

/-! ### Message data -/

variable {f : Frame} {t : MessageType} {v s : Nat} {p : List UInt8}

theorem kind_eq_message_iff :
    f.kind = .message t ↔ f.isMessage = true ∧ MessageType.ofCode f.typeCode = t := by
  unfold kind
  cases hm : f.isMessage with
  | true => simp
  | false =>
    rw [if_neg Bool.false_ne_true]
    split
    · split <;> simp
    · simp

/-- The frames with message data, by the parts that the readers take out. -/
theorem messageData?_eq_some_iff (ht : t ≠ .reserved) :
    messageData? t v s p = some f ↔
      f.id.testBit 28 = true ∧ f.kind = .message t ∧ f.field = v % 0x1000 ∧
        f.source = s % 0x1000 ∧ f.payload = p := by
  constructor
  · intro h
    unfold messageData? at h
    split at h
    · cases h
      exact ⟨Identifier.top_pack .., kind_messageData _, field_messageData _,
        source_messageData _, rfl⟩
    · cases h
  · rintro ⟨htop, hkind, hfield, hsource, rfl⟩
    obtain ⟨hmessage, rfl⟩ := kind_eq_message_iff.1 hkind
    have hcode : (MessageType.ofCode f.typeCode).code = f.typeCode :=
      MessageType.code_ofCode (Nat.mod_lt _ (by decide)) ht
    rw [messageData?, dif_pos f.length_le]
    refine congrArg some (eq_of_parts ?_ rfl)
    calc Identifier.pack true (MessageType.ofCode f.typeCode).code v s
        = Identifier.pack f.isMessage f.typeCode f.field f.source := by
          rw [hmessage, hcode, hfield, hsource, Identifier.pack_mod]
      _ = f.id := Identifier.pack_parts f.id_lt htop

/-! ### The stored form -/

/-- A frame as it is stored. -/
structure Image where
  id : Nat
  /-- How many of the bytes are data. -/
  count : Nat
  /-- The data bytes and those behind them. -/
  bytes : List UInt8
deriving DecidableEq, Repr

/-- The data is copied to the start of eight zero bytes. -/
def image (f : Frame) : Image :=
  ⟨f.id, f.payload.length, f.payload ++ (List.replicate 8 0).drop f.payload.length⟩

/-- The stored form of a frame has the right size, and no other bytes than its data. -/
structure Stored (f : Frame) : Prop where
  id_lt : f.image.id < 2 ^ 29
  count_le : f.image.count ≤ 8
  length : f.image.bytes.length = 8
  data : f.image.bytes.take f.image.count = f.payload
  rest : ∀ b ∈ f.image.bytes.drop f.image.count, b = 0

theorem stored (f : Frame) : f.Stored where
  id_lt := f.id_lt
  count_le := f.length_le
  length := by
    have := f.length_le
    simp [image]
    omega
  data := List.take_left
  rest b hb := by
    rw [image, List.drop_left] at hb
    exact List.eq_of_mem_replicate (List.mem_of_mem_drop hb)

/-- To compare frames as they are stored is to compare what they say. -/
theorem image_injective : Function.Injective image := by
  intro f g h
  have hpayload : f.payload = g.payload := by rw [← f.stored.data, h, g.stored.data]
  exact eq_of_parts (congrArg Image.id h) hpayload

/-! ### The frames of the alias protocol -/

/-- A control frame of this kind and sender, with this node id for its data, or without data. -/
structure Tells (f : Frame) (k : ControlKind) (a : Nat) (id : Option Nat) : Prop where
  kind : f.kind = .control k
  source : f.source = a
  nodeId : f.nodeIdAt 0 = id
  length : f.payload.length = if id.isSome then 6 else 0

theorem tells_nodeId {k : ControlKind} {a n : Nat} (ha : a ≤ Alias.mask) (hn : n ≤ NodeId.mask) :
    (control k a (BigEndian.encode 6 n) (by simp)).Tells k a (some n) where
  kind := kind_control ..
  source := (source_control ..).trans (Nat.mod_eq_of_lt (Nat.lt_succ_of_le ha))
  nodeId := by
    have hlt : n < BigEndian.span 6 := Nat.lt_succ_of_le hn
    have hread := BigEndian.readAt_encode [] [] 6 n
    rw [Nat.mod_eq_of_lt hlt, List.nil_append, List.append_nil] at hread
    exact hread
  length := BigEndian.length_encode 6 n

theorem tells_nothing {k : ControlKind} {a : Nat} (ha : a ≤ Alias.mask) :
    (control k a [] empty_le).Tells k a none where
  kind := kind_control ..
  source := (source_control ..).trans (Nat.mod_eq_of_lt (Nat.lt_succ_of_le ha))
  nodeId := rfl
  length := rfl

/-- Behind what is above it, a slice of 12 bits makes up the number from there on. -/
theorem concat_slice (n k : Nat) : n >>> (k + 12) <<< 12 ||| n >>> k % 0x1000 = n >>> k := by
  have hlt : n >>> k % 0x1000 < 2 ^ 12 := Nat.mod_lt _ (by decide)
  rw [← Nat.shiftLeft_add_eq_or_of_lt hlt, Nat.shiftRight_add, Nat.shiftLeft_eq,
    Nat.shiftRight_eq_div_pow _ 12]
  exact Nat.div_add_mod' _ _

/-- The node id that the fields of the four checks spell, that of number 7 first. -/
def checkedId (a n : Nat) : Nat :=
  [7, 6, 5, 4].foldl (fun id number => id <<< 12 ||| (checkId number a n).field) 0

theorem checkedId_eq {n : Nat} (a : Nat) (hn : n ≤ NodeId.mask) : checkedId a n = n := by
  have hempty : n >>> (36 + 12) = 0 := by
    rw [Nat.shiftRight_eq_div_pow]
    exact Nat.div_eq_of_lt (Nat.lt_succ_of_le hn)
  have hfirst := concat_slice n 36
  rw [hempty] at hfirst
  unfold checkedId
  simp only [List.foldl_cons, List.foldl_nil, field_checkId, Nat.reduceLeDiff, and_self,
    Nat.reduceSub, Nat.reduceMul]
  -- What has been spelled after each check is the node id without the slices still to come.
  rw [hfirst, concat_slice n 24, concat_slice n 12]
  exact concat_slice n 0

/-- What the frames of the alias protocol are built from can be read in them. -/
structure AliasInverse (a n : Nat) : Prop where
  check : ∀ number, 4 ≤ number ∧ number ≤ 7 →
    (checkId number a n).kind = .checkId number ∧ (checkId number a n).source = a
  checks : checkedId a n = n
  claim : (reserveId a).Tells .reserveId a none
  definition : (aliasMapDefinition a n).Tells .aliasMapDefinition a (some n)
  reset : (aliasMapReset a n).Tells .aliasMapReset a (some n)
  enquiry : (aliasMapEnquiry a (some n)).Tells .aliasMapEnquiry a (some n)
  enquiryAll : (aliasMapEnquiry a none).Tells .aliasMapEnquiry a none

theorem aliasInverse {a n : Nat} (ha : a ≤ Alias.mask) (hn : n ≤ NodeId.mask) :
    AliasInverse a n where
  check _ h :=
    ⟨kind_checkId h, (source_checkId h).trans (Nat.mod_eq_of_lt (Nat.lt_succ_of_le ha))⟩
  checks := checkedId_eq a hn
  claim := tells_nothing ha
  definition := tells_nodeId ha hn
  reset := tells_nodeId ha hn
  enquiry := tells_nodeId ha hn
  enquiryAll := tells_nothing ha

/-! ### Both directions -/

/-- A frame with message data of type `t` is built from what can be read in it. -/
structure MessageInverse (t : MessageType) : Prop where
  build : ∀ v s p, p.length ≤ 8 → ∃ f, messageData? t v s p = some f ∧ f.kind = .message t ∧
    f.field = v % 0x1000 ∧ f.source = s % 0x1000 ∧ f.payload = p
  rebuild : ∀ f : Frame, f.id.testBit 28 = true → f.id.testBit 27 = true → f.kind = .message t →
    messageData? t f.field f.source f.payload = some f

theorem messageInverse (ht : t ≠ .reserved) : MessageInverse t where
  build v s p hp := by
    have hsome : messageData? t v s p = some (messageData t v s p hp) := dif_pos hp
    exact ⟨_, hsome, ((messageData?_eq_some_iff ht).1 hsome).2⟩
  rebuild f htop _ hkind := by
    have hfield : f.field = f.field % 0x1000 := (Nat.mod_mod _ _).symm
    have hsource : f.source = f.source % 0x1000 := (Nat.mod_mod _ _).symm
    exact (messageData?_eq_some_iff ht).2 ⟨htop, hkind, hfield, hsource, rfl⟩

/-- A standard message is directed to one node if its type has the bit `Mti.destBit`. -/
theorem isAddressed_standard? {m : Nat} (hp : p.length ≤ 8) :
    ∃ f, standard? m s p = some f ∧ f.isAddressed = m.testBit 3 := by
  refine ⟨messageData .standard m s p hp, dif_pos hp, ?_⟩
  rw [isAddressed_standard (kind_messageData hp), field_messageData]
  unfold Mti.isAddressed Mti.destBit
  rw [Bool.eq_iff_iff, beq_iff_eq, Identifier.testBit_eq]
  omega

/-- **Builders and readers of frames are inverse.**  The frames of the alias protocol tell the alias
and the node id they were built from; a frame with message data tells its parts, and the parts
make up the frame; and no frame holds more than its identifier and its data. -/
theorem builders_inverse :
    (∀ a n, a ≤ Alias.mask → n ≤ NodeId.mask → AliasInverse a n) ∧
    (∀ t, t ≠ .reserved → MessageInverse t) ∧
    (∀ m s p, p.length ≤ 8 → ∃ f, standard? m s p = some f ∧ f.isAddressed = m.testBit 3) ∧
    ∀ f : Frame, f.Stored :=
  ⟨fun _ _ ha hn => aliasInverse ha hn, fun _ ht => messageInverse ht,
    fun _ _ _ hp => isAddressed_standard? hp, stored⟩

/-- The widest alias and node id, a frame of a stream, and a message to one node. -/
theorem builders_inverse_widest :
    AliasInverse Alias.mask NodeId.mask ∧ MessageInverse .stream ∧
      ∃ f, standard? Mti.verifyNodeIdAddressed Alias.mask [0x0A, 0xBC] = some f ∧
        f.isAddressed = true :=
  ⟨builders_inverse.1 _ _ (by decide) (by decide), builders_inverse.2.1 _ (by decide),
    builders_inverse.2.2.1 _ _ _ (by decide)⟩

-- Why the type has to be assigned: this frame is none that is built.
example : (pack true 6 0 0 [] empty_le).kind = .message .reserved ∧
    messageData? .reserved 0 0 [] ≠ some (pack true 6 0 0 [] empty_le) := by decide

end Frame

end LayoutBus
