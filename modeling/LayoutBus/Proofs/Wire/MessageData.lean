import LayoutBus.Message.Segment

/-!
# Reading frames that carry messages

What `Frame.messageData` writes into a frame, the readers of frames take out again.

* `Frame.kind_messageData`, `Frame.source_messageData` and `Frame.field_messageData` : the
  identifier.
* `Frame.mti_standard`, `Frame.dest_standard` and `Frame.dest_addressed` : standard messages.
* `Frame.framing_addressedPayload` and `Frame.dest_addressedPayload` : the two bytes in front of the
  data of an addressed message.
-/

namespace LayoutBus

/-- The message types in identifiers that all stand for event reports with data. -/
def Mti.eventReports : List Nat := [eventReportFirst, eventReportMiddle, eventReportLast]

theorem Mti.isAddressed_of_mem {mti : Nat} (h : mti ∈ eventReports) : isAddressed mti = false := by
  have hall : ∀ c ∈ eventReports, isAddressed c = false := by decide
  exact hall mti h

namespace Frame

variable {t : MessageType} {field source : Nat} {p : List UInt8}

theorem kind_messageData (h : p.length ≤ 8) :
    (messageData t field source p h).kind = .message t := by
  have hcode : t.code % 8 = t.code := Nat.mod_eq_of_lt t.code_lt
  unfold kind messageData
  rw [isMessage_pack, typeCode_pack, hcode, MessageType.ofCode_code]
  rfl

theorem source_messageData (h : p.length ≤ 8) :
    (messageData t field source p h).source = source % 0x1000 := source_pack h

theorem field_messageData (h : p.length ≤ 8) :
    (messageData t field source p h).field = field % 0x1000 := field_pack h

theorem payload_messageData (h : p.length ≤ 8) :
    (messageData t field source p h).payload = p := payload_pack h

/-- Destination aliases have 12 bits. -/
theorem dest_lt (f : Frame) : f.dest < 0x1000 := by
  have hfield : f.field < 0x1000 := Nat.mod_lt _ (by decide)
  unfold dest
  split
  · split
    · split
      · rename_i high low _ _
        have := low.toNat_lt
        omega
      · decide
    · decide
  all_goals first | exact hfield | decide

/-! ### Standard messages -/

variable {f : Frame}

theorem isAddressed_standard (h : f.kind = .message .standard) :
    f.isAddressed = Mti.isAddressed f.field := by
  unfold isAddressed Mti.isAddressed
  rw [h]
  rfl

theorem mti_standard (h : f.kind = .message .standard) (hf : f.field ∉ Mti.eventReports) :
    f.mti = f.field := by
  unfold mti
  rw [h]
  simp only [Mti.eventReports, List.mem_cons, List.not_mem_nil, or_false] at hf
  exact if_neg hf

theorem mti_eventReport (h : f.kind = .message .standard) (hf : f.field ∈ Mti.eventReports) :
    f.mti = Mti.eventReportWithPayload := by
  unfold mti
  rw [h]
  simp only [Mti.eventReports, List.mem_cons, List.not_mem_nil, or_false] at hf
  exact if_pos hf

theorem mti_of_isAddressed (h : f.kind = .message .standard)
    (ha : Mti.isAddressed f.field = true) : f.mti = f.field := by
  refine mti_standard h fun hmem => ?_
  rw [Mti.isAddressed_of_mem hmem] at ha
  cases ha

theorem dest_standard (h : f.kind = .message .standard) (ha : Mti.isAddressed f.field = false) :
    f.dest = 0 := by
  unfold dest
  rw [h]
  simp [isAddressed_standard h, ha]

theorem dest_addressed {high low : UInt8} {data : List UInt8} (h : f.kind = .message .standard)
    (ha : Mti.isAddressed f.field = true) (hp : f.payload = high :: low :: data) :
    f.dest = high.toNat % 16 * 256 + low.toNat := by
  unfold dest
  rw [h]
  simp [isAddressed_standard h, ha, hp]

theorem dest_addressedPayload {framing dest : Nat} {data : List UInt8}
    (h : f.kind = .message .standard) (ha : Mti.isAddressed f.field = true)
    (hp : f.payload = Message.addressedPayload framing dest data) (hf : framing % 16 = 0)
    (hd : dest < 0x1000) : f.dest = dest := by
  rw [dest_addressed h ha hp, UInt8.toNat_ofNat', UInt8.toNat_ofNat']
  omega

theorem framing_addressedPayload {framing dest : Nat} {data : List UInt8}
    (hp : f.payload = Message.addressedPayload framing dest data) (hf : framing % 16 = 0)
    (hlt : framing < 256) : f.framing = framing := by
  unfold Frame.framing
  rw [hp]
  show (UInt8.ofNat (framing + dest / 256 % 16)).toNat / 16 * 16 = framing
  rw [UInt8.toNat_ofNat']
  omega

/-! ### Datagrams -/

theorem dest_datagram (h : f.kind = .message t)
    (ht : t ∈ [MessageType.datagramOnly, .datagramFirst, .datagramMiddle, .datagramFinal]) :
    f.dest = f.field := by
  unfold dest
  rw [h]
  cases t <;> simp at ht <;> rfl

theorem mti_datagram (h : f.kind = .message t)
    (ht : t ∈ [MessageType.datagramOnly, .datagramFirst, .datagramMiddle, .datagramFinal]) :
    f.mti = Mti.datagram := by
  unfold mti
  rw [h]
  cases t <;> simp at ht <;> rfl

end Frame

end LayoutBus
