import LayoutBus.Interface.Receive
import LayoutBus.Proofs.Message.Framing

/-!
# Frames of a message at the receiver

The two ends of a message agree on its frames: each frame that the sender makes is taken by the
receiver as a frame of this message, at the place and with the data that the sender meant.

* `Message.Carried` : the messages of which this is true.
* `Message.assemblyKey_part` and `Message.dataFrom_part` : the message and the data of a frame.
* `Message.receive_part` : how the frame is taken.
-/

namespace LayoutBus

/-- Messages of this type, with this many payload bytes, can be put together again. -/
inductive Mti.Carries (mti length : Nat) : Prop where
  | datagram (hmti : mti = Mti.datagram) (hle : length ≤ Limits.datagramLength)
  | eventReport (hmti : mti = Mti.eventReportWithPayload) (hpos : 1 ≤ length)
      (hle : length ≤ Limits.snipLength)
  | nodeInfoReply (hmti : mti = Mti.nodeInfoReply) (hmany : 7 ≤ length)
      (hle : length ≤ Limits.snipLength)
  | addressed (hmti : mti ≤ 0xFFF) (ha : Mti.isAddressed mti = true)
      (hreply : mti ≠ Mti.nodeInfoReply) (hle : length ≤ Limits.basicLength)
  | global (hmti : mti ≤ 0xFFF) (ha : Mti.isAddressed mti = false)
      (hevent : mti ∉ Mti.eventReports)
      (hle : length ≤ Message.frameWidth)

/-- The place says how a frame is taken, into a buffer of size `c` if it is the first. -/
def Resources.accept (r : Resources) (f : Frame) (offset : Nat) (c : SizeClass) :
    Place → Resources
  | .only => r.acceptOnly f offset c
  | .first => r.acceptFirst f offset c
  | .middle => r.acceptMiddle f offset
  | .last => r.acceptLast f offset

theorem Place.eventReportMti_mem (p : Place) : p.eventReportMti ∈ Mti.eventReports := by
  cases p <;> decide

namespace Message

/-- The message can be sent and put together again. -/
structure Carried (m : Message) : Prop where
  source : Alias.Valid m.header.source
  count : m.header.count ≤ m.capacity
  type : Mti.Carries m.header.mti m.payload.length

/-- What the receiver knows the message by. -/
def key (m : Message) : AssemblyKey :=
  ⟨m.header.source, if m.header.isAddressed then m.header.dest else 0, m.header.mti⟩

theorem dest_key {m : Message} (ha : m.header.isAddressed = true) : m.key.dest = m.header.dest :=
  if_pos ha

/-- Where the data start in the frames of the message. -/
def dataOffset (m : Message) : Nat :=
  if Transport.ofMti m.header.mti = .addressed then addressedOffset else 0

/-- The size of the buffer into which the receiver puts the message. -/
def receivedIn (m : Message) : SizeClass :=
  if m.parts = 1 then .basic
  else
    match Transport.ofMti m.header.mti with
    | .datagram => .datagram
    | .eventReport => .snip
    | .addressed => if m.header.mti = Mti.nodeInfoReply then .snip else .basic
    | .global | .stream => .basic

variable {m : Message} {r : Resources} {f : Frame} {i : Nat} {streams : Bool}

/-! ### The kinds of messages -/

/-- What the frames of the message have to be told apart by. -/
inductive Carried.Kind (m : Message) : Prop where
  | datagram (ht : Transport.ofMti m.header.mti = .datagram) (hmti : m.header.mti = Mti.datagram)
  | eventReport (ht : Transport.ofMti m.header.mti = .eventReport)
      (hmti : m.header.mti = Mti.eventReportWithPayload) (hpos : 0 < m.header.count)
  | addressed (ht : Transport.ofMti m.header.mti = .addressed) (hmti : m.header.mti ≤ 0xFFF)
      (ha : Mti.isAddressed m.header.mti = true)
      (hreply : m.header.mti = Mti.nodeInfoReply → addressedWidth < m.header.count)
  | global (ht : Transport.ofMti m.header.mti = .global) (hmti : m.header.mti ≤ 0xFFF)
      (ha : Mti.isAddressed m.header.mti = false)
      (hevent : m.header.mti ∉ Mti.eventReports)
      (hle : m.header.count ≤ frameWidth)

theorem transport_addressed {mti : Nat} (hmti : mti ≤ 0xFFF) (ha : Mti.isAddressed mti = true) :
    Transport.ofMti mti = .addressed := by
  unfold Transport.ofMti
  rw [if_neg, if_neg, if_neg, if_pos ha]
  · rintro rfl
    exact absurd hmti (by decide)
  · rintro rfl
    exact absurd ha (by decide)
  · rintro rfl
    exact absurd hmti (by decide)

theorem transport_global {mti : Nat} (hmti : mti ≤ 0xFFF) (ha : Mti.isAddressed mti = false)
    (hevent : mti ∉ Mti.eventReports) : Transport.ofMti mti = .global := by
  have hreport : mti ≠ Mti.eventReportWithPayload := by
    rintro rfl
    exact hevent (by decide)
  unfold Transport.ofMti
  rw [if_neg, if_neg hreport, if_neg, if_neg (by simp [ha])]
  · rintro rfl
    exact absurd hmti (by decide)
  · rintro rfl
    exact absurd hmti (by decide)

theorem Carried.kind (hm : m.Carried) : Carried.Kind m := by
  have hlength := length_payload_of_le hm.count
  obtain ⟨hmti, -⟩ | ⟨hmti, hpos, -⟩ | ⟨hmti, hmany, -⟩ | ⟨hmti, ha, hreply, -⟩ |
    ⟨hmti, ha, hevent, hle⟩ := hm.type
  · exact .datagram (hmti ▸ rfl) hmti
  · exact .eventReport (hmti ▸ rfl) hmti (hlength ▸ hpos)
  · refine .addressed (hmti ▸ rfl) (hmti ▸ by decide) (hmti ▸ rfl) fun _ => ?_
    exact hlength ▸ hmany
  · exact .addressed (transport_addressed hmti ha) hmti ha fun heq => absurd heq hreply
  · refine .global (transport_global hmti ha hevent) hmti ha hevent ?_
    exact hlength ▸ hle

/-- A message that travels to all nodes in one frame is short. -/
theorem Carried.count_le (hm : m.Carried) (ht : Transport.ofMti m.header.mti = .global) :
    m.header.count ≤ frameWidth := by
  obtain ⟨ht', -⟩ | ⟨ht', -⟩ | ⟨ht', -⟩ | ⟨-, -, -, -, hle⟩ := hm.kind
  case global => exact hle
  all_goals cases ht.symm.trans ht'

theorem Carried.not_stream (hm : m.Carried) (ht : Transport.ofMti m.header.mti = .stream) :
    streams = true := by
  obtain ⟨ht', -⟩ | ⟨ht', -⟩ | ⟨ht', -⟩ | ⟨ht', -⟩ := hm.kind <;> cases ht.symm.trans ht'

/-- The message fits into the buffer. -/
theorem Carried.length_le (hm : m.Carried) : m.payload.length ≤ m.receivedIn.capacity := by
  unfold receivedIn
  split
  · rename_i hone
    have hle := count_le_parts_mul hm.count_le
    rw [hone, Nat.one_mul] at hle
    rw [length_payload_of_le hm.count]
    exact Nat.le_trans (Nat.le_trans hle m.width_le) (by decide)
  · obtain ⟨hmti, hle⟩ | ⟨hmti, -, hle⟩ | ⟨hmti, -, hle⟩ | ⟨hmti, ha, hreply, hle⟩ |
      ⟨hmti, ha, hevent, hle⟩ := hm.type
    · rw [hmti]
      exact hle
    · rw [hmti]
      exact hle
    · rw [hmti]
      exact hle
    · rw [transport_addressed hmti ha]
      simp only [hreply, if_false]
      exact hle
    · rw [transport_global hmti ha hevent]
      have hbasic : frameWidth ≤ Limits.basicLength := by decide
      exact Nat.le_trans hle hbasic

/-! ### What the receiver reads -/

theorem place_eq_only_iff : m.place i = .only ↔ m.parts = 1 := by
  unfold place
  constructor
  · intro h
    split at h
    · assumption
    · split at h
      · cases h
      · split at h <;> cases h
  · intro h
    rw [if_pos h]

/-- The receiver knows the frames of a message by its key. -/
theorem assemblyKey_part (hm : m.Carried)
    (hdest : m.header.isAddressed = true → m.header.dest < 0x1000) (i : Nat) :
    (m.part i).assemblyKey = m.key := by
  have hsource : (m.part i).source = m.header.source := by
    rw [source_part]
    exact Nat.mod_eq_of_lt (Nat.lt_succ_of_le hm.source.2)
  suffices h : (m.part i).dest = m.key.dest ∧ (m.part i).mti = m.header.mti by
    unfold Frame.assemblyKey
    rw [hsource, h.1, h.2]
    rfl
  have hkey : m.key.dest = if m.header.isAddressed then m.header.dest else 0 := rfl
  rw [hkey]
  obtain ⟨ht, hmti⟩ | ⟨ht, hmti, -⟩ | ⟨ht, hmti, ha, -⟩ | ⟨ht, hmti, ha, hevent, -⟩ := hm.kind
  · -- datagrams carry their destination in the identifier
    have ha : m.header.isAddressed = true := by rw [Header.isAddressed, hmti]; rfl
    obtain ⟨hk, hf, -⟩ := plain_part (datagram_part ht hm.count i) (by rw [width, ht])
    have hmem : (m.place i).datagramType ∈ [MessageType.datagramOnly, .datagramFirst,
        .datagramMiddle, .datagramFinal] := by
      cases m.place i <;> decide
    rw [Frame.dest_datagram hk hmem, Frame.mti_datagram hk hmem, hf, hmti, if_pos ha]
    exact ⟨Nat.mod_eq_of_lt (hdest ha), rfl⟩
  · -- the three types of an event report stand for one
    have ha : m.header.isAddressed = false := by rw [Header.isAddressed, hmti]; rfl
    obtain ⟨hk, hf, -⟩ := plain_part (eventReport_part ht hm.count i) (by rw [width, ht])
    have hmem := (m.place i).eventReportMti_mem
    have hlt : ∀ c ∈ Mti.eventReports, c % 0x1000 = c := by decide
    rw [hlt _ hmem] at hf
    rw [if_neg (by simp [ha]), hmti]
    exact ⟨Frame.dest_standard hk (hf ▸ Mti.isAddressed_of_mem hmem),
      Frame.mti_eventReport hk (hf ▸ hmem)⟩
  · have ha' : m.header.isAddressed = true := ha
    obtain ⟨hk, hf, hp⟩ := addressed_part (i := i) ht hm.count
    rw [Nat.mod_eq_of_lt (Nat.lt_succ_of_le hmti)] at hf
    obtain ⟨h16, -⟩ := (m.place i).framing_lt
    rw [if_pos ha']
    exact ⟨Frame.dest_addressedPayload hk (hf ▸ ha) hp h16 (hdest ha'),
      (Frame.mti_of_isAddressed hk (hf ▸ ha)).trans hf⟩
  · have ha' : ¬ m.header.isAddressed = true := by rw [Header.isAddressed, ha]; decide
    obtain ⟨hk, hf, -⟩ := plain_part (global_part ht i) (by rw [width, ht])
    rw [Nat.mod_eq_of_lt (Nat.lt_succ_of_le hmti)] at hf
    rw [if_neg ha']
    exact ⟨Frame.dest_standard hk (hf ▸ ha), (Frame.mti_standard hk (hf ▸ hevent)).trans hf⟩

/-- The data of the frames are the pieces of the payload. -/
theorem dataFrom_part (hm : m.Carried) (i : Nat) :
    (m.part i).dataFrom m.dataOffset = m.chunk (m.cursorAt i) m.width := by
  unfold Frame.dataFrom dataOffset
  obtain ⟨ht, hmti⟩ | ⟨ht, hmti, -⟩ | ⟨ht, hmti, ha, -⟩ | ⟨ht, hmti, ha, hevent, -⟩ := hm.kind
  · rw [ht, (plain_part (datagram_part ht hm.count i) (by rw [width, ht])).2.2]
    rfl
  · rw [ht, (plain_part (eventReport_part ht hm.count i) (by rw [width, ht])).2.2]
    rfl
  · rw [ht, (addressed_part ht hm.count).2.2]
    rfl
  · rw [ht, (plain_part (global_part ht i) (by rw [width, ht])).2.2]
    rfl

/-! ### How the frames are taken -/

theorem receiveAddressed_of_framing {p : Place} (hf : f.framing = p.framing)
    (hreply : f.mti = Mti.nodeInfoReply → p ≠ .only) :
    r.receiveAddressed f = r.accept f addressedOffset
      (if p = .only then .basic else if f.mti = Mti.nodeInfoReply then .snip else .basic) p := by
  unfold Resources.receiveAddressed
  simp only [hf]
  cases p with
  | only =>
    have hmti : f.mti ≠ Mti.nodeInfoReply := fun heq => hreply heq rfl
    simp [hmti, Place.framing, Resources.accept]
  | first | middle | last =>
    simp [Place.framing, Framing.only, Framing.first, Framing.middle, Framing.final,
      Resources.accept]

theorem receivedIn_of_only (h : m.place i = .only) : m.receivedIn = .basic := by
  unfold receivedIn
  rw [if_pos (place_eq_only_iff.1 h)]

theorem receivedIn_of_ne (h : m.place i ≠ .only) :
    m.receivedIn =
      match Transport.ofMti m.header.mti with
      | .datagram => .datagram
      | .eventReport => .snip
      | .addressed => if m.header.mti = Mti.nodeInfoReply then .snip else .basic
      | .global | .stream => .basic := by
  unfold receivedIn
  rw [if_neg fun hone => h (place_eq_only_iff.2 hone)]

theorem receiveGlobal_of_field {p : Place} {c : SizeClass} (hf : f.field = p.eventReportMti)
    (hp : p ≠ .only) (hc : c = .snip) : r.receiveGlobal f = r.accept f 0 c p := by
  subst hc
  unfold Resources.receiveGlobal
  simp only [hf]
  cases p with
  | only => exact absurd rfl hp
  | first | middle | last => rfl

theorem receiveGlobal_of_not_mem (hf : f.field ∉ Mti.eventReports) :
    r.receiveGlobal f = r.acceptOnly f 0 .basic := by
  simp only [Mti.eventReports, List.mem_cons, List.not_mem_nil, or_false, not_or] at hf
  unfold Resources.receiveGlobal
  rw [if_neg hf.1, if_neg hf.2.1, if_neg hf.2.2]

/-- A message that does not fit into one frame of a kind is not in one frame. -/
theorem place_ne_only_of_lt (hg : Transport.ofMti m.header.mti ≠ .global)
    (hlt : m.width < m.header.count) : m.place i ≠ .only := by
  intro hp
  have hle := count_le_parts_mul fun ht => absurd ht hg
  rw [place_eq_only_iff.1 hp, Nat.one_mul] at hle
  omega

theorem place_ne_only_of_eventReport (ht : Transport.ofMti m.header.mti = .eventReport)
    (hpos : 0 < m.header.count) : m.place i ≠ .only := by
  intro hp
  have hparts := place_eq_only_iff.1 hp
  rw [parts, ht] at hparts
  simp only [if_neg (Nat.ne_of_gt hpos)] at hparts
  omega

/-- The receiver takes each frame of a message at its place. -/
theorem receive_part (hm : m.Carried) (hdest : m.header.isAddressed = true → m.header.dest < 0x1000)
    (hknown : m.header.isAddressed = true → (r.aliases.find? m.header.dest).isSome) (i : Nat) :
    r.receive streams (m.part i) = r.accept (m.part i) m.dataOffset m.receivedIn (m.place i) := by
  have hkey := assemblyKey_part hm hdest i
  have hmti' : (m.part i).mti = m.header.mti := congrArg AssemblyKey.mti hkey
  have hus (ha : m.header.isAddressed = true) : r.isForUs (m.part i) = true := by
    have hd : (m.part i).dest = m.header.dest :=
      (congrArg AssemblyKey.dest hkey).trans (dest_key ha)
    unfold Resources.isForUs
    rw [hd]
    exact hknown ha
  -- a standard message goes by its destination bit
  have hstandard (hk : (m.part i).kind = .message .standard) :
      r.receive streams (m.part i) =
        if Mti.isAddressed (m.part i).field then
          if r.isForUs (m.part i) then r.receiveAddressed (m.part i) else r
        else r.receiveGlobal (m.part i) := by
    rw [← Frame.isAddressed_standard hk]
    unfold Resources.receive
    rw [hk]
    rfl
  obtain ⟨ht, hmti⟩ | ⟨ht, hmti, hpos⟩ | ⟨ht, hmti, ha, hreply⟩ | ⟨ht, hmti, ha, hevent, -⟩ :=
    hm.kind
  · have ha : m.header.isAddressed = true := by rw [Header.isAddressed, hmti]; rfl
    obtain ⟨hk, -, -⟩ := plain_part (datagram_part ht hm.count i) (by rw [width, ht])
    have hoff : m.dataOffset = 0 := by rw [dataOffset, ht]; rfl
    unfold Resources.receive
    rw [hk, hoff]
    cases hp : m.place i with
    | only =>
      rw [receivedIn_of_only hp]
      exact if_pos (hus ha)
    | first | middle | last =>
      rw [receivedIn_of_ne (i := i) (by rw [hp]; decide), ht]
      exact if_pos (hus ha)
  · obtain ⟨hk, hf, -⟩ := plain_part (eventReport_part ht hm.count i) (by rw [width, ht])
    have hmem := (m.place i).eventReportMti_mem
    have hlt : ∀ c ∈ Mti.eventReports, c % 0x1000 = c := by decide
    rw [hlt _ hmem] at hf
    have hoff : m.dataOffset = 0 := by rw [dataOffset, ht]; rfl
    have hmany : m.place i ≠ .only := place_ne_only_of_eventReport ht hpos
    rw [hstandard hk, hf, Mti.isAddressed_of_mem hmem, hoff]
    exact receiveGlobal_of_field hf hmany (by rw [receivedIn_of_ne hmany, ht])
  · obtain ⟨hk, hf, hp⟩ := addressed_part (i := i) ht hm.count
    rw [Nat.mod_eq_of_lt (Nat.lt_succ_of_le hmti)] at hf
    obtain ⟨h16, hlt⟩ := (m.place i).framing_lt
    have hoff : m.dataOffset = addressedOffset := by rw [dataOffset, ht]; rfl
    -- a node information reply of one frame would be taken for one that does not say its place
    have hmany : (m.part i).mti = Mti.nodeInfoReply → m.place i ≠ .only := by
      intro heq
      refine place_ne_only_of_lt (by rw [ht]; decide) ?_
      rw [width, ht]
      exact hreply (hmti' ▸ heq)
    rw [hstandard hk, hf, ha, hoff, if_pos rfl, if_pos (hus ha),
      receiveAddressed_of_framing (Frame.framing_addressedPayload hp h16 hlt) hmany, hmti']
    cases hplace : m.place i with
    | only => rw [receivedIn_of_only hplace, if_pos rfl]
    | first | middle | last =>
      rw [receivedIn_of_ne (i := i) (by rw [hplace]; decide), ht, if_neg (by decide)]
  · obtain ⟨hk, hf, -⟩ := plain_part (global_part ht i) (by rw [width, ht])
    rw [Nat.mod_eq_of_lt (Nat.lt_succ_of_le hmti)] at hf
    have hoff : m.dataOffset = 0 := by rw [dataOffset, ht]; rfl
    have hone : m.place i = .only := place_eq_only_iff.2 (by rw [parts, ht])
    rw [hstandard hk, hf, ha, hoff, hone, receivedIn_of_only hone]
    exact receiveGlobal_of_not_mem (hf ▸ hevent)

end Message

end LayoutBus
