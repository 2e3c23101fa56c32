import LayoutBus.Proofs.Interface.Gathering

/-!
# The place of a frame in its message

A frame that comes in is taken as the only one of its message, or as the first, one in the middle or
the last.  Most frames say which; an unmarked frame of a node information reply is judged by the zero
bytes that have come so far.

* `Frame.data` : the data of a frame.
* `Resources.place?` : the place at which a frame is taken, if it is taken.
* `Resources.receive_of_place`, `Resources.receive_of_unmarked` and `Resources.receive_of_no_place` :
  reception goes by it.
-/

namespace LayoutBus

namespace Frame

/-- Where the data start: the frames of an addressed message carry its destination in front. -/
def dataOffset (f : Frame) : Nat := if f.isAddressed then addressedOffset else 0

/-- The message data of the frame. -/
def data (f : Frame) : List UInt8 := f.dataFrom f.dataOffset

/-- The place of a frame of a standard message to all nodes. -/
def globalPlace (f : Frame) : Place :=
  if f.field = Mti.eventReportFirst then .first
  else if f.field = Mti.eventReportMiddle then .middle
  else if f.field = Mti.eventReportLast then .last
  else .only

theorem kind_of_isAddressed {f : Frame} (h : f.isAddressed = true) : f.kind = .message .standard := by
  unfold isAddressed at h
  exact beq_iff_eq.1 (Bool.and_eq_true_iff.1 h).1

theorem dataOffset_of_kind {f : Frame} {t : MessageType} (hk : f.kind = .message t)
    (ht : t ≠ .standard) : f.dataOffset = 0 := by
  have hne : (f.kind == .message .standard) = false := by
    rw [hk]
    exact beq_eq_false_iff_ne.2 fun heq => ht (FrameKind.message.inj heq)
  rw [dataOffset, isAddressed, hne]
  rfl

end Frame

namespace Resources

variable {streams : Bool} {r : Resources} {f : Frame} {p : Place}

/-- The place of a frame of a node information reply that does not say it. -/
def unmarkedPlace (r : Resources) (f : Frame) : Place :=
  match r.assemblies.find? f.assemblyKey with
  | none => if nodeInfoZeros ≤ f.zerosFrom addressedOffset then .only else .first
  | some h => if r.zeros h + f.zerosFrom addressedOffset < nodeInfoZeros then .middle else .last

/-- The place of a frame of a standard message to one of our nodes. -/
def addressedPlace? (r : Resources) (f : Frame) : Option Place :=
  if f.framing = Framing.only then
    some (if f.mti = Mti.nodeInfoReply then r.unmarkedPlace f else .only)
  else if f.framing = Framing.first then some .first
  else if f.framing = Framing.middle then some .middle
  else if f.framing = Framing.final then some .last
  else none

/-- The place at which a frame is taken, if it is taken. -/
def place? (streams : Bool) (r : Resources) (f : Frame) : Option Place :=
  match f.kind with
  | .message .standard =>
    if f.isAddressed then if r.isForUs f then r.addressedPlace? f else none
    else some f.globalPlace
  | .message .datagramOnly => if r.isForUs f then some .only else none
  | .message .datagramFirst => if r.isForUs f then some .first else none
  | .message .datagramMiddle => if r.isForUs f then some .middle else none
  | .message .datagramFinal => if r.isForUs f then some .last else none
  | .message .stream => if streams && r.isForUs f then some .only else none
  | .message .reserved | .checkId _ | .control _ | .unknownControl _ => none

theorem acceptUnmarked_eq (r : Resources) (f : Frame) :
    r.acceptUnmarked f = r.accept f addressedOffset .snip (r.unmarkedPlace f) := by
  rw [acceptUnmarked, unmarkedPlace]
  cases r.assemblies.find? f.assemblyKey with
  | none =>
    simp only
    split <;> rfl
  | some h =>
    simp only
    split <;> rfl

theorem receiveAddressed_of_place (h : r.addressedPlace? f = some p) :
    ∃ c, r.receiveAddressed f = r.accept f addressedOffset c p := by
  rw [addressedPlace?] at h
  rw [receiveAddressed]
  simp only [decide_eq_true_eq]
  split_ifs at h ⊢ <;> cases h
  · exact ⟨.snip, r.acceptUnmarked_eq f⟩
  all_goals first | exact ⟨.basic, rfl⟩ | exact ⟨.snip, rfl⟩

theorem receiveAddressed_of_no_place (h : r.addressedPlace? f = none) :
    r.receiveAddressed f = r := by
  rw [addressedPlace?] at h
  rw [receiveAddressed]
  split_ifs at h ⊢
  rfl

theorem receiveGlobal_of_place (r : Resources) (f : Frame) :
    ∃ c, r.receiveGlobal f = r.accept f 0 c f.globalPlace := by
  rw [receiveGlobal, Frame.globalPlace]
  split_ifs
  · exact ⟨.snip, rfl⟩
  all_goals exact ⟨.basic, rfl⟩

/-- A frame is taken at its place. -/
theorem receive_of_place (h : r.place? streams f = some p) :
    ∃ c, r.receive streams f = r.accept f f.dataOffset c p := by
  rw [receive]
  rw [place?] at h
  cases hk : f.kind with
  | checkId n | control k | unknownControl v =>
    rw [hk] at h
    cases h
  | message t =>
    rw [hk] at h
    cases t with
    | standard =>
      simp only [receiveMessage, Frame.dataOffset] at h ⊢
      split_ifs at h ⊢
      -- whether the frame is for us has been asked in both already
      · exact receiveAddressed_of_place h
      · obtain rfl := Option.some.inj h
        exact receiveGlobal_of_place r f
    | reserved => cases h
    | datagramOnly | datagramFirst | datagramMiddle | datagramFinal | stream =>
      rw [Frame.dataOffset_of_kind hk (by decide)]
      simp only [receiveMessage, receiveStream] at h ⊢
      split_ifs at h ⊢
      cases h
      first | exact ⟨.basic, rfl⟩ | exact ⟨.datagram, rfl⟩ | exact ⟨.stream, rfl⟩

/-- A frame of a node information reply that does not say its place. -/
theorem receive_of_unmarked (ha : f.isAddressed = true) (hmti : f.mti = Mti.nodeInfoReply)
    (hframing : f.framing = Framing.only) (hus : r.isForUs f = true) :
    r.receive streams f = r.accept f f.dataOffset .snip (r.unmarkedPlace f) := by
  rw [receive, Frame.kind_of_isAddressed ha, Frame.dataOffset, if_pos ha, ← acceptUnmarked_eq]
  simp [receiveMessage, receiveAddressed, ha, hus, hmti, hframing]

/-- A frame without a place concerns no message. -/
theorem receive_of_no_place (h : r.place? streams f = none) :
    ∃ o t, r.receive streams f = { r with outbox := o, aliases := t } := by
  rw [receive]
  rw [place?] at h
  cases hk : f.kind with
  | checkId n =>
    simp only
    split
    · exact ⟨_, r.aliases, rfl⟩
    · exact ⟨r.outbox, r.aliases, rfl⟩
  | control k =>
    cases k with
    | aliasMapEnquiry =>
      simp only [receiveControl, receiveEnquiry]
      split
      · exact ⟨_, _, rfl⟩
      · exact ⟨_, r.aliases, rfl⟩
    | reserveId | aliasMapDefinition | aliasMapReset | errorReport _ => exact ⟨_, _, rfl⟩
  | unknownControl v => exact ⟨r.outbox, r.aliases, rfl⟩
  | message t =>
    rw [hk] at h
    refine ⟨r.outbox, r.aliases, ?_⟩
    cases t with
    | standard =>
      simp only [receiveMessage] at h ⊢
      split_ifs at h ⊢
      · exact receiveAddressed_of_no_place h
      · rfl
    | reserved => rfl
    | datagramOnly | datagramFirst | datagramMiddle | datagramFinal | stream =>
      simp only [receiveMessage, receiveStream] at h ⊢
      split_ifs at h ⊢
      rfl

end Resources

end LayoutBus
