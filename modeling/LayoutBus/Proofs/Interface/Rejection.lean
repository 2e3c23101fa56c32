import LayoutBus.Proofs.Interface.Refusal

/-!
# Who is sent a rejection

A frame with message data that cannot be taken is turned away, for one of five reasons, and a
rejection of it is handed to the application, which is to send it.  (The sixth reason that reception
tests for, no room in the list of messages under assembly, never arises.)  A rejection goes from the
receiver of the frame to its sender, so it makes sense only for a frame that has a receiver.  Most
frames that have none are dropped when they cannot be taken; the frames of an event report are
rejected like those of a message to one of our nodes.

* `Resources.RejectsOnce` : one rejection, and nothing else, is handed to the application.
* `Resources.TurnsAway` : why a frame is turned away, and from which state.
* `Resources.Reacts` : what the application is handed when a frame comes in.
* `Session.Reachable.rejections` : **rejections.**  A frame that is not for one of our nodes is
  rejected if and only if it is a frame of an event report that is turned away.
-/

namespace LayoutBus

namespace Frame

/-- The frame carries data of a datagram. -/
def isDatagram (f : Frame) : Bool :=
  f.kind ∈ [FrameKind.message .datagramOnly, .message .datagramFirst, .message .datagramMiddle,
    .message .datagramFinal]

variable {f : Frame}

theorem mti_eq_datagram_iff : f.mti = Mti.datagram ↔ f.isDatagram = true := by
  have hfield : f.field < 0x1000 := Nat.mod_lt _ (by decide)
  have hdatagram : Mti.datagram = 0x1C48 := rfl
  unfold mti isDatagram
  cases hk : f.kind with
  | checkId n | control k | unknownControl v => simp [hdatagram]
  | message t =>
    cases t with
    | standard =>
      simp only
      split
      · exact iff_of_false (by decide) (by decide)
      · exact iff_of_false (by omega) (by decide)
    | reserved | stream => simp [hdatagram, Mti.streamData]
    | datagramOnly | datagramFirst | datagramMiddle | datagramFinal =>
      exact iff_of_true rfl (by decide)

theorem rejectionMti_eq (f : Frame) : f.rejectionMti =
    if f.isDatagram then Mti.datagramRejected else Mti.optionalInteractionRejected := by
  unfold rejectionMti
  simp only [mti_eq_datagram_iff]

/-- The message of a frame that is directed to nobody is no rejection. -/
theorem mti_ne_rejection (h : f.kind = .message .standard) (ha : f.isAddressed = false) :
    f.mti ≠ Mti.optionalInteractionRejected := by
  rw [isAddressed_standard h] at ha
  by_cases hevent : f.field ∈ Mti.eventReports
  · rw [mti_eventReport h hevent]
    decide
  · rw [mti_standard h hevent]
    rintro heq
    rw [heq] at ha
    exact absurd ha (by decide)

end Frame

/-- The message rejects the frame for the reason `code`: it goes from the receiver of the frame to
its sender, and says who sent the frame and why it is rejected. -/
structure Message.Rejects (m : Message) (f : Frame) (code : Nat) : Prop where
  source : m.header.source = f.dest
  dest : m.header.dest = f.source
  mti : m.header.mti =
    if f.isDatagram then Mti.datagramRejected else Mti.optionalInteractionRejected
  payload : m.payload = Message.wordBytes f.source ++ Message.wordBytes code

namespace Resources

/-- A frame that would be taken at its place, into a buffer of size `c`, is turned away for the
reason `code`, which leaves `t`. -/
inductive TurnsAway (r : Resources) (f : Frame) (offset : Nat) (c : SizeClass) :
    Place → Nat → Resources → Prop where
  /-- There is no buffer for the only frame of a message, and the frame has a receiver. -/
  | single (hdest : f.dest ≠ 0) (hfull : r.messages.allocate c = none) :
      r.TurnsAway f offset c .only Rejection.bufferUnavailable r
  /-- The message of a first frame is under assembly already. -/
  | early {h : Handle} (hlisted : r.assemblies.find? f.assemblyKey = some h) :
      r.TurnsAway f offset c .first Rejection.startBeforeEnd r
  /-- There is no buffer for the message of a first frame. -/
  | first (hnone : r.assemblies.find? f.assemblyKey = none)
      (hfull : r.messages.allocate c = none) :
      r.TurnsAway f offset c .first Rejection.bufferUnavailable r
  /-- The message of a later frame is not under assembly. -/
  | late {p : Place} (hp : p = .middle ∨ p = .last) (hnone : r.assemblies.find? f.assemblyKey = none) :
      r.TurnsAway f offset c p Rejection.endWithoutStart r
  /-- The data of a later frame do not fit, and the message is given up. -/
  | long {p : Place} {h : Handle} {m : Message} (hp : p = .middle ∨ p = .last)
      (hlisted : r.assemblies.find? f.assemblyKey = some h) (hm : r.messages.get? h = some m)
      (hover : m.capacity < m.payload.length + (f.dataFrom offset).length) :
      r.TurnsAway f offset c p Rejection.bufferUnavailable (r.abandon h)

variable {streams : Bool} {r s t : Resources} {outside : List Handle} {h k : Handle} {f : Frame}
  {c : SizeClass} {m : Message} {offset code : Nat} {p : Place}

/-! ### One rejection -/

/-- From `r` to `s`, the message in a buffer that was free has been handed to the application to
reject the frame, and nothing else has changed. -/
structure RejectsOnce (r s : Resources) (f : Frame) (code : Nat) (k : Handle) (m : Message) :
    Prop where
  free : r.messages.get? k = none
  ingress : s.ingress.toList = r.ingress.toList ++ [k]
  message : s.messages.get? k = some m
  rejects : m.Rejects f code
  others : ∀ h, h ≠ k → s.messages.get? h = r.messages.get? h
  rest : s = { r with messages := s.messages, ingress := s.ingress }

theorem reject_once (hs : r.Sound streams outside) (f : Frame) (code : Nat)
    (hfree : (r.messages.allocate .basic).isSome) :
    ∃ k m, r.RejectsOnce (r.reject f code) f code k m := by
  obtain ⟨⟨k, ms⟩, ha⟩ := Option.isSome_iff_exists.1 hfree
  obtain ⟨-, hnone, hget⟩ := MessageStore.get?_of_allocate ha
  obtain ⟨q, hq, hdeliver⟩ := ((hs.allocate ha).edit (g := fun m => m.rejecting f code)
    List.mem_cons_self fun m _ => m.alike_rejecting f code).deliver_eq
  have heq : r.reject f code = { r with
      messages := ms.modify k fun m => m.rejecting f code, ingress := q } := by
    rw [reject, ha]
    simp only
    rw [hdeliver]
  rw [heq]
  refine ⟨k, (MessageStore.fresh .basic).rejecting f code, hnone, hq, ?_,
    ⟨rfl, rfl, f.rejectionMti_eq, (holds_rejecting f code).payload⟩, fun h hne => ?_, rfl⟩
  · show (ms.modify k _).get? k = _
    rw [MessageStore.get?_modify, if_pos rfl, hget, if_pos rfl, Option.map_some]
  · show (ms.modify k _).get? h = _
    rw [MessageStore.get?_modify, if_neg hne, hget, if_neg hne]

theorem reject_of_full (f : Frame) (code : Nat) (hfull : r.messages.allocate .basic = none) :
    r.reject f code = r := by
  rw [reject, hfull]

/-! ### Frames that are turned away -/

/-- A frame that is turned away is rejected. -/
theorem accept_of_turnsAway (h : r.TurnsAway f offset c p code t) :
    r.accept f offset c p = t.reject f code := by
  cases h with
  | single hdest hfull =>
    rw [accept, acceptOnly, allocateFor, hfull]
    exact if_pos hdest
  | early hlisted => exact accept_of_listed offset c hlisted
  | first hnone hfull => rw [accept, acceptFirst, hnone, allocateFor, hfull]
  | late hp hnone => exact accept_of_unlisted offset c hp hnone
  | @long p h m hp hlisted hm hover =>
    have hext : r.extend f offset h =
        ((r.abandon h).reject f Rejection.bufferUnavailable, false) := by
      rw [extend]
      exact if_neg (accepts_ne hm hover)
    rcases hp with rfl | rfl
    · rw [accept, acceptMiddle, hlisted]
      simp only [hext]
    · rw [accept, acceptLast, hlisted]
      simp only [hext]

/-- There are three reasons to give. -/
theorem TurnsAway.code_mem (h : r.TurnsAway f offset c p code t) :
    code ∈ [Rejection.bufferUnavailable, Rejection.endWithoutStart, Rejection.startBeforeEnd] := by
  cases h <;> decide

/-- Turning a frame away hands nothing to the application yet. -/
theorem TurnsAway.ingress_eq (h : r.TurnsAway f offset c p code t) : t.ingress = r.ingress := by
  cases h <;> rfl

theorem TurnsAway.sound (h : r.TurnsAway f offset c p code t) (hs : r.Sound streams outside) :
    t.Sound streams outside := by
  cases h with
  | long _ hlisted _ _ =>
    exact abandon_sound hs (Assemblies.mem_handles_iff.2 ⟨_, (find?_eq_some hs hlisted).1⟩)
  | _ => exact hs

/-! ### Frames that are taken -/

/-- The message of the frame is handed to the application. -/
def HandsOver (r s : Resources) (f : Frame) : Prop :=
  ∃ k m, s.ingress.toList = r.ingress.toList ++ [k] ∧ s.messages.get? k = some m ∧
    m.header.Names f.assemblyKey

theorem acceptOnly_handsOver (offset : Nat) (hs : r.Sound streams outside)
    (hfree : (r.messages.allocate c).isSome) : r.HandsOver (r.acceptOnly f offset c) f := by
  obtain ⟨k, ms, ha⟩ := @allocateFor_eq r c f hfree
  obtain ⟨hs', -, hget⟩ := (Handling.idle hs f.assemblyKey r.outbox r.aliases).allocateFor ha
  obtain ⟨q, hq, hdeliver⟩ := (hs'.edit (g := fun m => m.append (f.dataFrom offset))
    List.mem_cons_self fun m _ => m.alike_append _).sound.deliver_eq
  rw [acceptOnly, ha]
  simp only
  rw [hdeliver]
  exact ⟨k, _, hq, get?_append hget, Message.names_append (Message.names_headed _ f) _⟩

/-- A frame that is not turned away is taken: nothing is handed to the application, or the message
of the frame. -/
theorem accept_of_not_turnsAway (hs : r.Sound streams outside)
    (h : ∀ code t, ¬ r.TurnsAway f offset c p code t) :
    (r.accept f offset c p).ingress = r.ingress ∨ r.HandsOver (r.accept f offset c p) f := by
  cases p with
  | only =>
    cases hfree : r.messages.allocate c with
    | some _ => exact .inr (acceptOnly_handsOver offset hs (by rw [hfree]; rfl))
    | none =>
      have hdest : ¬ f.dest ≠ 0 := fun hdest => h _ _ (.single hdest hfree)
      have heq : r.accept f offset c .only = r := by
        rw [accept, acceptOnly, allocateFor, hfree]
        exact if_neg hdest
      exact .inl (congrArg ingress heq)
  | first =>
    cases hlisted : r.assemblies.find? f.assemblyKey with
    | some k => exact absurd (.early hlisted) (h _ _)
    | none =>
      cases hfree : r.messages.allocate c with
      | none => exact absurd (.first hlisted hfree) (h _ _)
      | some _ =>
        have hspec := acceptFirst_spec offset c hs hlisted
        rw [if_pos (by rw [hfree]; rfl)] at hspec
        exact .inl hspec.2
  | middle =>
    cases hlisted : r.assemblies.find? f.assemblyKey with
    | none => exact absurd (.late (.inl rfl) hlisted) (h _ _)
    | some k =>
      obtain ⟨-, m, hm⟩ := find?_eq_some hs hlisted
      have hspec := acceptMiddle_spec offset hs hlisted hm
      rw [if_pos (Nat.le_of_not_lt fun hover => h _ _ (.long (.inl rfl) hlisted hm hover))] at hspec
      exact .inl hspec.2
  | last =>
    cases hlisted : r.assemblies.find? f.assemblyKey with
    | none => exact absurd (.late (.inr rfl) hlisted) (h _ _)
    | some k =>
      obtain ⟨-, m, hm⟩ := find?_eq_some hs hlisted
      have hspec := acceptLast_spec offset hs hlisted hm
      rw [if_pos (Nat.le_of_not_lt fun hover => h _ _ (.long (.inr rfl) hlisted hm hover))] at hspec
      obtain ⟨k, m, hin, hmsg, hnames, -⟩ := hspec
      exact .inr ⟨k, m, hin, hmsg, hnames⟩

/-! ### What the application hears of a frame -/

/-- When a frame comes in, nothing is handed to the application, or the message of the frame, or
one rejection of it. -/
inductive Reacts (r s : Resources) (f : Frame) : Prop where
  | quiet (h : s.ingress = r.ingress)
  | message (h : r.HandsOver s f)
  | rejection {k : Handle} {m : Message} {code : Nat}
      (reason : code ∈ [Rejection.bufferUnavailable, Rejection.endWithoutStart,
        Rejection.startBeforeEnd])
      (ingress : s.ingress.toList = r.ingress.toList ++ [k])
      (message : s.messages.get? k = some m) (rejects : m.Rejects f code)

/-- Only a frame that is directed to one of our nodes is rejected. -/
def RejectsDirected (r s : Resources) (f : Frame) : Prop :=
  ∀ k m code, s.ingress.toList = r.ingress.toList ++ [k] → s.messages.get? k = some m →
    m.Rejects f code → (r.aliases.find? f.dest).isSome

/-- The frame is one of an event report, which is directed to nobody, it is turned away, and there
is a buffer for a rejection. -/
def TurnsReportAway (r : Resources) (f : Frame) : Prop :=
  f.kind = .message .standard ∧ f.field ∈ Mti.eventReports ∧
    ∃ code t, r.TurnsAway f 0 .snip f.globalPlace code t ∧ (t.messages.allocate .basic).isSome

theorem not_handsOver_rejects (hg : f.kind = .message .standard) (ha : f.isAddressed = false)
    (h : r.HandsOver s f) (hin : s.ingress.toList = r.ingress.toList ++ [k])
    (hm : s.messages.get? k = some m) : ¬ m.Rejects f code := by
  intro hrej
  obtain ⟨k', m', hin', hm', hnames⟩ := h
  obtain rfl : k = k' := by simpa using hin.symm.trans hin'
  obtain rfl := Option.some.inj (hm.symm.trans hm')
  have hdatagram : f.isDatagram = false := by
    rw [Frame.isDatagram, hg]
    rfl
  have hmti := hnames.mti.symm.trans hrej.mti
  rw [hdatagram] at hmti
  exact Frame.mti_ne_rejection hg ha hmti

theorem ne_of_ingress_eq (h : s.ingress = r.ingress) :
    s.ingress.toList ≠ r.ingress.toList ++ [k] := by
  rw [h]
  intro heq
  have hlength := congrArg List.length heq
  rw [List.length_append, List.length_singleton] at hlength
  omega

/-- A frame that is turned away is answered by a rejection if there is a buffer for one. -/
theorem TurnsAway.reacts (h : r.TurnsAway f offset c p code t) (hs : r.Sound streams outside) :
    r.Reacts (r.accept f offset c p) f ∧
      (t.messages.allocate .basic = none → (r.accept f offset c p).ingress = r.ingress) := by
  rw [accept_of_turnsAway h]
  cases hfree : t.messages.allocate .basic with
  | none =>
    rw [reject_of_full f code hfree]
    exact ⟨.quiet h.ingress_eq, fun _ => h.ingress_eq⟩
  | some _ =>
    obtain ⟨k, m, honce⟩ := reject_once (h.sound hs) f code (by rw [hfree]; rfl)
    refine ⟨.rejection h.code_mem ?_ honce.message honce.rejects, fun hnone => by cases hnone⟩
    rw [honce.ingress, h.ingress_eq]

theorem receive_reacts (hs : r.Sound streams outside) (f : Frame) :
    r.Reacts (r.receive streams f) f := by
  cases hp : r.place? streams f with
  | none =>
    obtain ⟨o, t, heq⟩ := receive_of_no_place hp
    exact .quiet (by rw [heq])
  | some p =>
    obtain ⟨c, heq⟩ := receive_of_place hp
    rw [heq]
    by_cases haway : ∃ code t, r.TurnsAway f f.dataOffset c p code t
    · obtain ⟨code, t, h⟩ := haway
      exact (h.reacts hs).1
    · rw [not_exists] at haway
      rcases accept_of_not_turnsAway hs fun code t h => haway code ⟨t, h⟩ with hquiet | hown
      · exact .quiet hquiet
      · exact .message hown

/-- A frame with a place that is not for one of our nodes is of a message to all. -/
theorem global_of_place (hp : r.place? streams f = some p) (hus : ¬ r.isForUs f = true) :
    f.kind = .message .standard ∧ f.isAddressed = false ∧ p = f.globalPlace := by
  rw [place?] at hp
  split at hp
  case h_1 hk =>
    split_ifs at hp with ha
    exact ⟨hk, by simpa using ha, (Option.some.inj hp).symm⟩
  all_goals simp [hus] at hp

theorem receive_eventReport (hk : f.kind = .message .standard)
    (hf : f.field ∈ Mti.eventReports) :
    r.receive streams f = r.accept f 0 .snip f.globalPlace := by
  have ha : f.isAddressed = false :=
    (Frame.isAddressed_standard hk).trans (Mti.isAddressed_of_mem hf)
  rw [receive, hk]
  simp only [receiveMessage, ha, Bool.false_eq_true, if_false, receiveGlobal, Frame.globalPlace]
  simp only [Mti.eventReports, List.mem_cons, List.not_mem_nil, or_false] at hf
  split_ifs
  · rfl
  · rfl
  · rfl
  · rename_i h₁ h₂ h₃
    exact absurd hf (by simp [h₁, h₂, h₃])

/-- A frame that is turned away where there is no buffer for a rejection is not heard of. -/
theorem quiet_or_handsOver (hs : r.Sound streams outside)
    (h : ∀ code t, r.TurnsAway f offset c p code t → t.messages.allocate .basic = none) :
    (r.accept f offset c p).ingress = r.ingress ∨ r.HandsOver (r.accept f offset c p) f := by
  by_cases haway : ∃ code t, r.TurnsAway f offset c p code t
  · obtain ⟨code, t, haway⟩ := haway
    exact .inl ((haway.reacts hs).2 (h code t haway))
  · rw [not_exists] at haway
    exact accept_of_not_turnsAway hs fun code t h => haway code ⟨t, h⟩

/-- A frame of a message to all is not rejected, unless it is of an event report. -/
theorem quiet_of_global (hs : r.Sound streams outside) (hp : r.place? streams f = some p)
    (hus : ¬ r.isForUs f = true) (hreport : ¬ r.TurnsReportAway f) :
    (r.receive streams f).ingress = r.ingress ∨ r.HandsOver (r.receive streams f) f := by
  obtain ⟨hk, ha, rfl⟩ := global_of_place hp hus
  by_cases hf : f.field ∈ Mti.eventReports
  · rw [receive_eventReport hk hf]
    refine quiet_or_handsOver hs fun code t haway => ?_
    by_contra hfree
    exact hreport ⟨hk, hf, code, t, haway, Option.isSome_iff_ne_none.2 hfree⟩
  · obtain ⟨c, heq⟩ := receive_of_place hp
    rw [heq]
    have honly : f.globalPlace = .only := by
      simp only [Mti.eventReports, List.mem_cons, List.not_mem_nil, or_false, not_or] at hf
      rw [Frame.globalPlace, if_neg hf.1, if_neg hf.2.1, if_neg hf.2.2]
    rw [honly]
    refine quiet_or_handsOver hs fun code t haway => ?_
    -- the only frame of a message is turned away if it has a receiver, and this one has none
    cases haway with
    | single hdest _ =>
      exact absurd (Frame.dest_standard hk ((Frame.isAddressed_standard hk).symm.trans ha)) hdest
    | late hp _ | long hp _ _ _ => simp at hp

theorem rejectsDirected_iff (hs : r.Sound streams outside) (f : Frame) :
    r.RejectsDirected (r.receive streams f) f ↔ ¬ r.TurnsReportAway f := by
  constructor
  · -- an event report is directed to nobody, and is rejected all the same
    rintro hdirected ⟨hk, hf, code, t, haway, hfree⟩
    have hdest : f.dest = 0 := Frame.dest_standard hk (Mti.isAddressed_of_mem hf)
    obtain ⟨k, m, honce⟩ := reject_once (haway.sound hs) f code hfree
    have hsome := hdirected k m code
    rw [receive_eventReport hk hf, accept_of_turnsAway haway, ← haway.ingress_eq] at hsome
    have hnone := hsome honce.ingress honce.message honce.rejects
    rw [hdest] at hnone
    cases hnone
  · intro hreport k m code hin hm hrej
    by_contra hus
    cases hp : r.place? streams f with
    | none =>
      obtain ⟨o, t, heq⟩ := receive_of_no_place hp
      exact ne_of_ingress_eq (by rw [heq]) hin
    | some p =>
      obtain ⟨hk, ha, -⟩ := global_of_place hp hus
      rcases quiet_of_global hs hp hus hreport with hquiet | hown
      · exact ne_of_ingress_eq hquiet hin
      · exact not_handsOver_rejects hk ha hown hin hm hrej

end Resources

namespace Session

variable {streams : Bool} {σ : Session}

/-- **Rejections.** Whatever an interface and an application that respects ownership have come to, a
frame that comes in hands nothing to the application, or its message, or one rejection, which goes
from the receiver of the frame to its sender.  The frame is rejected only if its receiver is one of
our nodes, with one exception: a frame of an event report that is turned away. -/
theorem Reachable.rejections (hσ : σ.Reachable streams) (f : Frame) :
    σ.interface.resources.Reacts (σ.interface.resources.receive streams f) f ∧
      (σ.interface.resources.RejectsDirected (σ.interface.resources.receive streams f) f ↔
        ¬ σ.interface.resources.TurnsReportAway f) :=
  ⟨Resources.receive_reacts hσ.sound f, Resources.rejectsDirected_iff hσ.sound f⟩

/-- The last frame of an event report of which no other frame has come. -/
def strayReport : Frame := .messageData .standard Mti.eventReportLast 0xABC [] (by decide)

theorem rejections_stray :
    (start false).Reachable false ∧
      (start false).interface.resources.Reacts
        ((start false).interface.resources.receive false strayReport) strayReport ∧
      ((start false).interface.resources.RejectsDirected
          ((start false).interface.resources.receive false strayReport) strayReport ↔
        ¬ (start false).interface.resources.TurnsReportAway strayReport) ∧
      (start false).interface.resources.TurnsReportAway strayReport := by
  have hstart : (start false).Reachable false := .start
  obtain ⟨hreacts, hiff⟩ := hstart.rejections strayReport
  refine ⟨hstart, hreacts, hiff, by decide +kernel, by decide +kernel, _, _,
    .late ?_ (by decide +kernel), by decide +kernel⟩
  exact .inr (by decide +kernel)

/-- So it is not true that only frames that are directed to one of our nodes are rejected. -/
theorem rejects_undirected :
    ¬ ∀ (σ : Session) (f : Frame), σ.Reachable false →
      σ.interface.resources.RejectsDirected (σ.interface.resources.receive false f) f := by
  intro hall
  have hsome := hall (start false) strayReport .start ⟨.basic, 0⟩
    ((MessageStore.fresh .basic).rejecting strayReport Rejection.endWithoutStart)
    Rejection.endWithoutStart (by decide +kernel) (by decide +kernel)
    ⟨by decide +kernel, by decide +kernel, by decide +kernel, by decide +kernel⟩
  exact absurd hsome (by decide +kernel)

end Session

end LayoutBus
