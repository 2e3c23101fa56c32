import LayoutBus.Proofs.Interface.Refusal
import Mathlib.Logic.Function.Basic

/-!
# The history of messages under assembly

Whatever frames come in, in whichever order, a message under assembly is made of the data of its own
frames and of nothing else.

* `Resources.logged` : the frames that a message is made of: the one that opened it, and those in the
  middle since.
* `Resources.Assembling` : what shared state frames, ticks and the application can lead to, with these
  frames for every message.
* `Resources.Assembling.faithful` : **reassembly.**  In all of these states every message under assembly
  holds just the data of its frames, and so does a message that is handed to the application.

A frame touches only the message with its own key (`Resources.receive_handling`), so what it does to
this one message is all there is to show.
-/

namespace LayoutBus

namespace Resources

variable {streams : Bool} {r s : Resources} {outside : List Handle} {f : Frame}
  {key : AssemblyKey} {log : AssemblyKey → List Frame}

/-! ### The frames of a message -/

/-- The frames of every message under assembly after a frame: a first frame opens its message, and
one in the middle comes on top. -/
def logged (streams : Bool) (r : Resources) (f : Frame) (log : AssemblyKey → List Frame) :
    AssemblyKey → List Frame :=
  match r.place? streams f, r.assemblies.find? f.assemblyKey with
  | some .first, none => Function.update log f.assemblyKey [f]
  | some .middle, some _ => Function.update log f.assemblyKey (log f.assemblyKey ++ [f])
  | _, _ => log

/-- Every message under assembly holds the data of its frames. -/
structure Recalls (r : Resources) (log : AssemblyKey → List Frame) : Prop where
  payload : ∀ e ∈ r.assemblies.entries, ∀ m ∈ r.messages.get? e.2,
    m.payload = (log e.1).flatMap Frame.data
  own : ∀ k, ∀ f ∈ log k, f.assemblyKey = k

namespace Recalls

theorem unmoved (h : r.Recalls log) (hu : r.Unmoved s) : s.Recalls log where
  payload e he m hm := by
    have he' := (hu.entries e).1 he
    exact h.payload e he' m ((hu.messages e he').symm.trans hm)
  own := h.own

/-- Only the message with the key changes. -/
theorem change {fs : List Frame} (h : r.Recalls log) (hr : Handling streams key outside r s [])
    (hown : ∀ g ∈ fs, g.assemblyKey = key)
    (hkey : ∀ k m, (key, k) ∈ s.assemblies.entries → s.messages.get? k = some m →
      m.payload = fs.flatMap Frame.data) : s.Recalls (Function.update log key fs) where
  payload e he m hm := by
    obtain ⟨k, x⟩ := e
    by_cases heq : k = key
    · subst heq
      rw [Function.update_self]
      exact hkey x m he hm
    · have he' := (hr.entries (k, x) heq).1 he
      rw [Function.update_of_ne heq]
      exact h.payload (k, x) he' m ((hr.messages x (.inr ⟨k, heq, he'⟩)).symm.trans hm)
  own k g hg := by
    by_cases heq : k = key
    · subst heq
      rw [Function.update_self] at hg
      exact hown g hg
    · rw [Function.update_of_ne heq] at hg
      exact h.own k g hg

/-- Nothing is under assembly with the key any more. -/
theorem forget (h : r.Recalls log) (hr : Handling streams key outside r s [])
    (hnone : s.assemblies.find? key = none) : s.Recalls log := by
  have hchange : s.Recalls (Function.update log key (log key)) :=
    h.change hr (h.own key) fun k m hk =>
      absurd (List.mem_map_of_mem hk) (Assemblies.find?_eq_none_iff.1 hnone)
  rwa [Function.update_eq_self] at hchange

theorem aged (h : r.Recalls log) (ha : Aged streams outside r s) : s.Recalls log where
  payload e he m hm := by
    have hold := ha.older e he
    rw [hold] at hm
    obtain ⟨m', hm', rfl⟩ := Option.map_eq_some_iff.1 hm
    exact h.payload e ((ha.entries e).1 he).1 m' hm'
  own := h.own

/-- A message holds the data of its first frame, if it is opened. -/
theorem acceptFirst (h : r.Recalls log) (hs : r.Sound streams outside) (c : SizeClass)
    (hnone : r.assemblies.find? f.assemblyKey = none) :
    (r.acceptFirst f f.dataOffset c).Recalls (Function.update log f.assemblyKey [f]) := by
  have hr := (handling_refl hs f.assemblyKey).acceptFirst f.dataOffset c
  have hspec := acceptFirst_spec f.dataOffset c hs hnone
  refine h.change hr (by simp) fun k m hk hm => ?_
  rw [List.flatMap_singleton]
  split at hspec
  · exact hspec.1.payload_eq hr.sound hk hm
  -- without a buffer nothing is opened
  · rw [hspec] at hk
    have hk' := ((unmoved_reject hs f _).entries _).1 hk
    exact absurd (List.mem_map_of_mem hk') (Assemblies.find?_eq_none_iff.1 hnone)

/-- A frame in the middle adds its data, or its message is given up as a whole. -/
theorem acceptMiddle {k : Handle} (h : r.Recalls log) (hs : r.Sound streams outside)
    (hfind : r.assemblies.find? f.assemblyKey = some k) :
    (r.acceptMiddle f f.dataOffset).Recalls
      (Function.update log f.assemblyKey (log f.assemblyKey ++ [f])) := by
  have hr := (handling_refl hs f.assemblyKey).acceptMiddle f.dataOffset
  obtain ⟨hmem, m, hm⟩ := find?_eq_some hs hfind
  have hspec := acceptMiddle_spec f.dataOffset hs hfind hm
  refine h.change hr (fun g hg => ?_) fun x m' hx hm' => ?_
  · rcases List.mem_append.1 hg with hg | hg
    · exact h.own _ g hg
    · rw [List.mem_singleton.1 hg]
  · rw [List.flatMap_append, List.flatMap_singleton, ← h.payload _ hmem m hm]
    split at hspec
    · exact hspec.1.payload_eq hr.sound hx hm'
    · exact absurd (List.mem_map_of_mem hx) (Assemblies.find?_eq_none_iff.1 hspec.1)

/-- A last frame takes its message away, whether it is complete or does not fit. -/
theorem acceptLast {k : Handle} (h : r.Recalls log) (hs : r.Sound streams outside)
    (hfind : r.assemblies.find? f.assemblyKey = some k) :
    (r.acceptLast f f.dataOffset).Recalls log := by
  obtain ⟨-, m, hm⟩ := find?_eq_some hs hfind
  have hspec := acceptLast_spec f.dataOffset hs hfind hm
  refine h.forget ((handling_refl hs f.assemblyKey).acceptLast f.dataOffset) ?_
  split at hspec
  · obtain ⟨x, m', -, -, -, -, -, hnone⟩ := hspec
    exact hnone
  · exact hspec.1

/-- Every frame leaves the messages under assembly as their frames say. -/
theorem receive (h : r.Recalls log) (hs : r.Sound streams outside) (f : Frame) :
    (r.receive streams f).Recalls (r.logged streams f log) := by
  cases hp : r.place? streams f with
  | none =>
    obtain ⟨o, t, heq⟩ := receive_of_no_place hp
    rw [logged, hp, heq]
    exact h.unmoved ⟨fun _ => Iff.rfl, fun _ _ => rfl⟩
  | some p =>
    obtain ⟨c, heq⟩ := receive_of_place hp
    rw [logged, hp, heq]
    cases p <;> cases hfind : r.assemblies.find? f.assemblyKey
    case only.none | only.some => exact h.unmoved (unmoved_acceptOnly hs f _ c)
    case first.none => exact h.acceptFirst hs c hfind
    case middle.some k => exact h.acceptMiddle hs hfind
    case last.some k => exact h.acceptLast hs hfind
    -- frames out of order are rejected
    case first.some k =>
      rw [accept_of_listed _ c hfind]
      exact h.unmoved (unmoved_reject hs f _)
    case middle.none =>
      rw [accept_of_unlisted _ c (.inl rfl) hfind]
      exact h.unmoved (unmoved_reject hs f _)
    case last.none =>
      rw [accept_of_unlisted _ c (.inr rfl) hfind]
      exact h.unmoved (unmoved_reject hs f _)

end Recalls

/-! ### Any frames, in any order -/

/-- What frames, ticks and an application that pops and frees messages can bring shared state to,
whatever aliases there are, with the handles that the application owns and the frames of the
messages under assembly. -/
inductive Assembling (streams : Bool) :
    Resources → List Handle → (AssemblyKey → List Frame) → Prop where
  | start (t : AliasTable) : Assembling streams { Resources.empty streams with aliases := t } []
      fun _ => []
  | receive {r held log} (f : Frame) : Assembling streams r held log →
      Assembling streams (r.receive streams f) held (r.logged streams f log)
  | age {r held log} : Assembling streams r held log → Assembling streams r.age held log
  | pop {r held log h q} : Assembling streams r held log → r.ingress.pop = some (h, q) →
      Assembling streams { r with ingress := q } (h :: held) log
  | free {r held log h} : Assembling streams r held log → h ∈ held →
      Assembling streams { r with messages := r.messages.free h } (held.erase h) log
  /-- The main loop sends frames, and nodes log in. -/
  | aside {r held log} (o : Outbox) (t : AliasTable) : Assembling streams r held log →
      Assembling streams { r with outbox := o, aliases := t } held log

variable {held : List Handle}

theorem Assembling.sound_recalls (ha : Assembling streams r held log) :
    r.Sound streams held ∧ r.Recalls log := by
  induction ha with
  | start t =>
    refine ⟨Ledger.empty streams, fun e he => ?_, fun k f hf => ?_⟩
    · cases he
    · cases hf
  | receive f _ ih => exact ⟨(receive_handling ih.1 f).sound, ih.2.receive ih.1 f⟩
  | age _ ih => exact ⟨(age_aged ih.1).sound, ih.2.aged (age_aged ih.1)⟩
  | @pop r held log h q _ hpop ih =>
    refine ⟨Ledger.perm ih.1 ?_, ih.2.unmoved ⟨fun _ => Iff.rfl, fun _ _ => rfl⟩⟩
    rw [Queue.pop_eq_some_iff.1 hpop, List.perm_iff_count]
    intro k
    simp only [List.count_append, List.count_cons]
    omega
  | @free r held log h _ hh ih =>
    -- what the application owns is not under assembly
    obtain ⟨hs, hrecalls⟩ := ih
    have hunlisted : h ∉ r.assemblies.handles :=
      Ledger.not_listed hs (List.mem_append_right _ hh)
    refine ⟨Sound.free (hs.perm (List.perm_cons_erase hh)), hrecalls.unmoved ⟨fun _ => Iff.rfl, ?_⟩⟩
    intro e he
    refine (r.messages.get?_free h e.2).trans (if_neg fun heq => hunlisted ?_)
    exact heq ▸ List.mem_map_of_mem he
  | aside o t _ ih => exact ⟨ih.1, ih.2.unmoved ⟨fun _ => Iff.rfl, fun _ _ => rfl⟩⟩

/-- The messages under assembly are what their frames make them, and so are those that a last frame
hands to the application. -/
structure Faithful (streams : Bool) (r : Resources) (log : AssemblyKey → List Frame) : Prop where
  /-- No key is under assembly twice. -/
  keys : (r.assemblies.entries.map Prod.fst).Nodup
  /-- A message under assembly holds the data of its frames, in their order, and nothing else. -/
  holds : ∀ e ∈ r.assemblies.entries, ∃ m, r.messages.get? e.2 = some m ∧ m.header.Names e.1 ∧
    m.payload = (log e.1).flatMap Frame.data
  /-- The frames of a message have its key. -/
  own : ∀ k, ∀ f ∈ log k, f.assemblyKey = k
  /-- A frame is taken at its place. -/
  places : ∀ f p, r.place? streams f = some p →
    ∃ c, r.receive streams f = r.accept f f.dataOffset c p
  /-- A first frame opens its message, if there is a buffer. -/
  opens : ∀ f, r.place? streams f = some .first → r.assemblies.find? f.assemblyKey = none →
    ∃ c, if (r.messages.allocate c).isSome then
        ((r.receive streams f).assemblies.find? f.assemblyKey).isSome ∧
          (r.receive streams f).ingress = r.ingress
      else
        r.Unmoved (r.receive streams f) ∧
          r.Rejects (r.receive streams f) f Rejection.bufferUnavailable
  /-- A frame in the middle leaves its message under assembly, if it fits. -/
  grows : ∀ f h, r.place? streams f = some .middle →
    r.assemblies.find? f.assemblyKey = some h → ∀ m ∈ r.messages.get? h,
      if m.payload.length + f.data.length ≤ m.capacity then
        ((r.receive streams f).assemblies.find? f.assemblyKey).isSome ∧
          (r.receive streams f).ingress = r.ingress
      else r.GivesUp (r.receive streams f) f
  /-- A last frame completes its message with its own data, if they fit. -/
  completes : ∀ f h, r.place? streams f = some .last →
    r.assemblies.find? f.assemblyKey = some h → ∀ m ∈ r.messages.get? h,
      if m.payload.length + f.data.length ≤ m.capacity then
        r.Delivers (r.receive streams f) f.assemblyKey
          ((log f.assemblyKey).flatMap Frame.data ++ f.data)
      else r.GivesUp (r.receive streams f) f
  /-- A frame of a message that has not been opened is rejected. -/
  unstarted : ∀ f p, p = .middle ∨ p = .last → r.place? streams f = some p →
    r.assemblies.find? f.assemblyKey = none →
      r.Unmoved (r.receive streams f) ∧
        r.Rejects (r.receive streams f) f Rejection.endWithoutStart
  /-- A first frame whose message is under assembly already is rejected. -/
  refused : ∀ f, r.place? streams f = some .first →
    (r.assemblies.find? f.assemblyKey).isSome →
      r.Unmoved (r.receive streams f) ∧ r.logged streams f log = log ∧
        r.Rejects (r.receive streams f) f Rejection.startBeforeEnd

/-- **Reassembly.** Whatever frames come in, well-formed or not, in whichever order, with any ticks
between them and whatever the application does with the messages that it is handed: a message
under assembly holds the data of the frame that opened it and of its frames in the middle since, in
the order in which they came, and what its last frame hands to the application is that with the data
of the last frame. -/
theorem Assembling.faithful (ha : Assembling streams r held log) : Faithful streams r log := by
  obtain ⟨hs, hrecalls⟩ := ha.sound_recalls
  refine ⟨Ledger.keys hs, fun e he => ?_, hrecalls.own, fun f p => receive_of_place,
    fun f hp hnone => ?_, fun f h hp hfind m hm => ?_, fun f h hp hfind m hm => ?_,
    fun f p hlate hp hnone => ?_, fun f hp hsome => ?_⟩
  · obtain ⟨m, hm⟩ := Option.isSome_iff_exists.1
      (Ledger.isSome_of_listed hs (List.mem_map_of_mem he))
    exact ⟨m, hm, Ledger.named hs e he m hm, hrecalls.payload e he m hm⟩
  · obtain ⟨c, heq⟩ := receive_of_place hp
    have hspec := acceptFirst_spec f.dataOffset c hs hnone
    refine ⟨c, ?_⟩
    rw [heq, accept]
    split at hspec
    · rename_i hfree
      rw [if_pos hfree]
      exact ⟨hspec.1.find?_isSome, hspec.2⟩
    · rename_i hfull
      rw [if_neg hfull, hspec]
      exact ⟨unmoved_reject hs f _, rejects_reject hs f _⟩
  · obtain ⟨c, heq⟩ := receive_of_place hp
    have hspec := acceptMiddle_spec f.dataOffset hs hfind hm
    rw [heq, accept]
    split at hspec
    · rename_i hfit
      exact (if_pos hfit).mpr ⟨hspec.1.find?_isSome, hspec.2⟩
    · rename_i hover
      exact (if_neg hover).mpr hspec
  · obtain ⟨c, heq⟩ := receive_of_place hp
    rw [heq, accept, ← hrecalls.payload _ (find?_eq_some hs hfind).1 m hm]
    exact acceptLast_spec f.dataOffset hs hfind hm
  · obtain ⟨c, heq⟩ := receive_of_place hp
    rw [heq, accept_of_unlisted _ c hlate hnone]
    exact ⟨unmoved_reject hs f _, rejects_reject hs f _⟩
  · obtain ⟨c, heq⟩ := receive_of_place hp
    obtain ⟨k, hfind⟩ := Option.isSome_iff_exists.1 hsome
    rw [logged, hp, hfind, heq, accept_of_listed _ c hfind]
    exact ⟨unmoved_reject hs f _, rfl, rejects_reject hs f _⟩

/-- Shared state and the frames of its messages after another frame. -/
def take (streams : Bool) (p : Resources × (AssemblyKey → List Frame)) (f : Frame) :
    Resources × (AssemblyKey → List Frame) :=
  (p.1.receive streams f, p.1.logged streams f p.2)

theorem Assembling.foldl_take (fs : List Frame) (ha : Assembling streams r held log) :
    Assembling streams (fs.foldl (take streams) (r, log)).1 held
      (fs.foldl (take streams) (r, log)).2 := by
  induction fs generalizing r log with
  | nil => exact ha
  | cons f fs ih => exact ih (ha.receive f)

theorem length_full_le : ([1, 2, 3, 4, 5, 6, 7, 8] : List UInt8).length ≤ 8 := by decide

/-- Two messages of one sender at once, a first frame that comes twice, and a frame in the middle of
a message of which no first frame came. -/
def medley : List Frame :=
  [.messageData .datagramFirst 0x123 0x456 [1, 2, 3, 4, 5, 6, 7, 8] length_full_le,
    .messageData .standard Mti.eventReportFirst 0x456 [9, 9, 9, 9, 9, 9, 9, 9] (by decide),
    .messageData .datagramMiddle 0x123 0x456 [11, 12, 13] (by decide),
    .messageData .datagramFirst 0x123 0x456 [0, 0] (by decide),
    .messageData .datagramMiddle 0x123 0x789 [7] (by decide),
    .messageData .datagramMiddle 0x123 0x456 [14] (by decide)]

/-- The alias 0x123 belongs to node 1, and nothing has come in yet. -/
def listening : Resources := { Resources.empty false with aliases := ⟨[⟨0x123, 1, true, false⟩], false⟩ }

theorem faithful_medley :
    Assembling false (medley.foldl (take false) (listening, fun _ => [])).1 []
        (medley.foldl (take false) (listening, fun _ => [])).2 ∧
      ((medley.foldl (take false) (listening, fun _ => [])).1.assemblies.entries.map Prod.fst) =
        [⟨0x456, 0x123, Mti.datagram⟩, ⟨0x456, 0, Mti.eventReportWithPayload⟩] ∧
      ((medley.foldl (take false) (listening, fun _ => [])).2
        ⟨0x456, 0x123, Mti.datagram⟩).flatMap Frame.data =
          [1, 2, 3, 4, 5, 6, 7, 8, 11, 12, 13, 14] ∧
      Faithful false (medley.foldl (take false) (listening, fun _ => [])).1
        (medley.foldl (take false) (listening, fun _ => [])).2 := by
  have ha := (@Assembling.start false listening.aliases).foldl_take medley
  exact ⟨ha, by decide +kernel, by decide +kernel, ha.faithful⟩

end Resources

end LayoutBus
