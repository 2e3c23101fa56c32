import LayoutBus.Proofs.Interface.Overflow

/-!
# How long a message stays under assembly

A message whose last frame does not come is given up by the thirtieth tick after its first frame, and
by no other, however many messages are given up at once and whatever comes in between.

* `Resources.opened` : the ticks since the frame that opened a message.
* `Resources.Elapsing` : what shared state frames, ticks and the application can lead to, with these
  ticks for every message.
* `Resources.receive_takes` : what one frame does to the message that it belongs to.
* `Resources.Elapsing.punctual` : **expiry.**

A message does not carry the frame that opened it, only a count in its header; `Resources.Timed` says
that this count is right, which is what every step keeps.
-/

namespace LayoutBus

/-- The size of the buffer in which a message gathers. -/
def AssemblyKey.room (key : AssemblyKey) : SizeClass :=
  if key.mti = Mti.eventReportWithPayload then .snip else key.size

theorem AssemblyKey.room_eq_size {key : AssemblyKey} (h : Mti.isAddressed key.mti = true) :
    key.room = key.size := by
  refine if_neg fun heq => ?_
  rw [heq] at h
  exact absurd h (by decide)

namespace Resources

variable {streams : Bool} {r s : Resources} {outside : List Handle} {h k : Handle} {f : Frame}
  {key : AssemblyKey} {c : SizeClass} {m : Message} {data : List UInt8} {n : Nat}
  {since : AssemblyKey → Nat}

/-! ### One frame -/

theorem receiveAddressed_of_first (ha : f.isAddressed = true)
    (h : r.addressedPlace? f = some .first) :
    r.receiveAddressed f = r.acceptFirst f addressedOffset f.assemblyKey.room := by
  have hmti : Mti.isAddressed f.assemblyKey.mti = true := Frame.isAddressed_mti ha
  rw [addressedPlace?] at h
  rw [receiveAddressed, AssemblyKey.room_eq_size hmti, Frame.size_of_isAddressed ha]
  simp only [decide_eq_true_eq]
  split_ifs at h ⊢ <;> try cases h
  · rw [acceptUnmarked_eq, Option.some.inj h, accept]
  · rfl
  · rfl

/-- A frame that is taken as the first of a message. -/
theorem receive_of_first (h : r.place? streams f = some .first) :
    r.receive streams f = r.acceptFirst f f.dataOffset f.assemblyKey.room := by
  rw [receive]
  rw [place?] at h
  cases hk : f.kind with
  | checkId n | control k | unknownControl v =>
    rw [hk] at h
    cases h
  | message t =>
    rw [hk] at h
    cases t with
    | standard =>
      simp only [receiveMessage, Frame.dataOffset] at h ⊢
      split_ifs at h ⊢ with ha hus
      · exact receiveAddressed_of_first ha h
      · have hfield : f.field = Mti.eventReportFirst := by
          have hplace := Option.some.inj h
          rw [Frame.globalPlace] at hplace
          split_ifs at hplace with hfirst
          exact hfirst
        have hmti : f.assemblyKey.mti = Mti.eventReportWithPayload :=
          Frame.mti_eventReport hk (by rw [hfield]; decide)
        rw [receiveGlobal, if_pos hfield, AssemblyKey.room, if_pos hmti]
    | datagramFirst =>
      have hmti : f.assemblyKey.mti = Mti.datagram := Frame.mti_datagram hk (by decide)
      have hroom : f.assemblyKey.room = .datagram := by
        rw [AssemblyKey.room_eq_size (by rw [hmti]; decide), AssemblyKey.size, if_pos hmti]
      rw [Frame.dataOffset_of_kind hk (by decide), hroom]
      simp only [receiveMessage] at h ⊢
      split_ifs at h ⊢
      rfl
    | reserved => cases h
    | datagramOnly | datagramMiddle | datagramFinal | stream =>
      simp only at h
      split_ifs at h
      cases h

/-- What a frame with the key does to the messages under assembly. -/
inductive Takes (r s : Resources) (key : AssemblyKey) : Prop where
  /-- Nothing. -/
  | unmoved (h : r.Unmoved s)
  /-- It opens its message. -/
  | opens {data : List UInt8} (hnone : r.assemblies.find? key = none)
      (h : s.Gathers key key.room data 0)
  /-- It adds to its message. -/
  | grows {k : Handle} {m : Message} {data : List UInt8} (hmem : (key, k) ∈ r.assemblies.entries)
      (hm : r.messages.get? k = some m) (h : s.Gathers key k.size data m.header.ticks)
  /-- It takes its message away. -/
  | ends (hnone : s.assemblies.find? key = none)

theorem takes_reject (hs : r.Sound streams outside) (f : Frame) (code : Nat) :
    r.Takes (r.reject f code) key := .unmoved (unmoved_reject hs f code)

theorem acceptFirst_takes (hs : r.Sound streams outside) (f : Frame) (offset : Nat) :
    r.Takes (r.acceptFirst f offset f.assemblyKey.room) f.assemblyKey := by
  cases hfind : r.assemblies.find? f.assemblyKey with
  | some k =>
    have heq := accept_of_listed offset f.assemblyKey.room hfind
    rw [accept] at heq
    exact heq ▸ takes_reject hs f _
  | none =>
    have hspec := acceptFirst_spec offset f.assemblyKey.room hs hfind
    split at hspec
    · exact .opens hfind hspec.1
    · exact hspec ▸ takes_reject hs f _

theorem acceptMiddle_takes (hs : r.Sound streams outside) (f : Frame) (offset : Nat) :
    r.Takes (r.acceptMiddle f offset) f.assemblyKey := by
  cases hfind : r.assemblies.find? f.assemblyKey with
  | none =>
    have heq := accept_of_unlisted offset .basic (.inl rfl) hfind
    rw [accept] at heq
    exact heq ▸ takes_reject hs f _
  | some k =>
    obtain ⟨hmem, m, hm⟩ := find?_eq_some hs hfind
    have hspec := acceptMiddle_spec offset hs hfind hm
    split at hspec
    · exact .grows hmem hm hspec.1
    · exact .ends hspec.1

theorem acceptLast_takes (hs : r.Sound streams outside) (f : Frame) (offset : Nat) :
    r.Takes (r.acceptLast f offset) f.assemblyKey := by
  cases hfind : r.assemblies.find? f.assemblyKey with
  | none =>
    have heq := accept_of_unlisted offset .basic (.inr rfl) hfind
    rw [accept] at heq
    exact heq ▸ takes_reject hs f _
  | some k =>
    obtain ⟨-, m, hm⟩ := find?_eq_some hs hfind
    have hspec := acceptLast_spec offset hs hfind hm
    split at hspec
    · obtain ⟨x, m', -, -, -, -, -, hnone⟩ := hspec
      exact .ends hnone
    · exact .ends hspec.1

theorem receive_takes (hs : r.Sound streams outside) (f : Frame) :
    r.Takes (r.receive streams f) f.assemblyKey := by
  cases hp : r.place? streams f with
  | none =>
    obtain ⟨o, t, heq⟩ := receive_of_no_place hp
    rw [heq]
    exact .unmoved ⟨fun _ => Iff.rfl, fun _ _ => rfl⟩
  | some p =>
    obtain ⟨c, heq⟩ := receive_of_place hp
    cases p with
    | first => exact receive_of_first hp ▸ acceptFirst_takes hs f _
    | only => exact heq ▸ .unmoved (unmoved_acceptOnly hs f _ c)
    | middle => exact heq ▸ acceptMiddle_takes hs f _
    | last => exact heq ▸ acceptLast_takes hs f _

/-! ### The count of ticks -/

/-- The ticks since the frame that opened a message, when it may be this step that does. -/
def opened (r s : Resources) (since : AssemblyKey → Nat) (key : AssemblyKey) : Nat :=
  if r.assemblies.find? key = none ∧ (s.assemblies.find? key).isSome then 0 else since key

/-- Every message under assembly counts its ticks, and there are not too many.  It gathers in a
buffer of the size that its key says. -/
def Timed (r : Resources) (since : AssemblyKey → Nat) : Prop :=
  ∀ e ∈ r.assemblies.entries, ∃ m, r.messages.get? e.2 = some m ∧ m.header.ticks = since e.1 ∧
    since e.1 < Limits.assemblyTimeout ∧ e.2.size = e.1.room

theorem opened_of_mem (hmem : (key, k) ∈ r.assemblies.entries) : r.opened s since key = since key :=
  if_neg fun hopen => Option.ne_none_iff_isSome.2 (find?_isSome_of_mem hmem) hopen.1

theorem Gathers.timed (hg : r.Gathers key c data n) (hs : r.Sound streams outside)
    (hmem : (key, k) ∈ r.assemblies.entries) :
    ∃ m, r.messages.get? k = some m ∧ m.header.ticks = n ∧ k.size = c := by
  obtain ⟨m, hm, hh⟩ := hg.of_mem hs hmem
  exact ⟨m, hm, hh.ticks, SizeClass.capacity_injective
    ((Ledger.suits hs k m hm).capacity.symm.trans hh.capacity)⟩

/-- The count stops only far beyond the limit. -/
theorem ticks_older (h : m.header.ticks < Limits.assemblyTimeout) :
    m.older.header.ticks = m.header.ticks + 1 := by
  show min 255 (m.header.ticks + 1) = m.header.ticks + 1
  unfold Limits.assemblyTimeout at h
  omega

namespace Timed

theorem unmoved (ht : r.Timed since) (hu : r.Unmoved s) : s.Timed since := by
  intro e he
  have he' := (hu.entries e).1 he
  obtain ⟨m, hm, hticks⟩ := ht e he'
  exact ⟨m, (hu.messages e he').trans hm, hticks⟩

theorem receive (ht : r.Timed since) (hs : r.Sound streams outside) (f : Frame) :
    (r.receive streams f).Timed (r.opened (r.receive streams f) since) := by
  have hr := receive_handling hs f
  rintro ⟨key, k⟩ hk
  by_cases hkey : key = f.assemblyKey
  · subst hkey
    cases receive_takes hs f with
    | unmoved hu =>
      rw [opened_of_mem ((hu.entries _).1 hk)]
      exact ht.unmoved hu _ hk
    | opens hnone hg =>
      obtain ⟨m, hm, hticks, hsize⟩ := hg.timed hr.sound hk
      have hzero : r.opened (r.receive streams f) since f.assemblyKey = 0 :=
        if_pos ⟨hnone, find?_isSome_of_mem hk⟩
      exact ⟨m, hm, hticks.trans hzero.symm, by rw [hzero]; decide, hsize⟩
    | @grows k' _ _ hmem hm hg =>
      obtain ⟨m, hm', hticks, hsize⟩ := hg.timed hr.sound hk
      obtain ⟨m', hm'', hticks', hlt, hroom⟩ := ht _ hmem
      obtain rfl := Option.some.inj (hm.symm.trans hm'')
      rw [opened_of_mem hmem]
      exact ⟨m, hm', hticks.trans hticks', hlt, hsize.trans hroom⟩
    | ends hnone =>
      exact absurd hnone (Option.ne_none_iff_isSome.2 (find?_isSome_of_mem hk))
  · have hmem := (hr.entries (key, k) hkey).1 hk
    obtain ⟨m, hm, hticks⟩ := ht _ hmem
    rw [opened_of_mem hmem]
    exact ⟨m, (hr.messages k (.inr ⟨key, hkey, hmem⟩)).trans hm, hticks⟩

/-- A tick gives a message up if and only if it is the last that the message may see. -/
theorem expires_iff (ht : r.Timed since) {e : AssemblyKey × Handle} (he : e ∈ r.assemblies.entries) :
    expires r.messages e.2 = true ↔ Limits.assemblyTimeout ≤ since e.1 + 1 := by
  obtain ⟨m, hm, hticks, hlt, -⟩ := ht e he
  unfold expires
  rw [hm, Option.any_some, ticks_older (hticks ▸ hlt), hticks, decide_eq_true_eq]

theorem aged (ht : r.Timed since) (hs : r.Sound streams outside) :
    r.age.Timed fun key => since key + 1 := by
  have ha := age_aged hs
  intro e he
  obtain ⟨hmem, hyoung⟩ := (ha.entries e).1 he
  obtain ⟨m, hm, hticks, hlt, hroom⟩ := ht e hmem
  rw [ht.expires_iff hmem, Nat.not_le] at hyoung
  refine ⟨m.older, ?_, ?_, hyoung, hroom⟩
  · rw [ha.older e he, hm]
    rfl
  · rw [ticks_older (hticks ▸ hlt), hticks]

end Timed

/-! ### Any frames, any ticks -/

/-- What frames, ticks and an application that keeps to its own messages can bring shared state to,
whatever aliases there are, with the handles that the application owns and, for every key, the ticks
since the frame that opened its message. -/
inductive Elapsing (streams : Bool) : Resources → List Handle → (AssemblyKey → Nat) → Prop where
  | start (t : AliasTable) : Elapsing streams { Resources.empty streams with aliases := t } []
      fun _ => 0
  | receive {r held since} (f : Frame) : Elapsing streams r held since →
      Elapsing streams (r.receive streams f) held (r.opened (r.receive streams f) since)
  | age {r held since} : Elapsing streams r held since →
      Elapsing streams r.age held fun key => since key + 1
  /-- The application takes a message that was delivered. -/
  | pop {r held since h q} : Elapsing streams r held since → r.ingress.pop = some (h, q) →
      Elapsing streams { r with ingress := q } (h :: held) since
  | free {r held since h} : Elapsing streams r held since → h ∈ held →
      Elapsing streams { r with messages := r.messages.free h } (held.erase h) since
  /-- The application writes to a message, but not over the marks of the store. -/
  | edit {r held since h} {g : Message → Message} : Elapsing streams r held since → h ∈ held →
      (∀ m, r.messages.get? h = some m → m.Alike (g m)) →
        Elapsing streams { r with messages := r.messages.modify h g } held since
  | allocate {r held since c h ms} : Elapsing streams r held since →
      r.messages.allocate c = some (h, ms) →
        Elapsing streams { r with messages := ms } (h :: held) since
  /-- The application gives a message away to be sent. -/
  | push {r held since h q} : Elapsing streams r held since → h ∈ held →
      r.egress.push h = some q → Elapsing streams { r with egress := q } (held.erase h) since
  /-- The main loop takes a message that is to be sent. -/
  | take {r held since h q} : Elapsing streams r held since → r.egress.pop = some (h, q) →
      Elapsing streams { r with egress := q } (h :: held) since
  /-- The main loop sends frames, and nodes log in. -/
  | aside {r held since} (o : Outbox) (t : AliasTable) : Elapsing streams r held since →
      Elapsing streams { r with outbox := o, aliases := t } held since

variable {held : List Handle}

/-- Handles pass between the queues and the application. -/
theorem Sound.pass {in' eg : Queue Handle Limits.messageDepth} {held' : List Handle}
    (hs : r.Sound streams held)
    (hp : ∀ k, (in'.toList ++ eg.toList ++ held').count k =
      (r.ingress.toList ++ r.egress.toList ++ held).count k) :
    Sound streams { r with ingress := in', egress := eg } held' :=
  Ledger.perm hs (List.perm_iff_count.2 hp).symm

theorem Elapsing.sound_timed (he : Elapsing streams r held since) :
    r.Sound streams held ∧ r.Timed since := by
  induction he with
  | start t => exact ⟨Ledger.empty streams, fun e he => by cases he⟩
  | receive f _ ih => exact ⟨(receive_handling ih.1 f).sound, ih.2.receive ih.1 f⟩
  | age _ ih => exact ⟨(age_aged ih.1).sound, ih.2.aged ih.1⟩
  | @pop r held since h q _ hpop ih =>
    refine ⟨ih.1.pass fun k => ?_, ih.2⟩
    rw [Queue.pop_eq_some_iff.1 hpop]
    simp only [List.count_append, List.count_cons]
    omega
  | @free r held since h _ hh ih =>
    -- what the application owns is not under assembly
    have hunlisted : h ∉ r.assemblies.handles := Ledger.not_listed ih.1 (List.mem_append_right _ hh)
    refine ⟨Sound.free (ih.1.perm (List.perm_cons_erase hh)),
      ih.2.unmoved ⟨fun _ => Iff.rfl, fun e he => ?_⟩⟩
    refine (r.messages.get?_free h e.2).trans (if_neg fun heq => hunlisted ?_)
    exact heq ▸ List.mem_map_of_mem he
  | @edit r held since h g _ hh hc ih =>
    have hunlisted : h ∉ r.assemblies.handles := Ledger.not_listed ih.1 (List.mem_append_right _ hh)
    refine ⟨ih.1.edit hh hc, ih.2.unmoved ⟨fun _ => Iff.rfl, fun e he => ?_⟩⟩
    refine (r.messages.get?_modify h e.2 g).trans (if_neg fun heq => hunlisted ?_)
    exact heq ▸ List.mem_map_of_mem he
  | @allocate r held since c h ms _ ha ih =>
    obtain ⟨-, hnone, hget⟩ := MessageStore.get?_of_allocate ha
    refine ⟨ih.1.allocate ha, ih.2.unmoved ⟨fun _ => Iff.rfl, fun e he => ?_⟩⟩
    refine (hget e.2).trans (if_neg fun heq => ?_)
    obtain ⟨m, hm, -⟩ := ih.2 e he
    rw [heq, hnone] at hm
    cases hm
  | @push r held since h q _ hh hpush ih =>
    refine ⟨ih.1.pass fun k => ?_, ih.2⟩
    rw [Queue.toList_push hpush]
    have hcount := (List.perm_cons_erase hh).count_eq k
    simp only [List.count_append, List.count_cons, List.count_nil] at hcount ⊢
    omega
  | @take r held since h q _ hpop ih =>
    refine ⟨ih.1.pass fun k => ?_, ih.2⟩
    rw [Queue.pop_eq_some_iff.1 hpop]
    simp only [List.count_append, List.count_cons]
    omega
  | aside o t _ ih => exact ⟨ih.1, ih.2⟩

/-! ### The last tick -/

/-- The messages under assembly live for as many ticks as they may, and not one more. -/
structure Punctual (streams : Bool) (r : Resources) (since : AssemblyKey → Nat) : Prop where
  /-- A message counts the ticks since its first frame, of which there are not too many. -/
  ticks : ∀ e ∈ r.assemblies.entries, ∃ m, r.messages.get? e.2 = some m ∧
    m.header.ticks = since e.1 ∧ since e.1 < Limits.assemblyTimeout
  /-- A tick takes just those messages from the list for which it is the last. -/
  entries : r.age.assemblies.entries.Perm
    (r.assemblies.entries.filter fun e => since e.1 + 1 < Limits.assemblyTimeout)
  /-- Their buffers are free. -/
  freed : ∀ e ∈ r.assemblies.entries, Limits.assemblyTimeout ≤ since e.1 + 1 →
    r.age.messages.get? e.2 = none
  /-- The others have counted it, and are as they were. -/
  kept : ∀ e ∈ r.assemblies.entries, since e.1 + 1 < Limits.assemblyTimeout →
    r.age.messages.get? e.2 = (r.messages.get? e.2).map fun m =>
      { m with header := { m.header with ticks := m.header.ticks + 1 } }
  /-- All other messages are as they were, and so is the rest of shared state. -/
  others : ∀ h, h ∉ r.assemblies.handles → r.age.messages.get? h = r.messages.get? h
  ingress : r.age.ingress = r.ingress
  outside : r.SameOutside r.age
  /-- A message that has not been opened since its last tick is not listed. -/
  gone : ∀ key, Limits.assemblyTimeout ≤ since key → r.assemblies.find? key = none
  /-- A later frame of it is rejected as one without a first frame. -/
  unstarted : ∀ f p, p = .middle ∨ p = .last → r.place? streams f = some p →
    Limits.assemblyTimeout ≤ since f.assemblyKey →
      r.receive streams f = r.reject f Rejection.endWithoutStart ∧
        r.Unmoved (r.receive streams f) ∧
          r.Rejects (r.receive streams f) f Rejection.endWithoutStart
  /-- A first frame opens it anew, if there is a buffer. -/
  anew : ∀ f, r.place? streams f = some .first → Limits.assemblyTimeout ≤ since f.assemblyKey →
    (r.messages.allocate f.assemblyKey.room).isSome →
      (r.receive streams f).Gathers f.assemblyKey f.assemblyKey.room f.data 0 ∧
        (r.receive streams f).ingress = r.ingress
  /-- Just after the last tick there is one. -/
  room : ∀ e ∈ r.assemblies.entries, Limits.assemblyTimeout ≤ since e.1 + 1 →
    (r.age.messages.allocate e.1.room).isSome

namespace Timed

variable {e : AssemblyKey × Handle}

theorem age_perm (ht : r.Timed since) (hs : r.Sound streams outside) :
    r.age.assemblies.entries.Perm
      (r.assemblies.entries.filter fun e => since e.1 + 1 < Limits.assemblyTimeout) := by
  have ha := age_aged hs
  refine (List.perm_ext_iff_of_nodup (List.Nodup.of_map _ (Ledger.keys ha.sound))
    ((List.Nodup.of_map _ (Ledger.keys hs)).filter _)).2 fun e => ?_
  rw [ha.entries, List.mem_filter, decide_eq_true_eq]
  refine and_congr_right fun he => ?_
  rw [ht.expires_iff he, Nat.not_le]

theorem freed (ht : r.Timed since) (hs : r.Sound streams outside) (he : e ∈ r.assemblies.entries)
    (hlast : Limits.assemblyTimeout ≤ since e.1 + 1) : r.age.messages.get? e.2 = none := by
  have ha := age_aged hs
  -- nobody owns it any more
  have hunlisted : e.2 ∉ r.age.assemblies.handles := fun hmem => by
    obtain ⟨key, hmem⟩ := Assemblies.mem_handles_iff.1 hmem
    exact ((ha.entries _).1 hmem).2 ((ht.expires_iff he).2 hlast)
  have hrest : e.2 ∉ r.ingress.toList ++ r.egress.toList ++ outside := fun hmem =>
    Ledger.not_listed hs hmem (List.mem_map_of_mem he)
  rw [← Option.not_isSome_iff_eq_none, ← Ledger.mem_iff ha.sound, ha.ingress, ha.egress,
    List.mem_append, not_or]
  exact ⟨hunlisted, hrest⟩

theorem kept (ht : r.Timed since) (hs : r.Sound streams outside) (he : e ∈ r.assemblies.entries)
    (hmore : since e.1 + 1 < Limits.assemblyTimeout) :
    r.age.messages.get? e.2 = (r.messages.get? e.2).map fun m =>
      { m with header := { m.header with ticks := m.header.ticks + 1 } } := by
  have ha := age_aged hs
  obtain ⟨m, hm, hticks, hlt, -⟩ := ht e he
  have hmem : e ∈ r.age.assemblies.entries :=
    (ha.entries e).2 ⟨he, fun hex => absurd ((ht.expires_iff he).1 hex) (Nat.not_le.2 hmore)⟩
  have holder : m.older = { m with header := { m.header with ticks := m.header.ticks + 1 } } := by
    rw [← ticks_older (hticks ▸ hlt)]
    rfl
  rw [ha.older e hmem, hm, Option.map_some, Option.map_some, holder]

theorem room (ht : r.Timed since) (hs : r.Sound streams outside) (he : e ∈ r.assemblies.entries)
    (hlast : Limits.assemblyTimeout ≤ since e.1 + 1) :
    (r.age.messages.allocate e.1.room).isSome := by
  obtain ⟨m, hm, -, -, hroom⟩ := ht e he
  have hcap : (r.age.messages.pool e.2.size).capacity = (r.messages.pool e.2.size).capacity :=
    (Ledger.depths (age_aged hs).sound _).trans (Ledger.depths hs _).symm
  rw [← hroom]
  exact MessageStore.isSome_allocate_iff.2
    ⟨e.2.index, hcap ▸ Pool.lt_capacity hm, ht.freed hs he hlast⟩

theorem gone (ht : r.Timed since) (hexpired : Limits.assemblyTimeout ≤ since key) :
    r.assemblies.find? key = none := by
  rw [Assemblies.find?_eq_none_iff, List.mem_map]
  rintro ⟨e, he, rfl⟩
  obtain ⟨m, -, -, hlt, -⟩ := ht e he
  exact absurd hexpired (Nat.not_le.2 hlt)

end Timed

/-- **Expiry.** Whatever frames come in, in whichever order, with any ticks between them and whatever
the application does with the messages that it owns: a message under assembly is given up by the
thirtieth tick after its first frame and by no other, its buffer is free again, and nothing else
changes.  After that its frames find no message, until a first frame opens another. -/
theorem Elapsing.punctual (he : Elapsing streams r held since) : Punctual streams r since := by
  obtain ⟨hs, ht⟩ := he.sound_timed
  have ha := age_aged hs
  refine ⟨fun e he => ?_, ht.age_perm hs, fun e => ht.freed hs, fun e => ht.kept hs, ha.others,
    ha.ingress, age_outside r, fun key => ht.gone, fun f p hlate hp hexpired => ?_,
    fun f hp hexpired hfree => ?_, fun e => ht.room hs⟩
  · obtain ⟨m, hm, hticks, hlt, -⟩ := ht e he
    exact ⟨m, hm, hticks, hlt⟩
  · obtain ⟨c, heq⟩ := receive_of_place hp
    rw [accept_of_unlisted _ c hlate (ht.gone hexpired)] at heq
    rw [heq]
    exact ⟨rfl, unmoved_reject hs f _, rejects_reject hs f _⟩
  · rw [receive_of_first hp]
    exact acceptFirst_gathers _ hs (ht.gone hexpired) hfree (length_dataFrom_le f _ _)

theorem Elapsing.iterate_age (he : Elapsing streams r held since) (n : Nat) :
    Elapsing streams (Resources.age^[n] r) held fun key => since key + n := by
  induction n with
  | zero => exact he
  | succ n ih =>
    rw [Function.iterate_succ_apply']
    exact ih.age

/-- The alias 0x123 belongs to node 1.  Two messages have been opened and left alone for 29 ticks, and
then one of another sender. -/
def stale : Resources :=
  let r : Resources :=
    { Resources.empty false with aliases := ⟨[⟨0x123, 1, true, false⟩], false⟩ }
  let r := r.receive false (.messageData .datagramFirst 0x123 0x456 [1, 2, 3] (by decide))
  let r := r.receive false
    (.messageData .standard Mti.eventReportFirst 0x456 [9, 8, 7, 6, 5, 4, 3, 2] (by decide))
  (Resources.age^[29] r).receive false
    (.messageData .datagramFirst 0x123 0x789 [4, 5] (by decide))

/-- The next tick is the last one for two of them. -/
theorem punctual_stale : ∃ since,
    Elapsing false stale [] since ∧ Punctual false stale since ∧
      stale.assemblies.entries.map (fun e => (e.1, since e.1)) =
        [(⟨0x456, 0x123, Mti.datagram⟩, 29), (⟨0x456, 0, Mti.eventReportWithPayload⟩, 29),
          (⟨0x789, 0x123, Mti.datagram⟩, 0)] ∧
      stale.age.assemblies.entries.map Prod.fst = [⟨0x789, 0x123, Mti.datagram⟩] := by
  have he := ((((@Elapsing.start false ⟨[⟨0x123, 1, true, false⟩], false⟩).receive
    (.messageData .datagramFirst 0x123 0x456 [1, 2, 3] (by decide))).receive
    (.messageData .standard Mti.eventReportFirst 0x456 [9, 8, 7, 6, 5, 4, 3, 2]
      (by decide))).iterate_age 29).receive
    (.messageData .datagramFirst 0x123 0x789 [4, 5] (by decide))
  exact ⟨_, he, he.punctual, by decide +kernel, by decide +kernel⟩

end Resources

end LayoutBus
