import LayoutBus.Proofs.Interface.Places

/-!
# What is taken and what is refused

A frame with message data is taken or refused.  A frame that is refused is answered by a rejection, if
there is a buffer for one, and adds nothing to any message; if it is refused because it does not fit,
its message is given up as a whole.

* `Resources.Rejects` : nothing is handed to the application but perhaps a rejection.
* `Resources.Unmoved` : the messages under assembly are as they were.
* `Resources.accept_of_listed` and `Resources.accept_of_unlisted` : frames that come out of order.
* `Resources.acceptFirst_spec`, `Resources.acceptMiddle_spec` and `Resources.acceptLast_spec` : frames
  that come in order.
-/

namespace LayoutBus

namespace Resources

variable {streams : Bool} {r s : Resources} {outside : List Handle} {h k : Handle} {f : Frame}
  {key : AssemblyKey} {c : SizeClass} {m : Message} {data : List UInt8} {age : Nat}

/-! ### Rejections -/

/-- The step hands nothing to the application but perhaps a rejection of the frame. -/
def Rejects (r s : Resources) (f : Frame) (code : Nat) : Prop :=
  s.ingress = r.ingress ∨
    ∃ h m, s.ingress.toList = r.ingress.toList ++ [h] ∧ s.messages.get? h = some m ∧
      m.header.Names ⟨f.dest, f.source, f.rejectionMti⟩ ∧
        m.payload = Message.wordBytes f.source ++ Message.wordBytes code

theorem holds_rejecting (f : Frame) (code : Nat) :
    ((MessageStore.fresh .basic).rejecting f code).Holds .basic
      (Message.wordBytes f.source ++ Message.wordBytes code) 0 := by
  have hempty : ((MessageStore.fresh .basic).load f.rejectionMti f.dest 0 f.source 0).Holds
      .basic [] 0 := ⟨rfl, List.length_replicate, rfl⟩
  have hword : ∀ n, (Message.wordBytes n).length = 2 := fun n => by simp [Message.wordBytes]
  have hfirst := hempty.append (Message.wordBytes f.source) (by rw [hword]; decide)
  exact hfirst.append (Message.wordBytes code) (by rw [List.nil_append, hword, hword]; decide)

theorem rejects_reject (hs : r.Sound streams outside) (f : Frame) (code : Nat) :
    r.Rejects (r.reject f code) f code := by
  rw [reject]
  split
  · rename_i h ms ha
    obtain ⟨-, -, hget⟩ := MessageStore.get?_of_allocate ha
    obtain ⟨q, hq, hdeliver⟩ := ((hs.allocate ha).edit (g := fun m => m.rejecting f code)
      List.mem_cons_self fun m _ => m.alike_rejecting f code).deliver_eq
    rw [hdeliver]
    refine .inr ⟨h, (MessageStore.fresh .basic).rejecting f code, hq, ?_, ⟨rfl, rfl, rfl⟩,
      (holds_rejecting f code).payload⟩
    show (ms.modify h _).get? h = _
    rw [MessageStore.get?_modify, if_pos rfl, hget, if_pos rfl]
    rfl
  · exact .inl rfl

/-! ### Steps that concern no message under assembly -/

/-- The messages under assembly are as they were. -/
structure Unmoved (r s : Resources) : Prop where
  entries : ∀ e, e ∈ s.assemblies.entries ↔ e ∈ r.assemblies.entries
  messages : ∀ e ∈ r.assemblies.entries, s.messages.get? e.2 = r.messages.get? e.2

/-- A step that could be about any message is about none under assembly. -/
theorem unmoved_of_handling (hr : ∀ key, Handling streams key outside r s []) : r.Unmoved s where
  entries e := (hr ⟨e.1.source + 1, e.1.dest, e.1.mti⟩).entries e fun heq => by
    have hsource : e.1.source = e.1.source + 1 := congrArg AssemblyKey.source heq
    omega
  messages e he := by
    have hne : e.1 ≠ ⟨e.1.source + 1, e.1.dest, e.1.mti⟩ := fun heq => by
      have hsource : e.1.source = e.1.source + 1 := congrArg AssemblyKey.source heq
      omega
    exact (hr _).messages e.2 (.inr ⟨e.1, hne, he⟩)

theorem handling_refl (hs : r.Sound streams outside) (key : AssemblyKey) :
    Handling streams key outside r r [] := Handling.idle hs key r.outbox r.aliases

theorem unmoved_reject (hs : r.Sound streams outside) (f : Frame) (code : Nat) :
    r.Unmoved (r.reject f code) :=
  unmoved_of_handling fun key => (handling_refl hs key).reject f code

theorem unmoved_acceptOnly (hs : r.Sound streams outside) (f : Frame) (offset : Nat) (c : SizeClass) :
    r.Unmoved (r.acceptOnly f offset c) :=
  unmoved_of_handling fun key => (handling_refl hs key).acceptOnly f offset c

/-! ### Frames out of order -/

/-- A first frame whose message is under assembly already. -/
theorem accept_of_listed (offset : Nat) (c : SizeClass)
    (hfind : r.assemblies.find? f.assemblyKey = some k) :
    r.accept f offset c .first = r.reject f Rejection.startBeforeEnd := by
  rw [accept, acceptFirst, hfind]

/-- A frame of a message that is not under assembly. -/
theorem accept_of_unlisted {p : Place} (offset : Nat) (c : SizeClass) (hp : p = .middle ∨ p = .last)
    (hfind : r.assemblies.find? f.assemblyKey = none) :
    r.accept f offset c p = r.reject f Rejection.endWithoutStart := by
  rcases hp with rfl | rfl
  · rw [accept, acceptMiddle, hfind]
  · rw [accept, acceptLast, hfind]

/-! ### Frames that do not fit -/

/-- The message of the frame is given up, and the frame is rejected. -/
def GivesUp (r s : Resources) (f : Frame) : Prop :=
  s.assemblies.find? f.assemblyKey = none ∧ r.Rejects s f Rejection.bufferUnavailable

theorem accepts_ne (hm : r.messages.get? h = some m)
    (hover : m.capacity < m.payload.length + data.length) : r.accepts h data ≠ data.length := by
  have hle : m.payload.length ≤ m.capacity := m.length_payload ▸ Nat.min_le_right _ _
  rw [accepts, hm]
  simp only [Message.accepts, ← Message.length_payload]
  omega

/-- A message that a frame does not fit into is given up, and the frame is rejected. -/
theorem extend_overflow (offset : Nat) (hs : r.Sound streams outside)
    (hmem : (f.assemblyKey, h) ∈ r.assemblies.entries) (hm : r.messages.get? h = some m)
    (hover : m.capacity < m.payload.length + (f.dataFrom offset).length) :
    (r.extend f offset h).2 = false ∧ r.GivesUp (r.extend f offset h).1 f := by
  have heq : r.extend f offset h = ((r.abandon h).reject f Rejection.bufferUnavailable, false) := by
    rw [extend]
    exact if_neg (accepts_ne hm hover)
  have habandon : (r.abandon h).Sound streams outside :=
    abandon_sound hs (Assemblies.mem_handles_iff.2 ⟨f.assemblyKey, hmem⟩)
  rw [heq]
  refine ⟨rfl, ?_, rejects_reject habandon f _⟩
  rw [Assemblies.find?_eq_none_iff, List.mem_map]
  -- keys are distinct, so what is under the key would be the message that was given up
  rintro ⟨e, he, heq⟩
  obtain ⟨he', hne⟩ := (mem_abandon_iff hs e).1 (((unmoved_reject habandon f _).entries e).1 he)
  exact hne (congrArg Prod.snd (List.inj_on_of_nodup_map (Ledger.keys hs) he' hmem heq))

/-! ### Frames in order -/

/-- The message under assembly is the one that is listed under the key. -/
theorem Gathers.of_mem (hg : r.Gathers key c data age) (hs : r.Sound streams outside)
    (hmem : (key, k) ∈ r.assemblies.entries) :
    ∃ m, r.messages.get? k = some m ∧ m.Holds c data age := by
  obtain ⟨h, m, hmem', hm, hh⟩ := hg
  obtain rfl : k = h :=
    congrArg Prod.snd (List.inj_on_of_nodup_map (Ledger.keys hs) hmem hmem' rfl)
  exact ⟨m, hm, hh⟩

theorem Gathers.payload_eq (hg : r.Gathers key c data age) (hs : r.Sound streams outside)
    (hmem : (key, k) ∈ r.assemblies.entries) (hm : r.messages.get? k = some m) : m.payload = data := by
  obtain ⟨m', hm', hh⟩ := hg.of_mem hs hmem
  obtain rfl := Option.some.inj (hm.symm.trans hm')
  exact hh.payload

theorem find?_isSome_of_mem (hmem : (key, k) ∈ r.assemblies.entries) :
    (r.assemblies.find? key).isSome := by
  rw [← Option.ne_none_iff_isSome, ne_eq, Assemblies.find?_eq_none_iff, not_not]
  exact List.mem_map_of_mem hmem

theorem Gathers.find?_isSome (hg : r.Gathers key c data age) :
    (r.assemblies.find? key).isSome := by
  obtain ⟨h, m, hmem, -⟩ := hg
  exact find?_isSome_of_mem hmem

/-- A message under assembly, whatever it holds. -/
theorem gathers_of_mem (hs : r.Sound streams outside) (hmem : (key, k) ∈ r.assemblies.entries)
    (hm : r.messages.get? k = some m) : r.Gathers key k.size m.payload m.header.ticks :=
  ⟨k, m, hmem, hm, rfl, (Ledger.suits hs k m hm).capacity, rfl⟩

theorem find?_eq_some (hs : r.Sound streams outside) (hfind : r.assemblies.find? key = some k) :
    (key, k) ∈ r.assemblies.entries ∧ ∃ m, r.messages.get? k = some m := by
  have hmem := (Assemblies.find?_eq_some_iff (Ledger.keys hs)).1 hfind
  exact ⟨hmem, Option.isSome_iff_exists.1
    (Ledger.isSome_of_listed hs (Assemblies.mem_handles_iff.2 ⟨key, hmem⟩))⟩

theorem length_dataFrom_le (f : Frame) (offset : Nat) (c : SizeClass) :
    (f.dataFrom offset).length ≤ c.capacity := by
  rw [Frame.dataFrom, List.length_drop]
  refine Nat.le_trans (Nat.le_trans (Nat.sub_le _ _) f.length_le) ?_
  cases c <;> decide

/-- A first frame opens its message, if there is a buffer. -/
theorem acceptFirst_spec (offset : Nat) (c : SizeClass) (hs : r.Sound streams outside)
    (hnone : r.assemblies.find? f.assemblyKey = none) :
    if (r.messages.allocate c).isSome then
      (r.acceptFirst f offset c).Gathers f.assemblyKey c (f.dataFrom offset) 0 ∧
        (r.acceptFirst f offset c).ingress = r.ingress
    else r.acceptFirst f offset c = r.reject f Rejection.bufferUnavailable := by
  split
  · rename_i hfree
    exact acceptFirst_gathers offset hs hnone hfree (length_dataFrom_le f offset c)
  · rename_i hfull
    rw [acceptFirst, hnone]
    simp only [allocateFor, Option.not_isSome_iff_eq_none.1 hfull]

/-- A frame in the middle goes on top of its message, if it fits. -/
theorem acceptMiddle_spec (offset : Nat) (hs : r.Sound streams outside)
    (hfind : r.assemblies.find? f.assemblyKey = some k) (hm : r.messages.get? k = some m) :
    if m.payload.length + (f.dataFrom offset).length ≤ m.capacity then
      (r.acceptMiddle f offset).Gathers f.assemblyKey k.size (m.payload ++ f.dataFrom offset)
          m.header.ticks ∧ (r.acceptMiddle f offset).ingress = r.ingress
    else r.GivesUp (r.acceptMiddle f offset) f := by
  have hmem := (find?_eq_some hs hfind).1
  split
  · rename_i hfit
    rw [(Ledger.suits hs k m hm).capacity] at hfit
    exact acceptMiddle_gathers offset hs (gathers_of_mem hs hmem hm) hfit
  · rename_i hover
    rw [acceptMiddle, hfind]
    exact (extend_overflow offset hs hmem hm (by omega)).2

/-- A last frame hands its message to the application, with its own data on top, if they fit. -/
theorem acceptLast_spec (offset : Nat) (hs : r.Sound streams outside)
    (hfind : r.assemblies.find? f.assemblyKey = some k) (hm : r.messages.get? k = some m) :
    if m.payload.length + (f.dataFrom offset).length ≤ m.capacity then
      r.Delivers (r.acceptLast f offset) f.assemblyKey (m.payload ++ f.dataFrom offset)
    else r.GivesUp (r.acceptLast f offset) f := by
  have hmem := (find?_eq_some hs hfind).1
  split
  · rename_i hfit
    rw [(Ledger.suits hs k m hm).capacity] at hfit
    exact acceptLast_delivers offset hs (gathers_of_mem hs hmem hm) hfit
  · rename_i hover
    obtain ⟨hfalse, hgone⟩ := extend_overflow offset hs hmem hm (by omega)
    have heq : r.acceptLast f offset = (r.extend f offset k).1 := by
      rw [acceptLast, hfind]
      cases hext : r.extend f offset k with
      | mk t done =>
        rw [hext] at hfalse
        subst hfalse
        simp only [hext]
    rw [heq]
    exact hgone

end Resources

end LayoutBus
