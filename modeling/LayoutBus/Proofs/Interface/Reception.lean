import LayoutBus.Interface.Receive
import LayoutBus.Proofs.Interface.Extent
import LayoutBus.Proofs.Message.Ledger

/-!
# Reception and ownership

A frame that comes in moves the buffer of one message, and perhaps of a rejection, between the free
buffers, the messages under assembly and the queue of incoming messages.  It neither loses a
buffer nor touches a message that belongs to anyone else.

* `Resources.Sound` : every buffer in use has exactly one owner.
* `Resources.Handling` : what is true while a frame is handled, with some buffers in hand.
* `Resources.receive_handling` : reception of any frame.
* `Resources.Sound.deliver_eq` : there is room for every message that is handed to the application.
-/

namespace LayoutBus

/-! ### Changes that keep a message in its place -/

namespace Message

theorem Alike.trans {m₁ m₂ m₃ : Message} (h : m₁.Alike m₂) (h' : m₂.Alike m₃) : m₁.Alike m₃ :=
  ⟨h'.allocated.trans h.allocated, h'.capacity.trans h.capacity, h'.inProcess.trans h.inProcess⟩

theorem alike_load (m : Message) (mti source sourceId dest destId : Nat) :
    m.Alike (m.load mti source sourceId dest destId) := ⟨rfl, rfl, rfl⟩

theorem alike_append (m : Message) (data : List UInt8) : m.Alike (m.append data) :=
  ⟨rfl, m.capacity_append data, rfl⟩

theorem alike_headed (m : Message) (f : Frame) : m.Alike (m.headed f) := m.alike_load _ _ _ _ _

theorem alike_rejecting (m : Message) (f : Frame) (code : Nat) : m.Alike (m.rejecting f code) :=
  ((m.alike_load _ _ _ _ _).trans (alike_append _ _)).trans (alike_append _ _)

theorem alike_older (m : Message) : m.Alike m.older := ⟨rfl, rfl, rfl⟩

theorem names_headed (m : Message) (f : Frame) : (m.headed f).header.Names f.assemblyKey :=
  ⟨rfl, rfl, rfl⟩

theorem names_append {m : Message} {key : AssemblyKey} (h : m.header.Names key)
    (data : List UInt8) : (m.append data).header.Names key := ⟨h.source, h.dest, h.mti⟩

end Message

namespace Resources

/-- Every message buffer in use has exactly one owner: a queue, the list of messages under
assembly, or the outside. -/
def Sound (streams : Bool) (r : Resources) (outside : List Handle) : Prop :=
  Ledger streams r.messages r.assemblies (r.ingress.toList ++ r.egress.toList ++ outside)

variable {streams : Bool} {r r' s : Resources} {outside inHand : List Handle} {h k : Handle}
  {c : SizeClass} {f : Frame} {ms : MessageStore} {g : Message → Message}

namespace Sound

theorem perm {outside' : List Handle} (hs : r.Sound streams outside)
    (hp : outside.Perm outside') : r.Sound streams outside' :=
  Ledger.perm hs (hp.append_left _)

theorem allocate (hs : r.Sound streams outside) (ha : r.messages.allocate c = some (h, ms)) :
    Sound streams { r with messages := ms } (h :: outside) :=
  (Ledger.allocate hs ha).perm List.perm_middle.symm

theorem free (hs : r.Sound streams (h :: outside)) :
    Sound streams { r with messages := r.messages.free h } outside :=
  Ledger.free (Ledger.perm hs List.perm_middle)

theorem edit (hs : r.Sound streams outside) (hh : h ∈ outside)
    (hc : ∀ m, r.messages.get? h = some m → m.Alike (g m)) :
    Sound streams { r with messages := r.messages.modify h g } outside :=
  Ledger.edit hs (List.mem_append_right _ hh) hc

/-- There is room for every message that is handed to the application. -/
theorem deliver_eq (hs : r.Sound streams (h :: outside)) :
    ∃ q, q.toList = r.ingress.toList ++ [h] ∧ r.deliver h = ({ r with ingress := q }, true) := by
  have hlen := Ledger.length_le hs
  simp only [List.length_append, List.length_cons] at hlen
  unfold Resources.deliver
  cases hq : r.ingress.push h with
  | none =>
    have hfull : r.ingress.toList.length = Limits.messageDepth := Queue.push_eq_none_iff.1 hq
    omega
  | some q => exact ⟨q, Queue.toList_push hq, rfl⟩

/-- There is room for every message that is to be sent. -/
theorem push_egress (hs : r.Sound streams (h :: outside)) :
    ∃ q, r.egress.push h = some q ∧ Sound streams { r with egress := q } outside := by
  have hlen := Ledger.length_le hs
  simp only [List.length_append, List.length_cons] at hlen
  cases hq : r.egress.push h with
  | none =>
    have hfull : r.egress.toList.length = Limits.messageDepth := Queue.push_eq_none_iff.1 hq
    omega
  | some q =>
    refine ⟨q, rfl, Ledger.perm hs ?_⟩
    rw [Queue.toList_push hq]
    simp only [List.append_assoc, List.singleton_append]
    exact List.Perm.refl _

/-- A message under assembly that is complete is in hand. -/
theorem delist (hs : r.Sound streams outside) (hh : h ∈ r.assemblies.handles) :
    Sound streams
      { r with
        messages := r.messages.modify h fun m => m.withInProcess false
        assemblies := r.assemblies.release h } (h :: outside) :=
  Ledger.perm (Ledger.delist hs hh) List.perm_middle.symm

theorem deliver (hs : r.Sound streams (h :: outside)) : (r.deliver h).1.Sound streams outside := by
  obtain ⟨q, hq, heq⟩ := hs.deliver_eq
  rw [heq]
  refine Ledger.perm hs ?_
  show List.Perm _ (q.toList ++ r.egress.toList ++ outside)
  rw [hq, List.append_assoc, List.append_assoc, List.append_assoc]
  exact List.Perm.append_left _ List.perm_middle

end Sound

/-! ### In the middle of a reception -/

/-- The handle has an owner other than the message under assembly with this key. -/
def Elsewhere (r : Resources) (key : AssemblyKey) (outside : List Handle) (h : Handle) : Prop :=
  h ∈ r.ingress.toList ++ r.egress.toList ++ outside ∨
    ∃ k, k ≠ key ∧ (k, h) ∈ r.assemblies.entries

/-- Reception of a frame of the message `key` has led from `r₀` to `r`, with the buffers `inHand`
yet to be placed: whatever belongs to anyone else is as it was. -/
structure Handling (streams : Bool) (key : AssemblyKey) (outside : List Handle)
    (r₀ r : Resources) (inHand : List Handle) : Prop where
  base : r₀.Sound streams outside
  sound : r.Sound streams (inHand ++ outside)
  ingress : r₀.ingress.toList <+: r.ingress.toList
  egress : r.egress = r₀.egress
  entries : ∀ e : AssemblyKey × Handle, e.1 ≠ key →
    (e ∈ r.assemblies.entries ↔ e ∈ r₀.assemblies.entries)
  messages : ∀ k, r₀.Elsewhere key outside k → r.messages.get? k = r₀.messages.get? k

namespace Handling

variable {key : AssemblyKey} {r₀ : Resources} {inHand' : List Handle}

/-- Frames to send and aliases are of no concern to the owners of messages. -/
theorem idle (hs : r.Sound streams outside) (key : AssemblyKey) (o : Outbox) (t : AliasTable) :
    Handling streams key outside r { r with outbox := o, aliases := t } [] :=
  ⟨hs, hs, List.prefix_rfl, rfl, fun _ _ => Iff.rfl, fun _ _ => rfl⟩

/-- What belongs to someone else is not in hand, not under assembly with the key, and not free. -/
theorem ne_of_elsewhere (hr : Handling streams key outside r₀ r inHand)
    (hk : r₀.Elsewhere key outside k)
    (hh : h ∈ inHand ∨ (key, h) ∈ r.assemblies.entries ∨ r.messages.get? h = none) : k ≠ h := by
  rintro rfl
  have hperm : (r.ingress.toList ++ r.egress.toList ++ (inHand ++ outside)).Perm
      (inHand ++ (r.ingress.toList ++ r.egress.toList ++ outside)) := by
    rw [← List.append_assoc, ← List.append_assoc inHand]
    exact List.Perm.append_right _ List.perm_append_comm
  have hl := Ledger.perm hr.sound hperm
  -- it still belongs to someone else, and owners are disjoint
  have hk' : r.Elsewhere key outside k := by
    rcases hk with hmem | ⟨key', hne, hmem⟩
    · left
      rw [hr.egress]
      rw [List.mem_append, List.mem_append] at hmem ⊢
      exact hmem.imp_left fun hq => hq.imp_left fun hq => hr.ingress.subset hq
    · exact .inr ⟨key', hne, (hr.entries _ hne).2 hmem⟩
  rcases hk' with hmem | ⟨key', hne, hmem⟩
  · rcases hh with hin | hlisted | hnone
    · exact List.disjoint_of_nodup_append (List.nodup_append.1 hl.nodup).2.1 hin hmem
    · exact hl.not_listed (List.mem_append_right _ hmem)
        (Assemblies.mem_handles_iff.2 ⟨key, hlisted⟩)
    · have := hl.isSome_of_mem (List.mem_append_right _ hmem)
      rw [hnone] at this
      cases this
  · have hlisted := Assemblies.mem_handles_iff.2 ⟨key', hmem⟩
    rcases hh with hin | hkey | hnone
    · exact hl.not_listed (List.mem_append_left _ hin) hlisted
    · exact hne (hl.key_eq hmem hkey)
    · have := hl.isSome_of_listed hlisted
      rw [hnone] at this
      cases this

/-- A step that touches one buffer, which is in hand, or under assembly with the key, or free. -/
theorem touch (hr : Handling streams key outside r₀ r inHand)
    (hh : h ∈ inHand ∨ (key, h) ∈ r.assemblies.entries ∨ r.messages.get? h = none)
    (hsound : r'.Sound streams (inHand' ++ outside))
    (hin : r.ingress.toList <+: r'.ingress.toList) (heg : r'.egress = r.egress)
    (hent : ∀ e : AssemblyKey × Handle, e.1 ≠ key →
      (e ∈ r'.assemblies.entries ↔ e ∈ r.assemblies.entries))
    (hget : ∀ k, k ≠ h → r'.messages.get? k = r.messages.get? k) :
    Handling streams key outside r₀ r' inHand' where
  base := hr.base
  sound := hsound
  ingress := hr.ingress.trans hin
  egress := heg.trans hr.egress
  entries e hne := (hent e hne).trans (hr.entries e hne)
  messages k hk := (hget k (hr.ne_of_elsewhere hk hh)).trans (hr.messages k hk)

theorem allocate (hr : Handling streams key outside r₀ r inHand)
    (ha : r.messages.allocate c = some (h, ms)) :
    Handling streams key outside r₀ { r with messages := ms } (h :: inHand) := by
  obtain ⟨-, hnone, hget⟩ := MessageStore.get?_of_allocate ha
  exact hr.touch (.inr (.inr hnone)) (hr.sound.allocate ha) List.prefix_rfl rfl
    (fun _ _ => Iff.rfl) fun k hk => (hget k).trans (if_neg hk)

theorem edit (hr : Handling streams key outside r₀ r inHand) (hh : h ∈ inHand)
    (hc : ∀ m, r.messages.get? h = some m → m.Alike (g m)) :
    Handling streams key outside r₀ { r with messages := r.messages.modify h g } inHand :=
  hr.touch (.inl hh) (hr.sound.edit (List.mem_append_left _ hh) hc) List.prefix_rfl rfl
    (fun _ _ => Iff.rfl) fun k hk => (r.messages.get?_modify h k g).trans (if_neg hk)

theorem deliver (hr : Handling streams key outside r₀ r (h :: inHand)) :
    Handling streams key outside r₀ (r.deliver h).1 inHand := by
  obtain ⟨q, hq, heq⟩ := hr.sound.deliver_eq
  refine hr.touch (.inl List.mem_cons_self) hr.sound.deliver ?_ ?_ ?_ ?_ <;> rw [heq]
  · exact hq ▸ List.prefix_append _ _
  · exact fun _ _ => Iff.rfl
  · exact fun _ _ => rfl

theorem reject (hr : Handling streams key outside r₀ r inHand) (f : Frame) (code : Nat) :
    Handling streams key outside r₀ (r.reject f code) inHand := by
  unfold Resources.reject
  split
  · rename_i h ms ha
    exact ((hr.allocate ha).edit List.mem_cons_self fun m _ => m.alike_rejecting f code).deliver
  · exact hr

theorem allocateFor (hr : Handling streams key outside r₀ r inHand)
    (ha : r.allocateFor f c = some (h, s)) :
    Handling streams key outside r₀ s (h :: inHand) ∧ s.assemblies = r.assemblies ∧
      s.messages.get? h = some ((MessageStore.fresh c).headed f) := by
  unfold Resources.allocateFor at ha
  split at ha
  · rename_i k ms hms
    cases ha
    refine ⟨(hr.allocate hms).edit List.mem_cons_self fun m _ => m.alike_headed f, rfl, ?_⟩
    obtain ⟨-, -, hget⟩ := MessageStore.get?_of_allocate hms
    rw [MessageStore.get?_modify, if_pos rfl, hget, if_pos rfl]
    rfl
  · cases ha

/-- A message in hand is put under assembly. -/
theorem enlist {m : Message} (hr : Handling streams key outside r₀ r (h :: inHand))
    (hkey : r.assemblies.find? key = none) (hm : r.messages.get? h = some m)
    (hc : m.Alike (g m)) (hnamed : (g m).header.Names key) :
    ∃ a, r.assemblies.add key h = .ok a ∧
      Handling streams key outside r₀
        { r with
          assemblies := a
          messages := r.messages.modify h fun m => (g m).withInProcess true } inHand := by
  have hl : Ledger streams r.messages r.assemblies
      (h :: (r.ingress.toList ++ r.egress.toList ++ (inHand ++ outside))) :=
    Ledger.perm hr.sound List.perm_middle
  have hroom : r.assemblies.entries.length < Limits.messageDepth := by
    have hlen := hl.length_le
    rw [List.length_cons] at hlen
    omega
  refine ⟨_, Assemblies.add_eq_ok hkey hroom, ?_⟩
  refine hr.touch (.inl List.mem_cons_self) (hl.enlist hkey fun m' hm' => ?_) List.prefix_rfl rfl
    (fun e hne => ?_) fun k hk => (r.messages.get?_modify h k _).trans (if_neg hk)
  · obtain rfl : m = m' := Option.some.inj (hm.symm.trans hm')
    exact ⟨⟨hnamed.source, hnamed.dest, hnamed.mti⟩, rfl, hc.allocated, hc.capacity⟩
  · have hne' : e ≠ (key, h) := fun heq => hne (congrArg Prod.fst heq)
    simp [hne']

/-- A message under assembly with the key grows. -/
theorem append (hr : Handling streams key outside r₀ r inHand)
    (hh : (key, h) ∈ r.assemblies.entries) (data : List UInt8) :
    Handling streams key outside r₀
      { r with messages := r.messages.modify h fun m => m.append data } inHand := by
  refine hr.touch (.inr (.inl hh)) (Ledger.modify hr.sound (fun m _ => m.alike_append data) ?_)
    List.prefix_rfl rfl (fun _ _ => Iff.rfl)
    fun k hk => (r.messages.get?_modify h k _).trans (if_neg hk)
  rintro e he rfl m hm
  exact Message.names_append (Ledger.named hr.sound e he m hm) data

/-- Only the entries with the key are gone. -/
theorem release_iff (hr : Handling streams key outside r₀ r inHand)
    (hh : (key, h) ∈ r.assemblies.entries) (e : AssemblyKey × Handle) (hne : e.1 ≠ key) :
    e ∈ (r.assemblies.release h).entries ↔ e ∈ r.assemblies.entries := by
  rw [(Assemblies.release_perm (Ledger.handles_nodup hr.sound)).mem_iff, List.mem_filter]
  refine and_iff_left_of_imp fun he => decide_eq_true ?_
  rintro rfl
  exact hne (Ledger.key_eq hr.sound he hh)

theorem abandon (hr : Handling streams key outside r₀ r inHand)
    (hh : (key, h) ∈ r.assemblies.entries) :
    Handling streams key outside r₀ (r.abandon h) inHand :=
  hr.touch (.inr (.inl hh))
    (Ledger.abandon hr.sound (Assemblies.mem_handles_iff.2 ⟨key, hh⟩)) List.prefix_rfl rfl
    (hr.release_iff hh) fun k hk => (r.messages.get?_free h k).trans (if_neg hk)

theorem complete (hr : Handling streams key outside r₀ r inHand)
    (hh : (key, h) ∈ r.assemblies.entries) :
    Handling streams key outside r₀ (r.complete h) inHand := by
  have hmid : Handling streams key outside r₀
      { r with
        messages := r.messages.modify h fun m => m.withInProcess false
        assemblies := r.assemblies.release h } (h :: inHand) :=
    hr.touch (.inr (.inl hh)) (hr.sound.delist (Assemblies.mem_handles_iff.2 ⟨key, hh⟩))
      List.prefix_rfl rfl (hr.release_iff hh) fun k hk => (r.messages.get?_modify h k _).trans (if_neg hk)
  exact hmid.deliver

/-! ### The places in a message -/

theorem acceptOnly (hr : Handling streams key outside r₀ r inHand) (f : Frame) (offset : Nat)
    (c : SizeClass) : Handling streams key outside r₀ (r.acceptOnly f offset c) inHand := by
  unfold Resources.acceptOnly
  split
  · rename_i h s ha
    obtain ⟨hs, -, -⟩ := hr.allocateFor ha
    exact (hs.edit List.mem_cons_self fun m _ => m.alike_append _).deliver
  · split
    · exact hr.reject f _
    · exact hr

theorem acceptFirst (hr : Handling streams f.assemblyKey outside r₀ r inHand) (offset : Nat)
    (c : SizeClass) :
    Handling streams f.assemblyKey outside r₀ (r.acceptFirst f offset c) inHand := by
  unfold Resources.acceptFirst
  split
  · exact hr.reject f _
  · rename_i hnone
    split
    · exact hr.reject f _
    · rename_i h s ha
      obtain ⟨hs, hasm, hget⟩ := hr.allocateFor ha
      obtain ⟨a, hadd, hdone⟩ := hs.enlist (g := fun m => m.append (f.dataFrom offset))
        (hasm ▸ hnone) hget (Message.alike_append _ _)
        (Message.names_append (Message.names_headed _ f) _)
      rw [hadd]
      exact hdone

theorem extend (hr : Handling streams key outside r₀ r inHand)
    (hh : (key, h) ∈ r.assemblies.entries) (f : Frame) (offset : Nat) :
    Handling streams key outside r₀ (r.extend f offset h).1 inHand := by
  unfold Resources.extend
  simp only
  split
  · exact hr.append hh _
  · exact (hr.abandon hh).reject f _

theorem acceptMiddle (hr : Handling streams f.assemblyKey outside r₀ r inHand) (offset : Nat) :
    Handling streams f.assemblyKey outside r₀ (r.acceptMiddle f offset) inHand := by
  unfold Resources.acceptMiddle
  split
  · rename_i h hfind
    exact hr.extend ((Assemblies.find?_eq_some_iff (Ledger.keys hr.sound)).1 hfind) f offset
  · exact hr.reject f _

theorem acceptLast (hr : Handling streams f.assemblyKey outside r₀ r inHand) (offset : Nat) :
    Handling streams f.assemblyKey outside r₀ (r.acceptLast f offset) inHand := by
  unfold Resources.acceptLast
  split
  · rename_i h hfind
    have hh := (Assemblies.find?_eq_some_iff (Ledger.keys hr.sound)).1 hfind
    have hext := hr.extend hh f offset
    split
    · rename_i s heq
      rw [heq] at hext
      -- a message that grows stays where it is
      have hsame : s.assemblies = r.assemblies := by
        unfold Resources.extend at heq
        simp only at heq
        split at heq <;> cases heq
        rfl
      exact hext.complete (hsame ▸ hh)
    · rename_i heq
      rw [heq] at hext
      exact hext
  · exact hr.reject f _

end Handling

/-- Reception of a frame touches the message that the frame belongs to, and nothing of anyone
else. -/
theorem receive_handling (hs : r.Sound streams outside) (f : Frame) :
    Handling streams f.assemblyKey outside r (r.receive streams f) [] := by
  have hr : Handling streams f.assemblyKey outside r r [] := Handling.idle hs _ r.outbox r.aliases
  unfold receive
  cases f.kind with
  | checkId number =>
    simp only
    split
    · exact Handling.idle hs _ _ r.aliases
    · exact hr
  | control kind =>
    cases kind with
    | aliasMapEnquiry =>
      simp only [receiveControl, receiveEnquiry]
      split
      · exact Handling.idle hs _ _ _
      · exact Handling.idle hs _ _ r.aliases
    | reserveId | aliasMapDefinition | aliasMapReset | errorReport _ =>
      exact Handling.idle hs _ _ _
  | unknownControl field => exact hr
  | message t =>
    exact receiveMessage_route (P := fun s => Handling streams f.assemblyKey outside r s [])
      streams t hr (hr.acceptOnly f) hr.acceptFirst hr.acceptMiddle hr.acceptLast

end Resources

end LayoutBus
