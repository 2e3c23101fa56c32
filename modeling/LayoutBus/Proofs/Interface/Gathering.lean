import LayoutBus.Proofs.Interface.Carriage
import LayoutBus.Proofs.Interface.Session

/-!
# Messages under assembly

What a frame does to the message that it belongs to, when there is room for it, and that nothing
else that happens touches the message, as long as it does not become too old.

* `Resources.Gathers` : a message is under assembly, with the data that have come so far.
* `Resources.Delivers` : a message is handed to the application.
* `Resources.acceptFirst_gathers`, `Resources.acceptMiddle_gathers`, `Resources.acceptLast_delivers`
  and `Resources.acceptOnly_delivers` : the four places of a frame.
* `Session.step_gathers` : a request that does not bring a frame of the message.
-/

namespace LayoutBus

/-- A message in a buffer of size `c`, with its payload and its age. -/
structure Message.Holds (m : Message) (c : SizeClass) (data : List UInt8) (age : Nat) : Prop where
  payload : m.payload = data
  capacity : m.capacity = c.capacity
  ticks : m.header.ticks = age

namespace Message

variable {m : Message} {c : SizeClass} {data more : List UInt8} {age : Nat}

theorem Holds.accepts_eq (h : m.Holds c data age) (hfit : data.length + more.length ≤ c.capacity) :
    m.accepts more = more.length := by
  have hstart := m.length_payload
  rw [h.payload] at hstart
  unfold accepts
  rw [h.capacity, ← hstart]
  omega

theorem Holds.append (h : m.Holds c data age) (more : List UInt8)
    (hfit : data.length + more.length ≤ c.capacity) :
    (m.append more).Holds c (data ++ more) age := by
  refine ⟨?_, (m.capacity_append more).trans h.capacity, h.ticks⟩
  rw [payload_append, h.accepts_eq hfit, List.take_length, h.payload]

/-- A buffer that is taken for a frame holds its data. -/
theorem holds_first (f : Frame) (hfit : data.length ≤ c.capacity) :
    (((MessageStore.fresh c).headed f).append data).Holds c data 0 := by
  have hempty : ((MessageStore.fresh c).headed f).Holds c [] 0 := ⟨rfl, List.length_replicate, rfl⟩
  exact hempty.append data (by rw [List.length_nil, Nat.zero_add]; exact hfit)

end Message

namespace Assemblies

variable {a b : Assemblies} {key : AssemblyKey} {h : Handle}

theorem mem_of_add (ha : a.add key h = .ok b) : (key, h) ∈ b.entries := by
  unfold add at ha
  split at ha
  · cases ha
  · split at ha
    · cases ha
      exact List.mem_append_right _ List.mem_cons_self
    · cases ha

theorem find?_release (hkeys : (a.entries.map Prod.fst).Nodup) (hn : a.handles.Nodup)
    (hh : (key, h) ∈ a.entries) : (a.release h).find? key = none := by
  rw [find?_eq_none_iff, List.mem_map]
  rintro ⟨⟨k, h'⟩, hmem, rfl⟩
  obtain ⟨hmem, hne⟩ := List.mem_filter.1 ((release_perm hn).subset hmem)
  obtain rfl : h' = h := congrArg Prod.snd (List.inj_on_of_nodup_map hkeys hmem hh rfl)
  simp at hne

end Assemblies

namespace Resources

/-- A message with the key is under assembly in a buffer of size `c`: the data that have come so
far, and the ticks since the first of them. -/
def Gathers (r : Resources) (key : AssemblyKey) (c : SizeClass) (data : List UInt8) (age : Nat) :
    Prop :=
  ∃ h m, (key, h) ∈ r.assemblies.entries ∧ r.messages.get? h = some m ∧ m.Holds c data age

/-- The step hands one message to the application, from the sender, to the receiver and of the type
that the key says, with this payload; nothing with the key is under assembly any more. -/
def Delivers (r s : Resources) (key : AssemblyKey) (payload : List UInt8) : Prop :=
  ∃ h m, s.ingress.toList = r.ingress.toList ++ [h] ∧ s.messages.get? h = some m ∧
    m.header.Names key ∧ m.header.inProcess = false ∧ m.payload = payload ∧
      s.assemblies.find? key = none

variable {streams : Bool} {r r₀ s : Resources} {outside : List Handle} {h : Handle}
  {c : SizeClass} {f : Frame} {key key' : AssemblyKey} {data : List UInt8} {age : Nat}

/-! ### Frames of the message -/

theorem allocateFor_eq (hfree : (r.messages.allocate c).isSome) :
    ∃ h ms, r.allocateFor f c = some (h, { r with messages := ms }) := by
  obtain ⟨⟨h, ms⟩, ha⟩ := Option.isSome_iff_exists.1 hfree
  refine ⟨h, ms.modify h fun m => m.headed f, ?_⟩
  unfold allocateFor
  rw [ha]

/-- The first frame of a message opens it. -/
theorem acceptFirst_gathers (offset : Nat) (hs : r.Sound streams outside)
    (hnone : r.assemblies.find? f.assemblyKey = none) (hfree : (r.messages.allocate c).isSome)
    (hfit : (f.dataFrom offset).length ≤ c.capacity) :
    (r.acceptFirst f offset c).Gathers f.assemblyKey c (f.dataFrom offset) 0 ∧
      (r.acceptFirst f offset c).ingress = r.ingress := by
  obtain ⟨h, ms, ha⟩ := @allocateFor_eq r c f hfree
  obtain ⟨hs', -, hget⟩ := (Handling.idle hs f.assemblyKey r.outbox r.aliases).allocateFor ha
  obtain ⟨a, hadd, -⟩ := hs'.enlist (g := fun m => m.append (f.dataFrom offset)) hnone hget
    (Message.alike_append _ _) (Message.names_append (Message.names_headed _ f) _)
  have heq : r.acceptFirst f offset c =
      { r with
        assemblies := a
        messages := ms.modify h fun m => (m.append (f.dataFrom offset)).withInProcess true } := by
    unfold acceptFirst
    rw [hnone]
    simp only [ha]
    rw [show r.assemblies.add f.assemblyKey h = .ok a from hadd]
  rw [heq]
  refine ⟨⟨h, (((MessageStore.fresh c).headed f).append (f.dataFrom offset)).withInProcess true,
    Assemblies.mem_of_add hadd, ?_, ?_⟩, rfl⟩
  · show (ms.modify h _).get? h = _
    rw [MessageStore.get?_modify, if_pos rfl, show ms.get? h = _ from hget]
    rfl
  · have hholds := Message.holds_first f hfit
    exact ⟨hholds.payload, hholds.capacity, hholds.ticks⟩

/-- A message under assembly takes more data. -/
theorem extend_gathers {m : Message} {offset : Nat} (hm : r.messages.get? h = some m)
    (hh : m.Holds c data age) (hfit : data.length + (f.dataFrom offset).length ≤ c.capacity) :
    r.extend f offset h =
      ({ r with messages := r.messages.modify h fun m => m.append (f.dataFrom offset) }, true) := by
  have haccepts : r.accepts h (f.dataFrom offset) = (f.dataFrom offset).length := by
    unfold accepts
    rw [hm]
    exact hh.accepts_eq hfit
  unfold extend
  simp only [haccepts, if_true]

theorem get?_append {m : Message} (hm : r.messages.get? h = some m) :
    (r.messages.modify h fun m => m.append data).get? h = some (m.append data) := by
  rw [MessageStore.get?_modify, if_pos rfl, hm]
  rfl

/-- A frame in the middle adds its data. -/
theorem acceptMiddle_gathers (offset : Nat) (hs : r.Sound streams outside)
    (hg : r.Gathers f.assemblyKey c data age)
    (hfit : data.length + (f.dataFrom offset).length ≤ c.capacity) :
    (r.acceptMiddle f offset).Gathers f.assemblyKey c (data ++ f.dataFrom offset) age ∧
      (r.acceptMiddle f offset).ingress = r.ingress := by
  obtain ⟨h, m, hmem, hm, hh⟩ := hg
  have hfind := (Assemblies.find?_eq_some_iff (Ledger.keys hs)).2 hmem
  have heq : r.acceptMiddle f offset =
      { r with messages := r.messages.modify h fun m => m.append (f.dataFrom offset) } := by
    unfold acceptMiddle
    rw [hfind]
    simp only [extend_gathers hm hh hfit]
  rw [heq]
  exact ⟨⟨h, m.append (f.dataFrom offset), hmem, get?_append hm, hh.append _ hfit⟩, rfl⟩

/-- The last frame adds its data and hands the message to the application. -/
theorem acceptLast_delivers (offset : Nat) (hs : r.Sound streams outside)
    (hg : r.Gathers f.assemblyKey c data age)
    (hfit : data.length + (f.dataFrom offset).length ≤ c.capacity) :
    r.Delivers (r.acceptLast f offset) f.assemblyKey (data ++ f.dataFrom offset) := by
  obtain ⟨h, m, hmem, hm, hh⟩ := hg
  have hfind := (Assemblies.find?_eq_some_iff (Ledger.keys hs)).2 hmem
  -- with its last data the message is still under assembly; then it is delisted and delivered
  have hgrown : Sound streams
      { r with messages := r.messages.modify h fun m => m.append (f.dataFrom offset) } outside :=
    ((Handling.idle hs f.assemblyKey r.outbox r.aliases).append hmem (f.dataFrom offset)).sound
  obtain ⟨q, hq, hdeliver⟩ := (hgrown.delist (Assemblies.mem_handles_iff.2 ⟨_, hmem⟩)).deliver_eq
  unfold acceptLast
  rw [hfind]
  simp only [extend_gathers hm hh hfit]
  unfold complete
  rw [hdeliver]
  refine ⟨h, (m.append (f.dataFrom offset)).withInProcess false, hq, ?_, ?_, rfl, ?_, ?_⟩
  · show ((r.messages.modify h _).modify h _).get? h = _
    rw [MessageStore.get?_modify, if_pos rfl, get?_append hm]
    rfl
  · have hnames := Message.names_append (Ledger.named hs _ hmem m hm) (f.dataFrom offset)
    exact ⟨hnames.source, hnames.dest, hnames.mti⟩
  · exact (hh.append _ hfit).payload
  · exact Assemblies.find?_release (Ledger.keys hs) (Ledger.handles_nodup hs) hmem

/-- The only frame of a message is handed to the application at once. -/
theorem acceptOnly_delivers (offset : Nat) (hs : r.Sound streams outside)
    (hnone : r.assemblies.find? f.assemblyKey = none) (hfree : (r.messages.allocate c).isSome)
    (hfit : (f.dataFrom offset).length ≤ c.capacity) :
    r.Delivers (r.acceptOnly f offset c) f.assemblyKey (f.dataFrom offset) := by
  obtain ⟨h, ms, ha⟩ := @allocateFor_eq r c f hfree
  obtain ⟨hs', -, hget⟩ := (Handling.idle hs f.assemblyKey r.outbox r.aliases).allocateFor ha
  obtain ⟨q, hq, hdeliver⟩ := (hs'.edit (g := fun m => m.append (f.dataFrom offset))
    List.mem_cons_self fun m _ => m.alike_append _).sound.deliver_eq
  unfold acceptOnly
  rw [ha]
  simp only
  rw [hdeliver]
  refine ⟨h, ((MessageStore.fresh c).headed f).append (f.dataFrom offset), hq, get?_append hget,
    Message.names_append (Message.names_headed _ f) _, rfl, ?_, hnone⟩
  exact (Message.holds_first f hfit).payload

/-! ### Whatever else happens -/

theorem Gathers.handling (hg : r₀.Gathers key c data age)
    (hr : Handling streams key' outside r₀ r []) (hne : key ≠ key') :
    r.Gathers key c data age := by
  obtain ⟨h, m, hmem, hm, hh⟩ := hg
  exact ⟨h, m, (hr.entries _ hne).2 hmem, (hr.messages h (.inr ⟨key, hne, hmem⟩)).trans hm, hh⟩

theorem Handling.find?_eq_none (hr : Handling streams key' outside r₀ r []) (hne : key ≠ key')
    (hnone : r₀.assemblies.find? key = none) : r.assemblies.find? key = none := by
  rw [Assemblies.find?_eq_none_iff, List.mem_map] at hnone ⊢
  rintro ⟨⟨k, h⟩, hmem, rfl⟩
  exact hnone ⟨(k, h), (hr.entries _ hne).1 hmem, rfl⟩

/-- A message that is not too old stays under assembly for another tick. -/
theorem Gathers.aged (hg : r.Gathers key c data age) (ha : Aged streams outside r s)
    (hage : age + 1 < Limits.assemblyTimeout) : s.Gathers key c data (age + 1) := by
  obtain ⟨h, m, hmem, hm, hh⟩ := hg
  have hticks : m.older.header.ticks = age + 1 := by
    show min 255 (m.header.ticks + 1) = age + 1
    rw [hh.ticks]
    -- far from where the count of ticks stops
    unfold Limits.assemblyTimeout at hage
    omega
  have hyoung : ¬ expires r.messages h = true := by
    unfold expires
    rw [hm]
    simp only [Option.any_some, hticks, decide_eq_true_eq]
    omega
  have hmem' : (key, h) ∈ s.assemblies.entries := (ha.entries _).2 ⟨hmem, hyoung⟩
  refine ⟨h, m.older, hmem', ?_, hh.payload, hh.capacity, hticks⟩
  rw [ha.older _ hmem', hm]
  rfl

theorem Aged.find?_eq_none (ha : Aged streams outside r s)
    (hnone : r.assemblies.find? key = none) : s.assemblies.find? key = none := by
  rw [Assemblies.find?_eq_none_iff, List.mem_map] at hnone ⊢
  rintro ⟨⟨k, h⟩, hmem, rfl⟩
  exact hnone ⟨(k, h), ((ha.entries _).1 hmem).1, rfl⟩

end Resources

/-- The frame of the message with the key that the request brings. -/
def Request.frameOf (key : AssemblyKey) : Request → Option Frame
  | .receive f => if f.assemblyKey = key then some f else none
  | _ => none

theorem Request.eq_of_frameOf {key : AssemblyKey} {req : Request} {f : Frame}
    (h : req.frameOf key = some f) : req = .receive f ∧ f.assemblyKey = key := by
  unfold frameOf at h
  split at h
  · split at h
    · cases h
      exact ⟨rfl, by assumption⟩
    · cases h
  · cases h

theorem Request.ne_of_frameOf {key : AssemblyKey} {f : Frame}
    (h : (Request.receive f).frameOf key = none) : key ≠ f.assemblyKey := by
  rintro rfl
  simp [frameOf] at h

namespace Session

variable {streams : Bool} {σ : Session} {req : Request} {key : AssemblyKey} {c : SizeClass}
  {data : List UInt8} {age : Nat}

/-- A request that brings no frame of a message under assembly leaves it there, unless it becomes
too old. -/
theorem step_gathers (hs : σ.Sound streams) (hp : σ.Permits req) (hreq : req.frameOf key = none)
    (hage : age + req.ticks < Limits.assemblyTimeout)
    (hg : σ.interface.resources.Gathers key c data age) :
    (σ.step streams req).interface.resources.Gathers key c data (age + req.ticks) := by
  by_cases hrec : ∃ f, req = .receive f
  · obtain ⟨f, rfl⟩ := hrec
    exact hg.handling (step_receive hs f) (Request.ne_of_frameOf hreq)
  · by_cases htick : req = .tick
    · subst htick
      exact hg.aged (step_tick hs) hage
    · have hw := step_works hs hp (fun f heq => hrec ⟨f, heq⟩) htick
      have hzero : req.ticks = 0 := by
        unfold Request.ticks
        split
        · exact absurd rfl htick
        · rfl
      obtain ⟨h, m, hmem, hm, hh⟩ := hg
      rw [hzero]
      exact ⟨h, m, hw.assemblies ▸ hmem,
        (hw.listed h (Assemblies.mem_handles_iff.2 ⟨key, hmem⟩)).trans hm, hh⟩

/-- A request that brings no frame of a message does not put it under assembly. -/
theorem step_find?_eq_none (hs : σ.Sound streams) (hp : σ.Permits req)
    (hreq : req.frameOf key = none)
    (hnone : σ.interface.resources.assemblies.find? key = none) :
    (σ.step streams req).interface.resources.assemblies.find? key = none := by
  by_cases hrec : ∃ f, req = .receive f
  · obtain ⟨f, rfl⟩ := hrec
    exact (step_receive hs f).find?_eq_none (Request.ne_of_frameOf hreq) hnone
  · by_cases htick : req = .tick
    · subst htick
      exact (step_tick hs).find?_eq_none hnone
    · rw [(step_works hs hp (fun f heq => hrec ⟨f, heq⟩) htick).assemblies]
      exact hnone

end Session

end LayoutBus
