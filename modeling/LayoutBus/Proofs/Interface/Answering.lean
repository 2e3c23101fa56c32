import LayoutBus.Proofs.Interface.Genuine
import LayoutBus.Proofs.Interface.Transit

/-!
# Answers to control frames

The answers to a control frame follow from the frame and the table of aliases alone, and as many
of them are put into the outbox as there are free frame buffers.  Nothing else happens, but that
the table marks an alias that another node uses.

* `AliasTable.due` : the answers that the alias protocol asks for, read off the identifier.
* `Outbox.Exact.postAll_appends` : frames are put into the outbox as long as there are buffers.
* `Interface.replies` : **the answers.**
-/

namespace LayoutBus

/-! ### Free buffers -/

namespace Pool

variable {α : Type} {p q : Pool α} {a : α} {i : Nat}

/-- How many slots are free. -/
def vacant (p : Pool α) : Nat := p.slots.countP fun s => !s.allocated

theorem vacant_eq_zero_of_allocate (h : p.allocate a = none) : p.vacant = 0 := by
  unfold allocate at h
  split at h
  · cases h
  · rename_i hk
    refine List.countP_eq_zero.2 fun x hx => ?_
    simp [List.findIdx?_eq_none_iff.1 hk x hx]

theorem vacant_of_allocate (h : p.allocate a = some (i, q)) : p.vacant = q.vacant + 1 := by
  unfold allocate at h
  split at h
  · rename_i k hk
    cases h
    obtain ⟨hlt, hfree, -⟩ := List.findIdx?_eq_some_iff_getElem.1 hk
    have hpos : 0 < p.vacant := List.countP_pos_iff.2 ⟨_, List.getElem_mem hlt, hfree⟩
    unfold vacant at hpos ⊢
    rw [List.countP_set hlt, if_pos hfree, if_neg (by simp)]
    omega
  · cases h

end Pool

namespace Outbox

variable {o p q : Outbox} {taken : List FrameHandle} {fs gs : List Frame}

/-- The outbox with these frames at the back of the queue, in buffers that were free. -/
structure Appends (o p : Outbox) (fs : List Frame) : Prop where
  queue : ∃ hs, p.queue.toList = o.queue.toList ++ hs ∧ hs.map p.frame? = fs.map some
  kept : ∀ h f, o.frame? h = some f → p.frame? h = some f

theorem Appends.refl (o : Outbox) : o.Appends o [] :=
  ⟨⟨[], (List.append_nil _).symm, rfl⟩, fun _ _ h => h⟩

theorem Appends.trans (hop : o.Appends p fs) (hpq : p.Appends q gs) : o.Appends q (fs ++ gs) := by
  obtain ⟨hs, hqueue, hframes⟩ := hop.queue
  obtain ⟨ks, hqueue', hframes'⟩ := hpq.queue
  refine ⟨⟨hs ++ ks, ?_, ?_⟩, fun h f hf => hpq.kept h f (hop.kept h f hf)⟩
  · rw [hqueue', hqueue, List.append_assoc]
  · rw [List.map_append, List.map_append, hframes', ← hframes]
    congr 1
    refine List.map_congr_left fun h hh => ?_
    -- the frames put in first are still there
    have hmem : p.frame? h ∈ fs.map some := hframes ▸ List.mem_map_of_mem hh
    obtain ⟨f, -, hf⟩ := List.mem_map.1 hmem
    rw [← hf, hpq.kept h f hf.symm]

/-- A frame is put into the outbox if and only if there is a free buffer. -/
theorem Exact.post_appends (he : o.Exact taken) (f : Frame) :
    o.Appends (o.post f).1 ([f].take o.buffers.vacant) ∧
      (o.post f).1.buffers.vacant = o.buffers.vacant - 1 := by
  unfold Outbox.post
  cases ha : o.allocate f with
  | none =>
    have hzero : o.buffers.vacant = 0 := by
      unfold Outbox.allocate at ha
      split at ha
      · cases ha
      · rename_i hb
        exact Pool.vacant_eq_zero_of_allocate hb
    simp only [hzero]
    exact ⟨.refl o, trivial⟩
  | some x =>
    obtain ⟨h, b⟩ := x
    have hvacant : o.buffers.vacant = b.buffers.vacant + 1 := by
      unfold Outbox.allocate at ha
      split at ha
      · rename_i hb
        cases ha
        exact Pool.vacant_of_allocate hb
      · cases ha
    obtain ⟨hqueue, -, hget⟩ := allocate_spec ha
    obtain ⟨q, hpush, -, hgains⟩ := he.enqueue ha
    simp only [hpush]
    rw [hvacant]
    refine ⟨⟨⟨[h], hqueue ▸ Queue.toList_push hpush, ?_⟩, hgains.kept⟩, rfl⟩
    have hself : b.frame? h = some f := (hget h).trans (if_pos rfl)
    rw [List.take_of_length_le (by simp)]
    exact congrArg (fun x => [x]) hself

/-- Frames are put into the outbox as long as there are free buffers. -/
theorem Exact.postAll_appends (he : o.Exact taken) (fs : List Frame) :
    o.Appends (o.postAll fs) (fs.take o.buffers.vacant) := by
  induction fs generalizing o with
  | nil =>
    rw [List.take_nil]
    exact .refl o
  | cons f fs ih =>
    obtain ⟨happends, hvacant⟩ := he.post_appends f
    have hall := happends.trans (ih (he.post f).1)
    rw [hvacant] at hall
    cases hv : o.buffers.vacant with
    | zero => rwa [hv] at hall
    | succ n =>
      rw [hv, List.take_of_length_le (by simp)] at hall
      exact hall

end Outbox

/-! ### What the protocol asks for -/

/-- The fields of control frames in which a node uses its alias. -/
def Frame.claimFields : List Nat := [0x700, 0x701, 0x702, 0x703, 0x710, 0x711, 0x712, 0x713]

/-- A node uses its alias in the control frame. -/
def Frame.Claims (f : Frame) : Prop := f.typeCode = 0 ∧ f.field ∈ Frame.claimFields

instance (f : Frame) : Decidable f.Claims := inferInstanceAs (Decidable (_ ∧ _))

namespace AliasTable

/-- The alias is one of ours. -/
def Maps (t : AliasTable) (a : Nat) : Prop := ∃ m ∈ t.mappings, m.aliasId = a

instance (t : AliasTable) (a : Nat) : Decidable (t.Maps a) :=
  inferInstanceAs (Decidable (∃ m ∈ t.mappings, m.aliasId = a))

/-- The answers that the alias protocol asks for: the alias that is checked is reserved; an alias
that another node uses is given up, if it is permitted; and a node that does not use an alias of
ours and enquires is told of the permitted mappings it asks for. -/
def due (t : AliasTable) (f : Frame) : List Frame :=
  if f.typeCode ≠ 0 then
    if 4 ≤ f.typeCode ∧ t.Maps f.source then [.reserveId f.source] else []
  else if f.Claims then
    if t.Maps f.source then
      (t.mappings.filter fun m => m.aliasId = f.source ∧ m.permitted).map fun m =>
        .aliasMapReset m.aliasId m.nodeId
    else if f.field = 0x702 then
      (t.mappings.filter fun m => m.permitted ∧
        (f.payload.length = 0 ∨
          f.payload.length = 6 ∧ m.nodeId = BigEndian.decode f.payload)).map fun m =>
        .aliasMapDefinition m.aliasId m.nodeId
    else []
  else []

variable {t : AliasTable} {a n : Nat} {f : Frame}

theorem toList_find? (h : t.Proper) (a : Nat) :
    (t.find? a).toList = t.mappings.filter fun m => m.aliasId = a := by
  unfold find?
  split
  · rename_i ha
    refine (List.filter_eq_nil_iff.2 fun m hm => ?_).symm
    have hpos := (h.valid m hm).1
    simp only [decide_eq_true_eq]
    omega
  · exact toList_find?_key h.aliases

theorem toList_findNode? (h : t.Genuine) (n : Nat) :
    (t.findNode? n).toList = t.mappings.filter fun m => m.nodeId = n := by
  unfold findNode?
  split
  · rename_i hn
    refine (List.filter_eq_nil_iff.2 fun m hm => ?_).symm
    have hpos := (h.nodeIds m hm).1
    simp only [decide_eq_true_eq]
    omega
  · exact toList_find?_key h.nodes

theorem isSome_find?_iff (h : t.Proper) : (t.find? a).isSome ↔ t.Maps a := by
  rw [Option.isSome_iff_exists]
  exact exists_congr fun m => h.find?_eq_some_iff

theorem conflict_eq (h : t.Proper) (a : Nat) :
    t.conflict a = (t.mappings.filter fun m => m.aliasId = a ∧ m.permitted).map fun m =>
      .aliasMapReset m.aliasId m.nodeId := by
  have hfilter : t.mappings.filter (fun m => m.aliasId = a ∧ m.permitted) =
      (t.find? a).toList.filter Mapping.permitted := by
    rw [toList_find? h, List.filter_filter]
    exact List.filter_congr fun m _ => by simp [and_comm]
  rw [hfilter]
  unfold conflict
  cases hfind : t.find? a with
  | none => rfl
  | some m =>
    obtain ⟨-, rfl⟩ := h.find?_eq_some_iff.1 hfind
    by_cases hp : m.permitted <;> simp [hp]

theorem conflict_of_not_maps (h : t.Proper) (hm : ¬ t.Maps a) : t.conflict a = [] := by
  rw [conflict_eq h]
  refine List.map_eq_nil_iff.2 (List.filter_eq_nil_iff.2 fun m hmem hd => ?_)
  exact hm ⟨m, hmem, (of_decide_eq_true hd).1⟩

theorem hasDuplicate_noteConflict (h : t.Proper) (a : Nat) :
    (t.noteConflict a).hasDuplicate = true ↔ t.hasDuplicate = true ∨ t.Maps a := by
  rw [← isSome_find?_iff h]
  unfold noteConflict markDuplicate
  cases t.find? a with
  | none => simp
  | some m => simp

theorem definitions_eq (h : t.Genuine) (p : List UInt8) :
    t.definitions p = (t.mappings.filter fun m => m.permitted ∧
      (p.length = 0 ∨ p.length = 6 ∧ m.nodeId = BigEndian.decode p)).map fun m =>
        .aliasMapDefinition m.aliasId m.nodeId := by
  unfold definitions enquired
  congr 1
  by_cases h₆ : p.length = 6
  · rw [if_pos h₆, toList_findNode? h, List.filter_filter]
    exact List.filter_congr fun m _ => by simp [h₆]
  · rw [if_neg h₆]
    by_cases h₀ : p.length = 0
    · rw [if_pos h₀]
      exact List.filter_congr fun m _ => by simp [h₀]
    · rw [if_neg h₀]
      exact (List.filter_eq_nil_iff.2 fun m _ => by simp [h₀, h₆]).symm

end AliasTable

/-! ### Control frames by their fields -/

namespace Frame

variable {f : Frame}

theorem kind_of_checkId (hf : f.isMessage = false) (ht : f.typeCode ≠ 0) :
    f.kind = .checkId f.typeCode := by
  unfold kind
  rw [if_neg (by simp [hf]), if_neg ht]

/-- A control frame in which a node uses its alias. -/
theorem kind_of_claims (hf : f.isMessage = false) (hc : f.Claims) :
    ∃ k, f.kind = .control k ∧ (k = .aliasMapEnquiry ↔ f.field = 0x702) := by
  obtain ⟨ht, hmem⟩ := hc
  unfold kind
  rw [if_neg (by simp [hf]), if_pos ht]
  simp only [claimFields, List.mem_cons, List.not_mem_nil, or_false] at hmem
  rcases hmem with h | h | h | h | h | h | h | h <;> rw [h] <;> exact ⟨_, rfl, by simp⟩

/-- Any other control frame. -/
theorem kind_of_not_claims (hf : f.isMessage = false) (ht : f.typeCode = 0) (hc : ¬ f.Claims) :
    f.kind = .unknownControl f.field := by
  have hnot : f.field ∉ claimFields := fun hmem => hc ⟨ht, hmem⟩
  have herror : ControlKind.ofCode f.field = .error (.unknownControl f.field) := by
    simp only [claimFields, List.mem_cons, List.not_mem_nil, or_false, not_or] at hnot
    unfold ControlKind.ofCode
    split <;> simp_all
  unfold kind
  rw [if_neg (by simp [hf]), if_pos ht, herror]

end Frame

namespace Resources

variable {r : Resources} {f : Frame}

/-- The answers are those that the protocol asks for. -/
theorem answers_eq_due (h : r.aliases.Genuine) (hf : f.isMessage = false) :
    r.answers f = r.aliases.due f := by
  have hmaps : (r.aliases.find? f.source).isSome ↔ r.aliases.Maps f.source :=
    AliasTable.isSome_find?_iff h.toProper
  unfold answers AliasTable.due
  by_cases ht : f.typeCode = 0
  · rw [if_neg (not_not.2 ht)]
    by_cases hc : f.Claims
    · obtain ⟨k, hk, henquiry⟩ := Frame.kind_of_claims hf hc
      rw [if_pos hc, hk, ← AliasTable.conflict_eq h.toProper, ← AliasTable.definitions_eq h]
      by_cases hm : r.aliases.Maps f.source
      · have hsome := hmaps.2 hm
        cases k <;> simp [hm, hsome]
      · have hnone := (not_congr hmaps).2 hm
        have hconflict := AliasTable.conflict_of_not_maps h.toProper hm
        cases k with
        | aliasMapEnquiry => simp [hm, hnone, henquiry.1 rfl]
        | _ =>
          have hne : f.field ≠ 0x702 := fun heq => by cases henquiry.2 heq
          simp [hm, hne, hconflict]
    · rw [if_neg hc, Frame.kind_of_not_claims hf ht hc]
  · have hlt : f.typeCode < 8 := Nat.mod_lt _ (by decide)
    rw [if_pos ht, Frame.kind_of_checkId hf ht]
    simp only [AliasTable.objection, hmaps]
    by_cases h₄ : 4 ≤ f.typeCode
    · simp [h₄, Nat.le_of_lt_succ hlt]
    · simp [h₄]

/-- A frame without message data leaves everything alone but the frames to send and the aliases. -/
theorem receive_of_not_message (streams : Bool) (r : Resources) (hf : f.isMessage = false) :
    ∃ outbox aliases, r.receive streams f = { r with outbox, aliases } := by
  unfold receive
  cases hk : f.kind with
  | checkId number =>
    simp only
    split
    · exact ⟨_, r.aliases, rfl⟩
    · exact ⟨r.outbox, r.aliases, rfl⟩
  | control kind =>
    cases kind with
    | aliasMapEnquiry =>
      simp only [receiveControl, receiveEnquiry]
      split
      · exact ⟨_, _, rfl⟩
      · exact ⟨_, r.aliases, rfl⟩
    | reserveId | aliasMapDefinition | aliasMapReset | errorReport _ => exact ⟨_, _, rfl⟩
  | unknownControl field => exact ⟨r.outbox, r.aliases, rfl⟩
  | message t =>
    unfold Frame.kind at hk
    rw [if_neg (by simp [hf])] at hk
    split at hk
    · split at hk <;> cases hk
    · cases hk

/-- The table notes a conflict if a node uses its alias in the frame. -/
theorem aliases_of_not_message (streams : Bool) (r : Resources) (hf : f.isMessage = false) :
    (r.receive streams f).aliases =
      if f.Claims then r.aliases.noteConflict f.source else r.aliases := by
  rw [aliases_receive]
  by_cases ht : f.typeCode = 0
  · by_cases hc : f.Claims
    · obtain ⟨k, hk, -⟩ := Frame.kind_of_claims hf hc
      rw [if_pos hc, hk]
    · rw [if_neg hc, Frame.kind_of_not_claims hf ht hc]
  · rw [if_neg fun hc : f.Claims => ht hc.1, Frame.kind_of_checkId hf ht]

/-- What becomes of a control frame that comes in: as many of the answers that are due as there are
free buffers wait at the back of the outbox, our mapping of an alias that another node uses is
marked, and nothing else changes. -/
structure Replies (r s : Resources) (f : Frame) : Prop where
  frames : r.outbox.Appends s.outbox ((r.aliases.due f).take r.outbox.buffers.vacant)
  mappings : s.aliases.mappings = r.aliases.mappings.map fun m =>
    if f.Claims ∧ m.aliasId = f.source then { m with duplicate := true } else m
  flag : s.aliases.hasDuplicate = true ↔
    r.aliases.hasDuplicate = true ∨ f.Claims ∧ r.aliases.Maps f.source
  rest : s = { r with outbox := s.outbox, aliases := s.aliases }

theorem receive_replies (streams : Bool) {taken : List FrameHandle} (ho : r.outbox.Exact taken)
    (h : r.aliases.Genuine) (hf : f.isMessage = false) : r.Replies (r.receive streams f) f where
  frames := by
    rw [outbox_receive, answers_eq_due h hf]
    exact ho.postAll_appends _
  mappings := by
    rw [aliases_of_not_message streams r hf]
    split
    · rename_i hc
      refine (AliasTable.markDuplicate_mappings h.toProper).trans ?_
      exact List.map_congr_left fun m _ => by simp [hc]
    · rename_i hc
      simp [hc]
  flag := by
    rw [aliases_of_not_message streams r hf]
    split
    · rename_i hc
      rw [AliasTable.hasDuplicate_noteConflict h.toProper]
      simp [hc]
    · rename_i hc
      simp [hc]
  rest := by
    obtain ⟨outbox, aliases, heq⟩ := receive_of_not_message streams r hf
    rw [heq]

end Resources

namespace Interface

/-- **The answers.** Whatever has happened to an interface, a control frame that comes in is
answered as the alias protocol asks for, as far as there are free frame buffers. -/
theorem replies (streams : Bool) (reqs : List Request) (f : Frame) (hf : f.isMessage = false) :
    ((empty streams).after streams reqs).resources.Replies
      (((empty streams).after streams reqs).resources.receive streams f) f :=
  Resources.receive_replies streams
    (after_exact streams (s := empty streams) Outbox.exact_empty reqs).1
    (after_genuine (s := empty streams) AliasTable.genuine_empty reqs) hf

/-- A node logs in, and nine times another node asks for its alias before the driver takes a frame. -/
def enquiries : List Request :=
  [.register 1 (.ofSupport 0)] ++ List.replicate 20 (.run true) ++ List.replicate 3 .tick ++
    List.replicate 12 (.run true) ++
    List.replicate 9 (.receive (.aliasMapEnquiry 0xABC (some 1)))

/-- Then an enquiry for all aliases is answered into the last free buffer. -/
theorem replies_enquiries :
    (Frame.aliasMapEnquiry 0xABC none).isMessage = false ∧
      ((empty false).after false enquiries).resources.Replies
        (((empty false).after false enquiries).resources.receive false
          (.aliasMapEnquiry 0xABC none)) (.aliasMapEnquiry 0xABC none) ∧
      ((empty false).after false enquiries).resources.aliases.due (.aliasMapEnquiry 0xABC none) =
        [.aliasMapDefinition 1 1] ∧
      ((empty false).after false enquiries).resources.outbox.buffers.vacant = 1 := by
  have hf : (Frame.aliasMapEnquiry 0xABC none).isMessage = false := by decide +kernel
  exact ⟨hf, replies false enquiries _ hf, by decide +kernel, by decide +kernel⟩

end Interface

end LayoutBus
