import LayoutBus.Proofs.Interface.Extent
import Mathlib.Data.List.Basic

/-!
# Frames on their way out

Every frame buffer in use waits in the queue of the outbox or has been taken from it for the driver.
So when no frame waits and none has been taken, all buffers are free, and the next frame of a
message finds room.

* `Outbox.Covered` : no frame buffer is lost.
* `Interface.perform_covered` : no request loses one.
* `Outbox.Covered.offer_isSome` : an idle outbox has room.
-/

namespace LayoutBus

namespace Outbox

/-- The buffers in use are those of the frames that wait and of the frames that have been taken. -/
structure Covered (o : Outbox) (taken : List FrameHandle) : Prop where
  depth : o.buffers.capacity = Limits.frameDepth
  covered : ∀ h, (o.frame? h).isSome → h ∈ o.queue.toList ++ taken

variable {o p : Outbox} {taken : List FrameHandle} {h : FrameHandle} {f : Frame}

theorem covered_empty : empty.Covered [] where
  depth := rfl
  covered h hh := by simp [empty, frame?] at hh

theorem frame?_free (k : FrameHandle) :
    (o.free h).frame? k = if k = h then none else o.frame? k := by
  unfold free frame?
  simp only [Pool.get?_free]
  by_cases hk : k = h
  · simp [hk]
  · have hne : k.index ≠ h.index := fun heq => hk (by cases k; cases h; cases heq; rfl)
    simp [hk, hne]

theorem frame?_pop (hp : o.pop = some (h, p)) (k : FrameHandle) : p.frame? k = o.frame? k := by
  unfold pop at hp
  split at hp
  · cases hp
    rfl
  · cases hp

theorem allocate_spec (ha : o.allocate f = some (h, p)) :
    p.queue = o.queue ∧ p.buffers.capacity = o.buffers.capacity ∧
      ∀ k, p.frame? k = if k = h then some f else o.frame? k := by
  unfold allocate at ha
  split at ha
  · rename_i i buffers hb
    cases ha
    obtain ⟨-, -, hget⟩ := Pool.get?_of_allocate hb
    refine ⟨rfl, Pool.capacity_of_allocate hb, fun k => ?_⟩
    obtain ⟨j⟩ := k
    unfold frame?
    simp only [hget, FrameHandle.mk.injEq]
  · cases ha

/-- A free buffer is taken. -/
theorem frame?_eq_none_of_allocate (ha : o.allocate f = some (h, p)) : o.frame? h = none := by
  unfold allocate at ha
  split at ha
  · rename_i hb
    cases ha
    exact (Pool.get?_of_allocate hb).2.1
  · cases ha

theorem frame?_of_allocate (ha : o.allocate f = some (h, p)) {k : FrameHandle} {g : Frame}
    (hg : p.frame? k = some g) : g = f ∨ o.frame? k = some g := by
  rw [(allocate_spec ha).2.2] at hg
  split at hg
  · exact .inl (Option.some.inj hg).symm
  · exact .inr hg

theorem frame?_of_offer (ho : o.offer f = some p) {k : FrameHandle} {g : Frame}
    (hg : p.frame? k = some g) : g = f ∨ o.frame? k = some g := by
  unfold offer at ho
  split at ho
  · cases ho
  · split at ho
    · cases ho
    · rename_i ha
      split at ho
      · cases ho
        exact frame?_of_allocate ha hg
      · cases ho

theorem frame?_of_post {k : FrameHandle} {g : Frame} (hg : (o.post f).1.frame? k = some g) :
    g = f ∨ o.frame? k = some g := by
  unfold post at hg
  split at hg
  · exact .inr hg
  · rename_i ha
    split at hg
    · exact frame?_of_allocate ha hg
    · rw [frame?_free] at hg
      split at hg
      · cases hg
      · exact frame?_of_allocate ha hg

theorem frame?_of_postAll {fs : List Frame} {k : FrameHandle} {g : Frame}
    (hg : (o.postAll fs).frame? k = some g) : g ∈ fs ∨ o.frame? k = some g := by
  induction fs generalizing o with
  | nil => exact .inr hg
  | cons f fs ih =>
    rcases ih (o := (o.post f).1) hg with hmem | hold
    · exact .inl (List.mem_cons_of_mem _ hmem)
    · rcases frame?_of_post hold with rfl | hold
      · exact .inl List.mem_cons_self
      · exact .inr hold

namespace Covered

theorem free (hc : o.Covered (h :: taken)) : (o.free h).Covered taken where
  depth := (Pool.capacity_free _ _).trans hc.depth
  covered k hk := by
    rw [frame?_free] at hk
    split at hk
    · cases hk
    · rename_i hne
      have hmem := hc.covered k hk
      simp only [List.mem_append, List.mem_cons, hne, false_or] at hmem
      exact List.mem_append.2 hmem

theorem pop (hc : o.Covered taken) (hp : o.pop = some (h, p)) : p.Covered (h :: taken) := by
  unfold Outbox.pop at hp
  split at hp
  · rename_i k queue hq
    cases hp
    refine ⟨hc.depth, fun k hk => ?_⟩
    have hmem := hc.covered k hk
    rw [Queue.pop_eq_some_iff.1 hq] at hmem
    exact (List.perm_middle.symm.mem_iff).1 hmem
  · cases hp

theorem allocate (hc : o.Covered taken) (ha : o.allocate f = some (h, p)) :
    p.Covered (h :: taken) := by
  obtain ⟨hq, hcap, hget⟩ := allocate_spec ha
  refine ⟨hcap.trans hc.depth, fun k hk => ?_⟩
  rw [hget] at hk
  rw [hq, List.mem_append, List.mem_cons]
  split at hk
  · rename_i heq
    exact .inr (.inl heq)
  · exact (List.mem_append.1 (hc.covered k hk)).imp_right .inr

theorem push {q : Queue FrameHandle Limits.frameDepth} (hc : o.Covered (h :: taken))
    (hq : o.queue.push h = some q) : Covered { o with queue := q } taken where
  depth := hc.depth
  covered k hk := by
    show k ∈ q.toList ++ taken
    rw [Queue.toList_push hq, List.append_assoc]
    exact hc.covered k hk

theorem post (hc : o.Covered taken) (f : Frame) : (o.post f).1.Covered taken := by
  unfold Outbox.post
  split
  · exact hc
  · rename_i ha
    have halloc := hc.allocate ha
    split
    · rename_i hq
      exact halloc.push hq
    · exact halloc.free

theorem postAll (hc : o.Covered taken) (fs : List Frame) : (o.postAll fs).Covered taken := by
  unfold Outbox.postAll
  induction fs generalizing o with
  | nil => exact hc
  | cons f fs ih => exact ih (hc.post f)

theorem offer (hc : o.Covered taken) (ho : o.offer f = some p) : p.Covered taken := by
  unfold Outbox.offer at ho
  split at ho
  · cases ho
  · split at ho
    · cases ho
    · rename_i ha
      split at ho
      · rename_i hq
        cases ho
        exact (hc.allocate ha).push hq
      · cases ho

theorem clearPeak (hc : o.Covered taken) :
    Covered { o with buffers := o.buffers.clearPeak } taken := ⟨hc.depth, hc.covered⟩

/-- There is room for a frame when none is on its way. -/
theorem offer_isSome (hc : o.Covered []) (hidle : o.queue.toList = []) (f : Frame) :
    ∃ p, o.offer f = some p := by
  have hfull : o.queue.isFull = false := by
    unfold Queue.isFull Queue.count
    rw [hidle]
    decide
  have hfree : ∃ h p, o.allocate f = some (h, p) := by
    unfold Outbox.allocate
    cases ha : o.buffers.allocate f with
    | some p => exact ⟨_, _, rfl⟩
    | none =>
      have hpos : 0 < o.buffers.capacity := by rw [hc.depth]; decide
      have hmem := hc.covered ⟨0⟩ (Pool.allocate_eq_none_iff.1 ha 0 hpos)
      rw [hidle] at hmem
      cases hmem
  obtain ⟨h, p, ha⟩ := hfree
  have hq : p.queue = o.queue := (allocate_spec ha).1
  unfold Outbox.offer
  rw [if_neg (by simp [hfull]), ha]
  simp only
  cases hpush : p.queue.push h with
  | some q => exact ⟨_, rfl⟩
  | none =>
    have hcount := Queue.push_eq_none_iff.1 hpush
    unfold Queue.count at hcount
    rw [hq, hidle] at hcount
    cases hcount

end Covered

end Outbox

/-- The answers to control frames are control frames. -/
theorem AliasTable.isMessage_answer (t : AliasTable) {a : Nat} {p : List UInt8} {g : Frame}
    (hg : g ∈ t.objection a ∨ g ∈ t.conflict a ∨ g ∈ t.definitions p) :
    g.isMessage = false := by
  rcases hg with hg | hg | hg
  · unfold objection at hg
    split at hg
    · rw [List.mem_singleton.1 hg]
      exact Frame.isMessage_pack _
    · cases hg
  · unfold conflict at hg
    split at hg
    · split at hg
      · rw [List.mem_singleton.1 hg]
        exact Frame.isMessage_pack _
      · cases hg
    · cases hg
  · obtain ⟨m, -, rfl⟩ := List.mem_map.1 hg
    exact Frame.isMessage_pack _

namespace Resources

/-- What is put into the outbox when a frame comes from the bus. -/
def answers (r : Resources) (f : Frame) : List Frame :=
  match f.kind with
  | .checkId number => if 4 ≤ number ∧ number ≤ 7 then r.aliases.objection f.source else []
  | .control .aliasMapEnquiry =>
    if (r.aliases.find? f.source).isSome then r.aliases.conflict f.source
    else r.aliases.definitions f.payload
  | .control _ => r.aliases.conflict f.source
  | _ => []

/-- Reception puts its answers into the outbox. -/
theorem outbox_receive (streams : Bool) (r : Resources) (f : Frame) :
    (r.receive streams f).outbox = r.outbox.postAll (r.answers f) := by
  unfold receive answers
  cases f.kind with
  | checkId number => simp only; split <;> rfl
  | control kind =>
    cases kind with
    | aliasMapEnquiry => simp only [receiveControl, receiveEnquiry]; split <;> rfl
    | reserveId | aliasMapDefinition | aliasMapReset | errorReport _ => rfl
  | unknownControl field => rfl
  | message t => exact (receiveMessage_outside streams r f t).outbox

/-- The answers are control frames. -/
theorem isMessage_answers {r : Resources} {f g : Frame} (hg : g ∈ r.answers f) :
    g.isMessage = false := by
  have hconflict (h : g ∈ r.aliases.conflict f.source) : g.isMessage = false :=
    r.aliases.isMessage_answer (p := []) (.inr (.inl h))
  unfold answers at hg
  split at hg
  · split at hg
    · exact r.aliases.isMessage_answer (p := []) (.inl hg)
    · cases hg
  · split at hg
    · exact hconflict hg
    · exact r.aliases.isMessage_answer (a := 0) (.inr (.inr hg))
  · exact hconflict hg
  · cases hg

end Resources

namespace Interface

/-- No frame buffer is lost. -/
def Covered (s : Interface) : Prop := s.resources.outbox.Covered s.transmitting.toList

variable {streams accepts : Bool} {s : Interface}

theorem fetch_covered (hc : s.Covered) : s.fetch.interface.Covered := by
  unfold fetch
  split
  · exact hc
  · rename_i hnone
    unfold Covered at hc
    rw [hnone] at hc
    simp only [locked]
    split
    · rename_i hp
      exact Outbox.Covered.pop hc hp
    · unfold Covered
      rw [hnone]
      exact hc

theorem transmit_covered (hc : s.Covered) : (s.transmit accepts).interface.Covered := by
  have hfetch := fetch_covered hc
  unfold transmit
  simp only
  split
  · exact hfetch
  · rename_i h hh
    unfold Covered at hfetch
    rw [hh] at hfetch
    unfold offer
    split
    · rename_i hnone
      -- a handle that names no frame covers none
      refine ⟨hfetch.depth, fun k hk => ?_⟩
      have hmem := hfetch.covered k hk
      have hne : k ≠ h := by
        rintro rfl
        rw [hnone] at hk
        cases hk
      simpa [hne] using hmem
    · split
      · exact Outbox.Covered.free hfetch
      · unfold Covered
        rw [hh]
        exact hfetch

theorem settle_covered (hc : s.Covered) (o : Outgoing) (m : Message) : (s.settle o m).Covered := by
  unfold settle
  split <;> exact hc

theorem continueMessage_covered (hc : s.Covered) (o : Outgoing) :
    (s.continueMessage streams o).interface.Covered := by
  cases hm : s.resources.messages.get? o.handle with
  | none =>
    unfold continueMessage
    rw [hm]
    exact hc
  | some m =>
    obtain ⟨b, o', heq, -, ⟨rfl, -⟩ | ⟨f, n, -, hoffer, -⟩⟩ := @continueMessage_cases streams s o m hm
    · rw [heq]
      exact settle_covered (s := { s with resources := { s.resources with outbox := _ } }) hc _ _
    · rw [heq]
      exact settle_covered (s := { s with resources := { s.resources with outbox := b } })
        (Outbox.Covered.offer hc hoffer) _ _

theorem sendMessages_covered (hc : s.Covered) :
    (s.sendMessages streams).interface.Covered := by
  unfold sendMessages
  split
  · exact continueMessage_covered hc _
  · cases hpop : s.resources.egress.pop with
    | none =>
      rw [popEgress_of_none hpop]
      exact hc
    | some p =>
      obtain ⟨h, q⟩ := p
      rw [popEgress_of_some hpop]
      simp only
      split
      · exact continueMessage_covered
          (s := { s with resources := { s.resources with egress := q } }) hc _
      · exact hc

theorem giveUpAll_covered (n : Nat) (hc : s.Covered) : (giveUpAll n s).Covered := by
  induction n generalizing s with
  | zero => exact hc
  | succ n ih =>
    unfold giveUpAll
    split
    · exact @ih (s.giveUp _) hc
    · exact hc

theorem transmitLogin_covered (hc : s.Covered) : (s.transmitLogin accepts).interface.Covered := by
  unfold transmitLogin
  split
  · exact hc
  · split <;> exact hc

theorem takeTurn_covered (hc : s.Covered) (i : Nat) : (s.takeTurn i).interface.Covered := by
  unfold takeTurn
  split
  · exact hc
  · split <;> exact hc

/-- No request loses a frame buffer. -/
theorem perform_covered (hc : s.Covered) (req : Request) :
    (s.perform streams req).interface.Covered := by
  by_cases hrec : ∃ f, req = .receive f
  · obtain ⟨f, rfl⟩ := hrec
    show (s.resources.receive streams f).outbox.Covered s.transmitting.toList
    rw [Resources.outbox_receive]
    exact Outbox.Covered.postAll hc _
  · by_cases hrun : ∃ accepts, req = .run accepts
    · obtain ⟨accepts, rfl⟩ := hrun
      exact run_invariant (P := Covered) (fun _ hc => giveUpAll_covered _ hc)
        (fun _ hc => transmit_covered hc) (fun _ hc => transmitLogin_covered hc)
        (fun _ hc => sendMessages_covered hc) (fun _ _ _ hc => hc)
        (fun _ i hc => takeTurn_covered hc i) hc
    · obtain ⟨-, -, htaken, houtbox⟩ := @perform_aside streams s req
        (fun f heq => hrec ⟨f, heq⟩) fun accepts heq => hrun ⟨accepts, heq⟩
      unfold Covered
      rw [htaken]
      rcases houtbox with heq | heq
      · rw [heq]
        exact hc
      · rw [heq]
        exact Outbox.Covered.clearPeak hc

end Interface

end LayoutBus
