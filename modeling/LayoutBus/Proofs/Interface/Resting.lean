import LayoutBus.Proofs.Interface.Extent
import LayoutBus.Proofs.Memory.Keyed
import LayoutBus.Proofs.Message.Ledger
import LayoutBus.Proofs.Node.Advance

/-!
# Messages at rest

Besides the messages that are to be sent, an interface has messages in hand that are under assembly,
that wait for the application, and that nodes keep.  A message in any other buffer lies aside: as
long as the application leaves it alone, nothing but its being sent changes or frees it, whatever
happens to other buffers.

* `Resources.Rests`, `Interface.Rests` : a message rests in a buffer.
* `Interface.LetsRest` : a request of the application leaves a message alone.
* `Interface.Rests.perform` : after such a request it still does.
-/

namespace LayoutBus

theorem Assemblies.mem_handles_of_find? {a : Assemblies} {key : AssemblyKey} {h : Handle}
    (hf : a.find? key = some h) : h ∈ a.handles := by
  obtain ⟨e, he, rfl⟩ := Option.map_eq_some_iff.1 hf
  exact List.mem_map_of_mem (List.mem_of_find?_eq_some he)

theorem Assemblies.handles_release_subset (a : Assemblies) (h : Handle) :
    (a.release h).handles ⊆ a.handles := by
  unfold release
  split
  · exact List.map_subset _ fun e he =>
      List.eraseIdx_subset ((moveLastTo_perm _ _).subset he)
  · exact List.Subset.refl _

namespace Resources

/-- The message lies aside in the buffer: it is neither under assembly nor waiting for the
application. -/
structure Rests (r : Resources) (k : Handle) (m : Message) : Prop where
  message : r.messages.get? k = some m
  unlisted : k ∉ r.assemblies.handles
  unqueued : k ∉ r.ingress.toList

namespace Rests

variable {streams : Bool} {r s : Resources} {h k : Handle} {m : Message} {c : SizeClass}
  {f : Frame} {ms : MessageStore}

/-- A step that touches another buffer. -/
theorem touch (hk : r.Rests k m) (hne : k ≠ h)
    (hget : ∀ j, j ≠ h → s.messages.get? j = r.messages.get? j)
    (hlisted : ∀ j ∈ s.assemblies.handles, j = h ∨ j ∈ r.assemblies.handles)
    (hin : ∀ j ∈ s.ingress.toList, j = h ∨ j ∈ r.ingress.toList) : s.Rests k m where
  message := (hget k hne).trans hk.message
  unlisted hmem := (hlisted k hmem).elim hne hk.unlisted
  unqueued hmem := (hin k hmem).elim hne hk.unqueued

/-- A buffer that is taken was free. -/
theorem allocate (hk : r.Rests k m) (ha : r.messages.allocate c = some (h, ms)) :
    k ≠ h ∧ Rests { r with messages := ms } k m := by
  obtain ⟨-, hnone, hget⟩ := MessageStore.get?_of_allocate ha
  have hne : k ≠ h := by
    rintro rfl
    rw [hk.message] at hnone
    cases hnone
  exact ⟨hne, hk.touch hne (fun j hj => (hget j).trans (if_neg hj)) (fun _ => .inr) fun _ => .inr⟩

theorem modify (hk : r.Rests k m) (hne : k ≠ h) (g : Message → Message) :
    Rests { r with messages := r.messages.modify h g } k m :=
  hk.touch hne (fun j hj => (r.messages.get?_modify h j g).trans (if_neg hj)) (fun _ => .inr)
    fun _ => .inr

theorem free (hk : r.Rests k m) (hne : k ≠ h) :
    Rests { r with messages := r.messages.free h } k m :=
  hk.touch hne (fun j hj => (r.messages.get?_free h j).trans (if_neg hj)) (fun _ => .inr)
    fun _ => .inr

theorem release (hk : r.Rests k m) (h : Handle) :
    Rests { r with assemblies := r.assemblies.release h } k m :=
  ⟨hk.message, fun hmem => hk.unlisted (r.assemblies.handles_release_subset h hmem), hk.unqueued⟩

theorem deliver (hk : r.Rests k m) (hne : k ≠ h) : (r.deliver h).1.Rests k m := by
  unfold Resources.deliver
  split
  · rename_i q hq
    refine hk.touch hne (fun _ _ => rfl) (fun _ => .inr) fun j hj => ?_
    have hj' : j ∈ q.toList := hj
    rw [Queue.toList_push hq] at hj'
    exact (List.mem_append.1 hj').symm.imp_left List.mem_singleton.1
  · exact hk.free hne

theorem reject (hk : r.Rests k m) (f : Frame) (code : Nat) : (r.reject f code).Rests k m := by
  unfold Resources.reject
  split
  · rename_i ha
    obtain ⟨hne, hk⟩ := hk.allocate ha
    exact (hk.modify hne _).deliver hne
  · exact hk

theorem allocateFor (hk : r.Rests k m) (ha : r.allocateFor f c = some (h, s)) :
    k ≠ h ∧ s.Rests k m := by
  unfold Resources.allocateFor at ha
  split at ha
  · rename_i ha'
    cases ha
    obtain ⟨hne, hk⟩ := hk.allocate ha'
    exact ⟨hne, hk.modify hne _⟩
  · cases ha

theorem abandon (hk : r.Rests k m) (hne : k ≠ h) : (r.abandon h).Rests k m :=
  (hk.release h).free hne

/-! ### Frames -/

theorem acceptOnly (hk : r.Rests k m) (f : Frame) (offset : Nat) (c : SizeClass) :
    (r.acceptOnly f offset c).Rests k m := by
  unfold Resources.acceptOnly
  split
  · rename_i ha
    obtain ⟨hne, hk⟩ := hk.allocateFor ha
    exact (hk.modify hne _).deliver hne
  · split
    · exact hk.reject f _
    · exact hk

theorem acceptFirst (hk : r.Rests k m) (f : Frame) (offset : Nat) (c : SizeClass) :
    (r.acceptFirst f offset c).Rests k m := by
  unfold Resources.acceptFirst
  split
  · exact hk.reject f _
  · split
    · exact hk.reject f _
    · rename_i h s ha
      obtain ⟨hne, hk⟩ := hk.allocateFor ha
      split
      · rename_i a hadd
        refine (hk.modify hne _).touch hne (fun _ _ => rfl) (fun j hj => ?_) fun _ => .inr
        unfold Assemblies.add at hadd
        split at hadd
        · cases hadd
        · split at hadd <;> cases hadd
          simp only [Assemblies.handles, List.map_append, List.mem_append] at hj
          exact hj.symm.imp_left List.mem_singleton.1
      · exact (hk.free hne).reject f _

theorem extend (hk : r.Rests k m) (hne : k ≠ h) (f : Frame) (offset : Nat) :
    (r.extend f offset h).1.Rests k m := by
  unfold Resources.extend
  simp only
  split
  · exact hk.modify hne _
  · exact (hk.abandon hne).reject f _

/-- What is under assembly is another buffer. -/
theorem ne_of_find? (hk : r.Rests k m) {key : AssemblyKey} (hf : r.assemblies.find? key = some h) :
    k ≠ h := by
  rintro rfl
  exact hk.unlisted (Assemblies.mem_handles_of_find? hf)

theorem acceptMiddle (hk : r.Rests k m) (f : Frame) (offset : Nat) :
    (r.acceptMiddle f offset).Rests k m := by
  unfold Resources.acceptMiddle
  split
  · rename_i hf
    exact hk.extend (hk.ne_of_find? hf) f offset
  · exact hk.reject f _

theorem acceptLast (hk : r.Rests k m) (f : Frame) (offset : Nat) :
    (r.acceptLast f offset).Rests k m := by
  unfold Resources.acceptLast
  split
  · rename_i h hf
    have hne := hk.ne_of_find? hf
    have hext := hk.extend hne f offset
    split
    · rename_i heq
      rw [heq] at hext
      exact ((hext.modify hne _).release h).deliver hne
    · rename_i heq
      rw [heq] at hext
      exact hext
  · exact hk.reject f _

/-- Reception of any frame leaves the message alone. -/
theorem receive (hk : r.Rests k m) (f : Frame) : (r.receive streams f).Rests k m := by
  have hsame (o : Outbox) (t : AliasTable) : Rests { r with outbox := o, aliases := t } k m :=
    ⟨hk.message, hk.unlisted, hk.unqueued⟩
  unfold Resources.receive
  cases f.kind with
  | checkId number =>
    simp only
    split
    · exact hsame _ r.aliases
    · exact hk
  | control kind =>
    cases kind with
    | aliasMapEnquiry =>
      simp only [receiveControl, receiveEnquiry]
      split
      · exact hsame _ _
      · exact hsame _ r.aliases
    | reserveId | aliasMapDefinition | aliasMapReset | errorReport _ => exact hsame _ _
  | unknownControl field => exact hk
  | message t =>
    exact receiveMessage_route (P := fun s => s.Rests k m) streams t hk (hk.acceptOnly f)
      (hk.acceptFirst f) (hk.acceptMiddle f) (hk.acceptLast f)

/-! ### Ticks -/

theorem foldl_abandon {hs : List Handle} (hk : r.Rests k m) (hne : k ∉ hs) :
    (hs.foldl Resources.abandon r).Rests k m := by
  induction hs generalizing r with
  | nil => exact hk
  | cons h hs ih =>
    rw [List.mem_cons, not_or] at hne
    exact ih (hk.abandon hne.1) hne.2

/-- Only messages of the list grow older and are given up. -/
theorem foldl_growOne {hs : List Handle} (hne : k ∉ hs) (p : MessageStore × List Handle) :
    (hs.foldl growOne p).1.get? k = p.1.get? k ∧
      (k ∈ (hs.foldl growOne p).2 → k ∈ p.2) := by
  induction hs generalizing p with
  | nil => exact ⟨rfl, id⟩
  | cons h hs ih =>
    rw [List.mem_cons, not_or] at hne
    obtain ⟨hget, hmem⟩ := ih hne.2 (growOne p h)
    have hone : (growOne p h).1.get? k = p.1.get? k ∧ (k ∈ (growOne p h).2 → k ∈ p.2) := by
      unfold growOne
      split
      · refine ⟨(p.1.get?_modify h k _).trans (if_neg hne.1), fun hk => ?_⟩
        simp only at hk
        split at hk
        · exact (List.mem_append.1 hk).resolve_right fun h => hne.1 (List.mem_singleton.1 h)
        · exact hk
      · exact ⟨rfl, id⟩
    exact ⟨hget.trans hone.1, fun hk => hone.2 (hmem hk)⟩

theorem age (hk : r.Rests k m) : r.age.Rests k m := by
  obtain ⟨hget, hmem⟩ := foldl_growOne hk.unlisted (r.messages, [])
  have hgrown : Rests { r with messages := (grow r.messages r.assemblies.handles).1 } k m :=
    ⟨hget.trans hk.message, hk.unlisted, hk.unqueued⟩
  exact hgrown.foldl_abandon fun h => List.not_mem_nil (hmem h)

end Rests

end Resources

namespace Interface

variable {streams accepts : Bool} {s t : Interface} {h k : Handle} {m : Message} {req : Request}

/-- The message lies aside in the buffer: it is neither under assembly, nor waiting for the
application, nor kept by a node. -/
structure Rests (s : Interface) (k : Handle) (m : Message) : Prop where
  resources : s.resources.Rests k m
  retained : ∀ n ∈ s.nodes.nodes, n.retained ≠ some k

namespace Rests

theorem message? (hk : s.Rests k m) : s.message? k = some m := hk.resources.message

/-- A step that touches neither the messages nor what is in hand. -/
theorem of_same (hk : s.Rests k m) (hm : t.resources.messages = s.resources.messages)
    (ha : t.resources.assemblies = s.resources.assemblies)
    (hin : t.resources.ingress = s.resources.ingress) (hn : t.nodes.nodes = s.nodes.nodes) :
    t.Rests k m := by
  refine ⟨⟨?_, ?_, ?_⟩, ?_⟩
  · rw [hm]
    exact hk.resources.message
  · rw [ha]
    exact hk.resources.unlisted
  · rw [hin]
    exact hk.resources.unqueued
  · rw [hn]
    exact hk.retained

/-- A node changes, and does not keep the message. -/
theorem modify {i : Nat} {g : Node → Node} (hk : s.Rests k m)
    (hg : ∀ n ∈ s.nodes.get? i, (g n).retained ≠ some k) :
    Rests { s with nodes := s.nodes.modify i g } k m := by
  refine ⟨hk.resources, fun n hn => ?_⟩
  rcases mem_modify hn with hold | ⟨n', hn', rfl⟩
  · exact hk.retained n hold
  · exact hg n' hn'

end Rests

/-! ### Requests -/

/-- The request leaves the message in a buffer alone. -/
def LetsRest (s : Interface) (k : Handle) : Request → Prop
  | .free h | .pushEgress h | .edit h _ => h ≠ k
  | .retain _ x => x ≠ some k
  | .revise i change => ∀ n ∈ s.nodes.get? i, (change n).retained ≠ some k
  | _ => True

namespace Rests

/-- A request that leaves the message alone, from whomever it comes. -/
theorem perform (hk : s.Rests k m) (hl : s.LetsRest k req) (hrun : ∀ accepts, req ≠ .run accepts) :
    (s.perform streams req).interface.Rests k m := by
  cases req with
  | run accepts => exact absurd rfl (hrun accepts)
  | register id params =>
    have heq : (s.perform streams (.register id params)).interface =
        (s.register id params).interface := rfl
    rw [heq]
    obtain hsame | hadded := s.register_cases id params
    · rw [hsame]
      exact hk
    · rw [hadded]
      refine ⟨hk.resources, fun n hn => ?_⟩
      rcases List.mem_append.1 hn with hold | hnew
      · exact hk.retained n hold
      · rw [List.mem_singleton.1 hnew]
        exact (Option.some_ne_none k).symm
  | receive f => exact ⟨hk.resources.receive f, hk.retained⟩
  | tick =>
    refine ⟨hk.resources.age, fun n hn => ?_⟩
    obtain ⟨n', hn', rfl⟩ := List.mem_map.1 hn
    exact hk.retained n' hn'
  | allocate c =>
    simp only [Interface.perform, Interface.allocate, locked]
    split
    · rename_i ha
      exact ⟨(hk.resources.allocate ha).2, hk.retained⟩
    · exact hk
  | popIngress =>
    simp only [Interface.perform, popIngress, locked]
    split
    · rename_i h q hpop
      refine ⟨⟨hk.resources.message, hk.resources.unlisted, fun hmem => ?_⟩, hk.retained⟩
      refine hk.resources.unqueued ?_
      rw [Queue.pop_eq_some_iff.1 hpop]
      exact List.mem_cons_of_mem h hmem
    · exact hk
  | pushEgress h =>
    obtain ⟨q, hq⟩ := s.pushEgress_extent h
    have heq : (s.perform streams (.pushEgress h)).interface = _ := hq
    rw [heq]
    exact hk.of_same rfl rfl rfl rfl
  | free h => exact ⟨hk.resources.free (Ne.symm hl), hk.retained⟩
  | edit h change => exact ⟨hk.resources.modify (Ne.symm hl) change, hk.retained⟩
  | send i mti dest payload =>
    have heq : (s.perform streams (.send i mti dest payload)).interface =
        (s.send i mti dest payload).interface := rfl
    rw [heq]
    obtain hsame | ⟨c, h, ms, g, ha, hdone⟩ := s.send_cases i mti dest payload
    · rw [hsame]
      exact hk
    · obtain ⟨hne, halloc⟩ := hk.resources.allocate ha
      have hfilled := halloc.modify hne g
      obtain ⟨q, -, hpushed⟩ | hfreed := hdone
      · rw [hpushed]
        exact ⟨⟨hfilled.message, hfilled.unlisted, hfilled.unqueued⟩, hk.retained⟩
      · rw [hfreed]
        exact ⟨hfilled.free hne, hk.retained⟩
  | retain i x => exact hk.modify fun _ _ => hl
  | revise i change => exact hk.modify hl
  | clearPeaks =>
    have hget : ∀ j, s.resources.messages.clearPeak.get? j = s.resources.messages.get? j := by
      rintro ⟨c, i⟩
      cases c <;> rfl
    exact ⟨⟨(hget k).trans hk.resources.message, hk.resources.unlisted, hk.resources.unqueued⟩,
      hk.retained⟩

/-! ### The main loop -/

theorem giveUp (hk : s.Rests k m) (a : Nat) : (s.giveUp a).Rests k m := by
  unfold Interface.giveUp
  simp only
  cases hi : s.nodes.findAnyAlias? a with
  | none => exact hk.of_same rfl rfl rfl rfl
  | some i =>
    simp only [Option.bind_some]
    have hnodes : Rests { s with nodes := s.nodes.modify i Node.restart } k m :=
      hk.modify fun _ _ => (Option.some_ne_none k).symm
    -- what the node has kept is another message
    cases hr : (s.nodes.get? i).bind Node.retained with
    | none => exact hnodes.of_same rfl rfl rfl rfl
    | some h =>
      obtain ⟨n, hn, hret⟩ := Option.bind_eq_some_iff.1 hr
      have hne : k ≠ h := by
        rintro rfl
        exact hk.retained n (List.mem_of_getElem? hn) hret
      have hfree := hk.resources.free hne
      exact ⟨⟨hfree.message, hfree.unlisted, hfree.unqueued⟩, hnodes.retained⟩

theorem giveUpAll (hk : s.Rests k m) (n : Nat) : (giveUpAll n s).Rests k m := by
  induction n generalizing s with
  | zero => exact hk
  | succ n ih =>
    unfold Interface.giveUpAll
    split
    · exact ih (hk.giveUp _)
    · exact hk

theorem resolveConflicts (hk : s.Rests k m) : s.resolveConflicts.interface.Rests k m :=
  (hk.giveUpAll s.resources.aliases.mappings.length).of_same rfl rfl rfl rfl

theorem transmit (hk : s.Rests k m) : (s.transmit accepts).interface.Rests k m := by
  obtain ⟨x, o, heq⟩ := @transmit_extent accepts s
  rw [heq]
  exact hk.of_same rfl rfl rfl rfl

theorem transmitLogin (hk : s.Rests k m) : (s.transmitLogin accepts).interface.Rests k m := by
  unfold Interface.transmitLogin
  split
  · exact hk
  · split
    · exact hk.of_same rfl rfl rfl rfl
    · exact hk

theorem takeTurn (hk : s.Rests k m) (i : Nat) : (s.takeTurn i).interface.Rests k m := by
  unfold Interface.takeTurn
  split
  · exact hk
  · rename_i n hn
    split
    · exact hk
    · have hnode : Rests { s with nodes := s.nodes.modify i fun _ =>
          (n.logIn s.resources.aliases s.loginFrame).node } k m :=
        hk.modify fun _ _ => by
          rw [Node.retained_logIn]
          exact hk.retained n (List.mem_of_getElem? hn)
      exact hnode.of_same rfl rfl rfl rfl

end Rests

end Interface

end LayoutBus
