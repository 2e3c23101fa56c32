import LayoutBus.Proofs.Node.Course
import Mathlib.Data.List.Basic

/-!
# What a login sends

A node that has picked an alias sends a fixed list of frames, one in each step that sends one at all.

* `Node.announcements` : the list: four checks with the slices of the node id, the claim and the
  definition of the alias, the announcement of the node, and one frame for each of its events.
* `Node.announced` : the part of the list that the phase and the cursors of a node say is done.
* `Node.Advance.continues` : a step of the login does the next part of the list.
-/

namespace LayoutBus

namespace EventList

variable {k : Nat} {l r : EventList k} {e : Event}

theorem next_eq_some_iff :
    l.next = some (e, r) ↔ l.events[l.cursor]? = some e ∧ r = { l with cursor := l.cursor + 1 } := by
  rw [next]
  cases l.events[l.cursor]? with
  | none => simp
  | some x =>
    simp only [Option.some.injEq, Prod.mk.injEq]
    exact and_congr_right fun _ => eq_comm

theorem next_eq_none_iff : l.next = none ↔ l.events.length ≤ l.cursor := by
  rw [← List.getElem?_eq_none_iff]
  rw [next]
  cases l.events[l.cursor]? <;> simp

end EventList

namespace Node

variable {n : Node} {t : AliasTable} {f : Frame}

theorem length_encode_id_le (n : Node) : (BigEndian.encode 6 n.id).length ≤ 8 := by simp

/-- The frames of a login up to the announcement of the node. -/
def opening (n : Node) : List Frame :=
  [.pack false 7 (n.id / 0x1000000000) n.aliasId [] Frame.empty_le,
    .pack false 6 (n.id / 0x1000000) n.aliasId [] Frame.empty_le,
    .pack false 5 (n.id / 0x1000) n.aliasId [] Frame.empty_le,
    .pack false 4 n.id n.aliasId [] Frame.empty_le,
    .reserveId n.aliasId,
    .aliasMapDefinition n.aliasId n.id,
    .messageData .standard
      (if Support.includes n.params.support Support.simple then 0x0101 else 0x0100)
      n.aliasId (BigEndian.encode 6 n.id) n.length_encode_id_le]

/-- All the frames of a login with the alias of the node, in order. -/
def announcements (n : Node) : List Frame :=
  n.opening ++ n.producers.events.map (fun e => n.identified e.status.producerMti e) ++
    n.consumers.events.map fun e => n.identified e.status.consumerMti e

/-- How many of them the node has done with. -/
def progress (n : Node) : Nat :=
  match n.phase with
  | .start | .nextSeed | .pickAlias | .check7 => 0
  | .check6 => 1
  | .check5 => 2
  | .check4 => 3
  | .wait | .reserve => 4
  | .define => 5
  | .announce => 6
  | .producers => 7 + n.producers.cursor
  | .consumers => 7 + n.producers.events.length + n.consumers.cursor
  | .running => 7 + n.producers.events.length + n.consumers.events.length

/-- The frames that the node has done with. -/
def announced (n : Node) : List Frame := n.announcements.take n.progress

/-- The cursors of the events are where the phase has brought them. -/
structure Paced (n : Node) : Prop where
  producers : n.phase = .producers →
    n.producers.cursor ≤ n.producers.events.length ∧ n.consumers.cursor = 0
  consumers : n.phase = .consumers → n.consumers.cursor ≤ n.consumers.events.length

theorem announced_prefix (n : Node) : n.announced <+: n.announcements := List.take_prefix _ _

theorem announced_of_check7 (h : n.phase = .check7) : n.announced = [] := by
  rw [announced, progress, h]
  rfl

/-- A node that may use its alias has done with its definition. -/
theorem definition_mem_announced (h : 2 ≤ n.phase.level) :
    .aliasMapDefinition n.aliasId n.id ∈ n.announced := by
  have hprogress : 6 ≤ n.progress := by
    rw [progress]
    revert h
    cases n.phase <;> simp [Phase.level] <;> omega
  have hindex : n.announcements[5]? = some (.aliasMapDefinition n.aliasId n.id) := rfl
  refine List.mem_of_getElem? (i := 5) ?_
  rw [announced, List.getElem?_take_of_lt (Nat.lt_of_succ_le hprogress)]
  exact hindex

/-! ### What the list depends on -/

/-- The change leaves alone what the node announces and what it has done with. -/
structure Kept (n m : Node) : Prop where
  id : m.id = n.id
  aliasId : m.aliasId = n.aliasId
  phase : m.phase = n.phase
  params : m.params = n.params
  producers : m.producers = n.producers
  consumers : m.consumers = n.consumers

namespace Kept

variable {m : Node}

theorem refl (n : Node) : n.Kept n := ⟨rfl, rfl, rfl, rfl, rfl, rfl⟩

theorem announcements (h : n.Kept m) : m.announcements = n.announcements := by
  simp only [Node.announcements, opening, identified, h.id, h.aliasId, h.params, h.producers,
    h.consumers]

theorem announced (h : n.Kept m) : m.announced = n.announced := by
  have hprogress : m.progress = n.progress := by
    simp only [progress, h.phase, h.producers, h.consumers]
  rw [Node.announced, h.announcements, hprogress, Node.announced]

theorem paced (h : n.Kept m) (hn : n.Paced) : m.Paced where
  producers := by
    rw [h.phase, h.producers, h.consumers]
    exact hn.producers
  consumers := by
    rw [h.phase, h.consumers]
    exact hn.consumers

end Kept

theorem source_of_mem_announcements (hf : f ∈ n.announcements) :
    f.source = n.aliasId % 0x1000 := by
  rw [announcements, opening] at hf
  simp only [List.mem_append, List.mem_cons, List.not_mem_nil, or_false, List.mem_map] at hf
  rcases hf with ((rfl | rfl | rfl | rfl | rfl | rfl | rfl) | ⟨e, -, rfl⟩) | ⟨e, -, rfl⟩ <;>
    exact Frame.source_pack _

/-! ### Steps -/

/-- The checks carry the slices of the node id. -/
theorem opening_eq (n : Node) :
    n.opening = [.checkId 7 n.aliasId n.id, .checkId 6 n.aliasId n.id, .checkId 5 n.aliasId n.id,
      .checkId 4 n.aliasId n.id, .reserveId n.aliasId, .aliasMapDefinition n.aliasId n.id,
      n.initializationComplete] := by
  simp [opening, Frame.checkId, Nat.shiftRight_eq_div_pow, initializationComplete,
    Mti.initializationComplete, Mti.initializationCompleteSimple]

theorem announcements_producer {k : Nat} {e : Event} (h : n.producers.events[k]? = some e) :
    n.announcements[7 + k]? = some (n.identified e.status.producerMti e) := by
  have hlt : k < n.producers.events.length := (List.getElem?_eq_some_iff.1 h).1
  have hopening : n.opening.length = 7 := rfl
  rw [announcements, List.getElem?_append_left (by rw [List.length_append, List.length_map]; omega),
    List.getElem?_append_right (by omega), hopening, Nat.add_sub_cancel_left, List.getElem?_map, h]
  rfl

theorem announcements_consumer {k : Nat} {e : Event} (h : n.consumers.events[k]? = some e) :
    n.announcements[7 + n.producers.events.length + k]? =
      some (n.identified e.status.consumerMti e) := by
  have hopening : n.opening.length = 7 := rfl
  rw [announcements]
  rw [List.getElem?_append_right (by rw [List.length_append, List.length_map]; omega),
    List.length_append, List.length_map, hopening, Nat.add_sub_cancel_left, List.getElem?_map, h]
  rfl

/-- What a step of the login does to the list of the node. -/
structure Continues (n : Node) (step : LoginStep) : Prop where
  paced : step.node.Paced
  announcements : step.node.announcements = n.announcements
  announced : step.node.announced = n.announced ++ step.frame.toList
  /-- The step that ends the login sends nothing. -/
  running : step.node.phase = .running → step.frame = none

namespace Continues

variable {step : LoginStep}

theorem silent (hpaced : step.node.Paced) (hlist : step.node.announcements = n.announcements)
    (hprogress : step.node.progress = n.progress) (hframe : step.frame = none) :
    n.Continues step where
  paced := hpaced
  announcements := hlist
  announced := by
    rw [hframe, Option.toList_none, List.append_nil, Node.announced, Node.announced, hlist, hprogress]
  running _ := hframe

theorem next (hpaced : step.node.Paced) (hlist : step.node.announcements = n.announcements)
    (hprogress : step.node.progress = n.progress + 1) (hframe : step.frame = some f)
    (hf : n.announcements[n.progress]? = some f) (hrun : step.node.phase ≠ .running) :
    n.Continues step where
  paced := hpaced
  announcements := hlist
  announced := by
    rw [hframe, Node.announced, Node.announced, hlist, hprogress, List.take_add_one, hf]
  running h := absurd h hrun

end Continues

theorem paced_of_phase {m : Node} (hp : m.phase ≠ .producers) (hc : m.phase ≠ .consumers) :
    m.Paced := ⟨fun h => absurd h hp, fun h => absurd h hc⟩

/-- The frame of the step comes from the alias of the node. -/
theorem Continues.source {step : LoginStep} (h : n.Continues step) (hvalid : Alias.Valid n.aliasId)
    (hf : step.frame = some f) : f.source = n.aliasId := by
  have hmem : f ∈ step.node.announced := by
    rw [h.announced, hf]
    simp
  have hsource := source_of_mem_announcements (h.announcements ▸ step.node.announced_prefix.subset hmem)
  rw [hsource]
  exact Nat.mod_eq_of_lt (Nat.lt_succ_of_le hvalid.2)

/-- The next of the events that the node produces. -/
theorem continues_produce {e : Event} {producers : EventList Limits.producerDepth}
    (hphase : n.phase = .producers) (hnext : n.producers.next = some (e, producers)) (hp : n.Paced)
    (t : AliasTable) :
    n.Continues
      { node := { n with producers }
        aliases := t
        frame := some (n.identified e.status.producerMti e) } := by
  obtain ⟨hget, rfl⟩ := EventList.next_eq_some_iff.1 hnext
  have hlt := (List.getElem?_eq_some_iff.1 hget).1
  refine .next ⟨fun _ => ⟨hlt, (hp.producers hphase).2⟩, ?_⟩ rfl ?_ rfl ?_ ?_
  · simp [hphase]
  · simp only [progress, hphase, Nat.add_assoc]
  · rw [progress, hphase]
    exact announcements_producer hget
  · simp [hphase]

/-- The next of the events that the node consumes. -/
theorem continues_consume {e : Event} {consumers : EventList Limits.consumerDepth}
    (hphase : n.phase = .consumers) (hnext : n.consumers.next = some (e, consumers)) (t : AliasTable) :
    n.Continues
      { node := { n with consumers }
        aliases := t
        frame := some (n.identified e.status.consumerMti e) } := by
  obtain ⟨hget, rfl⟩ := EventList.next_eq_some_iff.1 hnext
  have hlt := (List.getElem?_eq_some_iff.1 hget).1
  refine .next ⟨?_, fun _ => hlt⟩ rfl ?_ rfl ?_ ?_
  · simp [hphase]
  · simp only [progress, hphase, Nat.add_assoc]
  · rw [progress, hphase]
    exact announcements_consumer hget
  · simp [hphase]

/-- A step of the login of a node with an alias does the next part of its list. -/
theorem Advance.continues {step : LoginStep} (hstep : n.Advance t step) (h : n.Orderly) (hp : n.Paced)
    (hne : n.aliasId ≠ 0) : n.Continues step := by
  have hlevel := h.named.1 hne
  cases hstep with
  | stay => exact .silent hp rfl rfl rfl
  -- a node in these phases has no alias
  | seek seed hphase =>
    rcases hphase with hphase | hphase | hphase <;> rw [hphase] at hlevel <;>
      exact absurd hlevel (by decide)
  | pick seed hphase =>
    rw [hphase] at hlevel
    exact absurd hlevel (by decide)
  -- the four checks
  | check7 hphase | check6 hphase | check5 hphase | check4 hphase =>
    refine .next (paced_of_phase nofun nofun) rfl ?_ rfl ?_ nofun
    · simp only [progress, hphase]
    · rw [progress, hphase, Node.announcements, opening_eq]
      rfl
  | waited hphase =>
    refine .silent (paced_of_phase nofun nofun) rfl ?_ rfl
    simp only [progress, hphase]
  -- the claim and the definition
  | reserve hphase | define hphase =>
    refine .next (paced_of_phase nofun nofun) rfl ?_ rfl ?_ nofun
    · simp only [progress, hphase]
    · rw [progress, hphase]
      rfl
  -- the announcement, after which both lists of events start from their first
  | announce hphase =>
    refine .next ⟨fun _ => ⟨Nat.zero_le _, rfl⟩, nofun⟩ rfl ?_ rfl ?_ nofun
    · simp only [progress, hphase, EventList.rewind]
    · rw [progress, hphase]
      rfl
  | produce e hphase hnext => exact continues_produce hphase hnext hp t
  | produced hphase hnext =>
    obtain ⟨hle, hzero⟩ := hp.producers hphase
    have hend := EventList.next_eq_none_iff.1 hnext
    refine .silent ⟨nofun, fun _ => ?_⟩ rfl ?_ rfl
    · simp only [hzero, Nat.zero_le]
    · simp only [progress, hphase, hzero]
      omega
  | consume e hphase hnext => exact continues_consume hphase hnext t
  | consumed hphase hnext =>
    have hle := hp.consumers hphase
    have hend := EventList.next_eq_none_iff.1 hnext
    refine .silent (paced_of_phase nofun nofun) rfl ?_ rfl
    simp only [progress, hphase]
    omega

end Node

end LayoutBus
