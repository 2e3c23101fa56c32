import LayoutBus.Proofs.Interface.Sources
import Mathlib.Data.List.Range

/-!
# Turns in rounds

The main loop gives the nodes their turns in rounds, however often more urgent work comes in between
and whenever nodes are added.

* `Interface.turns` : the nodes that have their turns while an interface is used, in order.
* `Interface.Rounds` : requests that make up complete rounds, in each of which all nodes that there
  are when it ends have had one turn, in order.
* `Interface.RoundRobin` and `Interface.serves_in_rounds` : **turns in rounds.**  The turns are
  those of complete rounds and of the beginning of one more, and between two turns of a node every
  other node has one.

A request moves the place in the round (`Interface.position`) by one turn, ends the round, or leaves
it alone: `Interface.Beat` lists these cases, and `Interface.perform_moves` is the step lemma.  A
round ends only when its place has reached the number of nodes, so a node that is added before that
has its turn still in this round, and one that is added later in the next.
-/

namespace LayoutBus

/-- The node that has its turn. -/
def Effect.turn? : Effect → Option Nat
  | turn i => some i
  | _ => none

/-- The nodes that have their turns, in order. -/
def turnsOf (es : List Effect) : List Nat := es.filterMap Effect.turn?

theorem turnsOf_append (es fs : List Effect) : turnsOf (es ++ fs) = turnsOf es ++ turnsOf fs :=
  List.filterMap_append

/-- The lock is no matter of turns. -/
theorem turnsOf_shown (es : List Effect) : turnsOf (shown es) = turnsOf es := by
  rw [turnsOf, shown, List.filterMap_filter]
  refine List.filterMap_congr fun e _ => ?_
  cases e <;> rfl

theorem mem_turnsOf_iff {i : Nat} {es : List Effect} : i ∈ turnsOf es ↔ .turn i ∈ es := by
  rw [turnsOf, List.mem_filterMap]
  constructor
  · rintro ⟨e, he, hi⟩
    cases e <;> cases hi
    exact he
  · exact fun h => ⟨_, h, rfl⟩

/-- The kinds of work of a pass, from the left or from the right. -/
theorem Outcome.orElse_assoc (o : Outcome Bool) (f g : Interface → Outcome Bool) :
    (o.orElse f).orElse g = o.orElse fun t => (f t).orElse g := by
  cases hv : o.value with
  | true => rw [Outcome.orElse_of_true hv, Outcome.orElse_of_true hv, Outcome.orElse_of_true hv]
  | false =>
    unfold Outcome.orElse
    simp only [hv, Bool.false_eq_true, ↓reduceIte]
    split
    · rfl
    · simp only [List.append_assoc]

namespace Interface

variable {streams accepts : Bool} {s t u : Interface} {es fs : List Effect}

/-! ### The place in the round -/

/-- The nodes that have their turns while the requests are answered, in order. -/
def turns (streams : Bool) (s : Interface) : List Request → List Nat
  | [] => []
  | req :: reqs =>
    turnsOf (s.perform streams req).trace ++ (s.perform streams req).interface.turns streams reqs

/-- How many turns there have been in the current round. -/
def position (s : Interface) : Nat :=
  match s.current with
  | some c => c + 1
  | none => 0

/-- The main loop remembers the node that had the last turn, and its cursor stands there. -/
structure Turning (s : Interface) : Prop where
  cursor : ∀ c, s.current = some c →
    s.nodes.cursors[Registry.mainCursor]? = some c ∧ c < s.nodes.size
  length : Registry.mainCursor < s.nodes.cursors.length

theorem turning_empty (streams : Bool) : (empty streams).Turning :=
  ⟨nofun, show 0 < (List.replicate Limits.cursorCount 0).length by decide⟩

/-- What can happen to the round between two states, and which nodes have their turns meanwhile. -/
inductive Beat (s t : Interface) : List Nat → Prop where
  /-- Nothing concerns the round. -/
  | pause (hplace : t.position = s.position) : Beat s t []
  /-- The next node has its turn. -/
  | turn (hlt : s.position < t.nodes.size) (hplace : t.position = s.position + 1) :
      Beat s t [s.position]
  /-- All nodes have had their turns, and the round ends. -/
  | finish (hpos : 0 < s.position) (hall : s.position = t.nodes.size) (hplace : t.position = 0) :
      Beat s t []

/-- A step from `s` to `t` with the given effects. -/
structure Moves (s : Interface) (es : List Effect) (t : Interface) : Prop where
  beat : Beat s t (turnsOf es)
  turning : t.Turning
  /-- Nodes stay. -/
  size_le : s.nodes.size ≤ t.nodes.size

/-! ### One pass -/

/-- What is done does not concern the round. -/
structure Aside (s : Interface) (es : List Effect) (t : Interface) : Prop where
  turns : turnsOf es = []
  current : t.current = s.current
  cursors : t.nodes.cursors = s.nodes.cursors
  size_le : s.nodes.size ≤ t.nodes.size

theorem Aside.trans (h : Aside s es t) (h' : Aside t fs u) : Aside s (es ++ fs) u where
  turns := by rw [turnsOf_append, h.turns, h'.turns, List.append_nil]
  current := h'.current.trans h.current
  cursors := h'.cursors.trans h.cursors
  size_le := h.size_le.trans h'.size_le

theorem Aside.moves (h : Aside s es t) (hs : s.Turning) : s.Moves es t where
  beat := by
    rw [h.turns]
    exact .pause (by rw [position, position, h.current])
  turning := by
    refine ⟨fun c hc => ?_, h.cursors ▸ hs.length⟩
    obtain ⟨hcursor, hlt⟩ := hs.cursor c (h.current ▸ hc)
    exact ⟨h.cursors ▸ hcursor, hlt.trans_le h.size_le⟩
  size_le := h.size_le

theorem size_modify (r : Registry) (i : Nat) (f : Node → Node) : (r.modify i f).size = r.size :=
  List.length_modify ..

/-- Effects that are all of kinds other than a turn. -/
theorem turnsOf_eq_nil (h : ∀ e ∈ shown es, e.turn? = none) : turnsOf es = [] := by
  rw [← turnsOf_shown]
  exact List.filterMap_eq_nil_iff.2 h

theorem giveUp_aside (s : Interface) (a : Nat) : s.Aside [] (s.giveUp a) := by
  unfold giveUp
  cases s.nodes.findAnyAlias? a with
  | some i => exact ⟨rfl, rfl, rfl, (size_modify s.nodes i Node.restart).ge⟩
  | none => exact ⟨rfl, rfl, rfl, le_rfl⟩

theorem giveUpAll_aside (n : Nat) (s : Interface) : s.Aside [] (giveUpAll n s) := by
  induction n generalizing s with
  | zero => exact ⟨rfl, rfl, rfl, le_rfl⟩
  | succ n ih =>
    unfold giveUpAll
    split
    · rename_i m _
      exact (s.giveUp_aside m.aliasId).trans (ih _)
    · exact ⟨rfl, rfl, rfl, le_rfl⟩

theorem resolveConflicts_aside (s : Interface) :
    s.Aside s.resolveConflicts.trace s.resolveConflicts.interface := by
  have h := giveUpAll_aside s.resources.aliases.mappings.length s
  exact ⟨rfl, h.current, h.cursors, h.size_le⟩

theorem transmit_aside (accepts : Bool) (s : Interface) :
    s.Aside (s.transmit accepts).trace (s.transmit accepts).interface := by
  have hturns : turnsOf (s.transmit accepts).trace = [] := by
    rw [← turnsOf_shown]
    rcases (@transmit_spec accepts s).2 with hnone | ⟨h, f, -, hone⟩
    · rw [hnone]
      rfl
    · rw [hone]
      split <;> rfl
  obtain ⟨x, o, heq⟩ := @transmit_extent accepts s
  rw [heq]
  exact ⟨hturns, rfl, rfl, le_rfl⟩

theorem transmitLogin_aside (accepts : Bool) (s : Interface) :
    s.Aside (s.transmitLogin accepts).trace (s.transmitLogin accepts).interface := by
  unfold transmitLogin
  split
  · exact ⟨rfl, rfl, rfl, le_rfl⟩
  · split <;> exact ⟨rfl, rfl, rfl, le_rfl⟩

theorem sendMessages_aside (streams : Bool) (s : Interface) :
    s.Aside (s.sendMessages streams).trace (s.sendMessages streams).interface := by
  have hturns : turnsOf (s.sendMessages streams).trace = [] := by
    refine turnsOf_eq_nil fun e he => ?_
    obtain ⟨h, f, rfl⟩ := s.shown_sendMessages e he
    rfl
  obtain ⟨g, b, ms, q, heq⟩ := @sendMessages_extent streams s
  rw [heq]
  exact ⟨hturns, rfl, rfl, le_rfl⟩

/-! ### Turns -/

theorem takeTurn_turns (s : Interface) (i : Nat) :
    turnsOf (s.takeTurn i).trace = [i] ∧ (s.takeTurn i).interface.current = s.current ∧
      (s.takeTurn i).interface.nodes.cursors = s.nodes.cursors ∧
        (s.takeTurn i).interface.nodes.size = s.nodes.size := by
  unfold takeTurn
  split
  · exact ⟨rfl, rfl, rfl, rfl⟩
  · rename_i n _
    split
    · exact ⟨rfl, rfl, rfl, rfl⟩
    · refine ⟨?_, rfl, rfl, size_modify ..⟩
      have hshown : turnsOf (s.logIn i n).trace = [] := by
        refine turnsOf_eq_nil fun e he => ?_
        rw [logIn, shown_locked] at he
        obtain ⟨a, -, rfl⟩ := List.mem_map.1 (List.mem_filter.1 he).1
        rfl
      show i :: turnsOf (s.logIn i n).trace = [i]
      rw [hshown]

/-- The cursor is put on the node at an index, and the index is remembered. -/
def turnTo (s : Interface) (i : Nat) : Interface :=
  { s with
    nodes := { s.nodes with cursors := s.nodes.cursors.set Registry.mainCursor i }
    current := some i }

/-- The next node has its turn. -/
theorem takeTurn_moves {i : Nat} (hs : s.Turning) (hlt : i < s.nodes.size)
    (hplace : s.position = i) :
    s.Moves ((s.turnTo i).takeTurn i).trace ((s.turnTo i).takeTurn i).interface := by
  obtain ⟨hturns, hcur, hcursors, hsize⟩ := (s.turnTo i).takeTurn_turns i
  have hsize : ((s.turnTo i).takeTurn i).interface.nodes.size = s.nodes.size := hsize
  refine ⟨?_, ⟨fun c hc => ?_, ?_⟩, hsize.ge⟩
  · rw [hturns]
    subst hplace
    exact .turn (hsize ▸ hlt) (by rw [position, hcur]; rfl)
  · obtain rfl : i = c := Option.some.inj (hcur.symm.trans hc)
    rw [hcursors, hsize]
    exact ⟨List.getElem?_set_self hs.length, hlt⟩
  · rw [hcursors]
    exact (List.length_set ..).symm ▸ hs.length

/-- A round begins with the first node, if there is one. -/
theorem firstTurn_moves (hs : s.Turning) (hnone : s.current = none) :
    s.Moves (s.firstTurn.orElse nextTurn).trace (s.firstTurn.orElse nextTurn).interface := by
  have hfirst : s.nodes.first Registry.mainCursor = ((s.turnTo 0).nodes,
      if s.nodes.nodes.isEmpty then none else some 0) := by
    rw [Registry.first, if_pos hs.length]
    rfl
  cases hempty : s.nodes.nodes with
  | nil =>
    have heq : s.firstTurn.orElse nextTurn =
        { value := false, interface := { s with nodes := (s.turnTo 0).nodes } } := by
      simp [firstTurn, nextTurn, Outcome.orElse, hnone, hfirst, hempty]
    rw [heq]
    refine ⟨.pause rfl, ⟨fun c hc => ?_, (List.length_set ..).symm ▸ hs.length⟩, le_rfl⟩
    cases hnone.symm.trans hc
  | cons n ns =>
    have hlt : 0 < s.nodes.size := by simp [Registry.size, hempty]
    have hv : s.firstTurn.value = true := by simp [firstTurn, hnone, hfirst, hempty]
    have heq : s.firstTurn.interface = ((s.turnTo 0).takeTurn 0).interface ∧
        s.firstTurn.trace = ((s.turnTo 0).takeTurn 0).trace := by
      simp [firstTurn, hnone, hfirst, hempty, turnTo]
    rw [Outcome.orElse_of_true hv, heq.1, heq.2]
    exact takeTurn_moves hs hlt (by rw [position, hnone])

/-- A round goes on with the next node, or ends when there is none. -/
theorem nextTurn_moves {c : Nat} (hs : s.Turning) (hcur : s.current = some c) :
    s.Moves s.nextTurn.trace s.nextTurn.interface := by
  obtain ⟨hcursor, hlt⟩ := hs.cursor c hcur
  have hplace : s.position = c + 1 := by rw [position, hcur]
  have hmin : min (c + 1) s.nodes.size = c + 1 := Nat.min_eq_left hlt
  have hnext : s.nodes.next Registry.mainCursor = ((s.turnTo (c + 1)).nodes,
      if c + 1 < s.nodes.size then some (c + 1) else none) := by
    rw [Registry.next, hcursor]
    simp only [hmin]
    rfl
  by_cases hmore : c + 1 < s.nodes.size
  · rw [if_pos hmore] at hnext
    have heq : s.nextTurn.interface = ((s.turnTo (c + 1)).takeTurn (c + 1)).interface ∧
        s.nextTurn.trace = ((s.turnTo (c + 1)).takeTurn (c + 1)).trace := by
      simp [nextTurn, hcur, hnext, turnTo]
    rw [heq.1, heq.2]
    exact takeTurn_moves hs hmore hplace
  · rw [if_neg hmore] at hnext
    have heq : s.nextTurn = { value := false, interface :=
        { s with nodes := (s.turnTo (c + 1)).nodes, current := none } } := by
      simp [nextTurn, hcur, hnext]
    rw [heq]
    refine ⟨.finish (by omega) ?_ rfl, ⟨nofun, (List.length_set ..).symm ▸ hs.length⟩, le_rfl⟩
    show s.position = s.nodes.size
    omega

theorem turns_moves (hs : s.Turning) :
    s.Moves (s.firstTurn.orElse nextTurn).trace (s.firstTurn.orElse nextTurn).interface := by
  cases hcur : s.current with
  | none => exact firstTurn_moves hs hcur
  | some c =>
    have hnone : s.firstTurn.orElse nextTurn = s.nextTurn := by
      simp [firstTurn, hcur, Outcome.orElse]
    rw [hnone]
    exact nextTurn_moves hs hcur

/-! ### Every request -/

/-- The main loop alone moves the place in the round. -/
theorem perform_place (s : Interface) {req : Request} (hrun : ∀ accepts, req ≠ .run accepts) :
    (s.perform streams req).interface.current = s.current ∧
      (s.perform streams req).interface.nodes.cursors = s.nodes.cursors ∧
        s.nodes.size ≤ (s.perform streams req).interface.nodes.size := by
  by_cases hreq : req.isExchange
  · obtain ⟨ms, q, q', o, heq, -⟩ := @exchange_extent streams s req hreq
    rw [heq]
    exact ⟨rfl, rfl, le_rfl⟩
  · cases req with
    | run accepts => exact absurd rfl (hrun accepts)
    | register id params =>
      rcases s.register_cases id params with heq | heq
      · rw [perform, Outcome.interface_done, heq]
        exact ⟨rfl, rfl, le_rfl⟩
      · rw [perform, Outcome.interface_done, heq]
        exact ⟨rfl, rfl, by simp [Registry.size]⟩
    | receive f => exact ⟨rfl, rfl, le_rfl⟩
    | tick => exact ⟨rfl, rfl, (List.length_map ..).ge⟩
    | retain i x => exact ⟨rfl, rfl, (size_modify ..).ge⟩
    | revise i change => exact ⟨rfl, rfl, (size_modify ..).ge⟩
    | _ => exact absurd rfl hreq

theorem Beat.of_position {l : List Nat} (hplace : t.position = s.position) (h : Beat t u l) :
    Beat s u l := by
  cases h with
  | pause hp => exact .pause (hp.trans hplace)
  | turn hlt hp =>
    rw [hplace] at hlt hp ⊢
    exact .turn hlt hp
  | finish hpos hall hp => exact .finish (hplace ▸ hpos) (hplace ▸ hall) hp

theorem Aside.then_moves (h : Aside s es t) (h' : t.Moves fs u) : s.Moves (es ++ fs) u where
  beat := by
    rw [turnsOf_append, h.turns, List.nil_append]
    exact h'.beat.of_position (by rw [position, position, h.current])
  turning := h'.turning
  size_le := h.size_le.trans h'.size_le

theorem run_moves (hs : s.Turning) :
    s.Moves (s.run streams accepts).trace (s.run streams accepts).interface := by
  have hurgent := urgent_rel (R := Aside) Aside.trans resolveConflicts_aside (transmit_aside accepts)
    (transmitLogin_aside accepts) s
  have haside := orElse_rel (R := Aside) Aside.trans hurgent (sendMessages_aside streams)
  rw [run_eq, Outcome.orElse_assoc]
  generalize (s.urgent accepts).orElse (sendMessages streams) = o at haside ⊢
  unfold Outcome.orElse
  split
  · exact haside.moves hs
  · exact haside.then_moves (turns_moves (haside.moves hs).turning)

theorem perform_moves (streams : Bool) (hs : s.Turning) (req : Request) :
    s.Moves (s.perform streams req).trace (s.perform streams req).interface := by
  by_cases hrun : ∃ accepts, req = .run accepts
  · obtain ⟨accepts, rfl⟩ := hrun
    exact run_moves hs
  · have hrun : ∀ accepts, req ≠ .run accepts := fun accepts heq => hrun ⟨accepts, heq⟩
    have hturns : turnsOf (s.perform streams req).trace = [] := by
      refine turnsOf_eq_nil fun e he => ?_
      obtain ⟨f, rfl⟩ := s.shown_perform hrun e he
      rfl
    refine Aside.moves ?_ hs
    obtain ⟨hcurrent, hcursors, hsize⟩ := s.perform_place hrun
    exact ⟨hturns, hcurrent, hcursors, hsize⟩

/-! ### A whole run -/

theorem turns_append (s : Interface) (xs ys : List Request) :
    s.turns streams (xs ++ ys) = s.turns streams xs ++ (s.after streams xs).turns streams ys := by
  induction xs generalizing s with
  | nil => rfl
  | cons req xs ih =>
    rw [List.cons_append, turns, ih, turns, List.append_assoc]
    rfl

theorem turns_concat (s : Interface) (xs : List Request) (req : Request) :
    s.turns streams (xs ++ [req]) =
      s.turns streams xs ++ turnsOf ((s.after streams xs).perform streams req).trace := by
  rw [turns_append, turns, turns, List.append_nil]

theorem after_concat (s : Interface) (xs : List Request) (req : Request) :
    s.after streams (xs ++ [req]) = ((s.after streams xs).perform streams req).interface :=
  after_append s xs [req]

theorem Turning.after (streams : Bool) (hs : s.Turning) (reqs : List Request) :
    (s.after streams reqs).Turning := by
  induction reqs using List.reverseRecOn with
  | nil => exact hs
  | append_singleton reqs req ih =>
    rw [after_concat]
    exact (perform_moves streams ih req).turning

theorem Turning.position_le (hs : s.Turning) : s.position ≤ s.nodes.size := by
  unfold position
  split
  · rename_i c hc
    exact (hs.cursor c hc).2
  · exact Nat.zero_le _

/-- Requests that make up complete rounds, and how many nodes there were at the end of each. -/
inductive Rounds (streams : Bool) (s : Interface) : List Request → List Nat → Prop where
  | start : Rounds streams s [] []
  /-- All nodes that there are when the round ends have had one turn in it, in order. -/
  | next {before round : List Request} {ms : List Nat} : Rounds streams s before ms →
      0 < (s.after streams (before ++ round)).nodes.size →
      (s.after streams before).turns streams round =
        List.range (s.after streams (before ++ round)).nodes.size →
      Rounds streams s (before ++ round) (ms ++ [(s.after streams (before ++ round)).nodes.size])

theorem Rounds.turns_eq {reqs : List Request} {ms : List Nat} (h : s.Rounds streams reqs ms) :
    s.turns streams reqs = ms.flatMap List.range := by
  induction h with
  | start => rfl
  | next _ _ hturns ih => rw [turns_append, ih, hturns, List.flatMap_append, List.flatMap_singleton]

/-- From the beginning of a round on, requests make up complete rounds and the beginning of one. -/
theorem exists_rounds (hs : s.Turning) (hnone : s.current = none) (reqs : List Request) :
    ∃ before rest ms, reqs = before ++ rest ∧ s.Rounds streams before ms ∧
      (s.after streams before).turns streams rest =
        List.range (s.after streams reqs).position := by
  induction reqs using List.reverseRecOn with
  | nil =>
    refine ⟨[], [], [], rfl, .start, ?_⟩
    show [] = List.range s.position
    rw [position, hnone, List.range_zero]
  | append_singleton reqs req ih =>
    obtain ⟨before, rest, ms, rfl, hrounds, hrest⟩ := ih
    have hmoves := perform_moves streams (hs.after streams (before ++ rest)) req
    rw [← after_concat] at hmoves
    have hturns : (s.after streams before).turns streams (rest ++ [req]) =
        List.range (s.after streams (before ++ rest)).position ++
          turnsOf ((s.after streams (before ++ rest)).perform streams req).trace := by
      rw [turns_concat, hrest, ← after_append]
    have hbeat := hmoves.beat
    generalize turnsOf ((s.after streams (before ++ rest)).perform streams req).trace = l
      at hturns hbeat
    cases hbeat with
    | pause hplace =>
      exact ⟨before, rest ++ [req], ms, List.append_assoc .., hrounds, by
        rw [hturns, hplace, List.append_nil]⟩
    | turn hlt hplace =>
      exact ⟨before, rest ++ [req], ms, List.append_assoc .., hrounds, by
        rw [hturns, hplace, List.range_succ]⟩
    | finish hpos hall hplace =>
      rw [List.append_assoc] at hall hplace ⊢
      refine ⟨before ++ (rest ++ [req]), [], _, (List.append_nil _).symm,
        hrounds.next (hall ▸ hpos) ?_, ?_⟩
      · rw [hturns, List.append_nil, hall]
      · rw [hplace]
        rfl

/-! ### Between two turns of a node -/

theorem Turning.size_le_after (streams : Bool) (hs : s.Turning) (reqs : List Request) :
    s.nodes.size ≤ (s.after streams reqs).nodes.size := by
  induction reqs using List.reverseRecOn with
  | nil => exact le_rfl
  | append_singleton reqs req ih =>
    rw [after_concat]
    exact ih.trans (perform_moves streams (hs.after streams reqs) req).size_le

theorem Beat.of_mem {l : List Nat} {i : Nat} (h : Beat s t l) (hi : i ∈ l) :
    s.position = i ∧ t.position = i + 1 := by
  cases h with
  | pause _ | finish _ _ _ => cases hi
  | turn _ hplace =>
    obtain rfl := List.mem_singleton.1 hi
    exact ⟨rfl, hplace⟩

/-- The numbers behind `i` and then those in front of it: each number but `i` itself. -/
theorem count_around {i j k : Nat} (hj : j < k) (hne : j ≠ i) :
    (List.range' (i + 1) (k - (i + 1)) ++ List.range i).count j = 1 := by
  have hnodup : (List.range' (i + 1) (k - (i + 1)) ++ List.range i).Nodup := by
    refine List.nodup_append.2 ⟨List.nodup_range', List.nodup_range, fun a ha b hb => ?_⟩
    have ha := (List.mem_range'_1.1 ha).1
    have hb := List.mem_range.1 hb
    omega
  refine List.count_eq_one_of_mem hnodup (List.mem_append.2 ?_)
  rcases Nat.lt_or_gt_of_ne hne with hfront | hbehind
  · exact .inr (List.mem_range.2 hfront)
  · exact .inl (List.mem_range'_1.2 ⟨hbehind, by omega⟩)

/-- The turns since that of the node at `i`: first come the nodes behind it, to the end of the
round, and then those in front of it. -/
theorem turns_since {i : Nat} {mid : List Request} (hs : s.Turning) (hplace : s.position = i + 1)
    (hi : i ∉ s.turns streams mid) :
    (i < (s.after streams mid).position ∧ s.turns streams mid =
        List.range' (i + 1) ((s.after streams mid).position - (i + 1))) ∨
      ((s.after streams mid).position ≤ i ∧ ∃ k, s.nodes.size ≤ k ∧ s.turns streams mid =
        List.range' (i + 1) (k - (i + 1)) ++ List.range (s.after streams mid).position) := by
  have hlt : i < s.nodes.size := by
    have := hs.position_le
    omega
  induction mid using List.reverseRecOn with
  | nil =>
    left
    show i < s.position ∧ [] = List.range' (i + 1) (s.position - (i + 1))
    rw [hplace, Nat.sub_self]
    exact ⟨Nat.lt_succ_self i, rfl⟩
  | append_singleton mid req ih =>
    have hsize := hs.size_le_after streams (mid ++ [req])
    have hbeat := (perform_moves streams (hs.after streams mid) req).beat
    rw [turns_concat] at hi ⊢
    rw [after_concat] at hsize ⊢
    rw [List.mem_append, not_or] at hi
    have ih := ih hi.1
    generalize turnsOf ((s.after streams mid).perform streams req).trace = l at hi hbeat ⊢
    generalize ((s.after streams mid).perform streams req).interface = t at hsize hbeat ⊢
    generalize s.after streams mid = u at ih hbeat
    cases hbeat with
    | pause hsame => rwa [hsame, List.append_nil]
    | turn _ hnext =>
      have hne : i ≠ u.position := fun heq => hi.2 (heq ▸ List.mem_singleton_self _)
      rw [hnext]
      rcases ih with ⟨hbehind, hturns⟩ | ⟨hfront, k, hk, hturns⟩
      · refine .inl ⟨Nat.lt_succ_of_lt hbehind, ?_⟩
        have hcount : u.position + 1 - (i + 1) = u.position - (i + 1) + 1 := by omega
        have hlast : i + 1 + 1 * (u.position - (i + 1)) = u.position := by omega
        rw [hturns, hcount, List.range'_concat, hlast]
      · refine .inr ⟨by omega, k, hk, ?_⟩
        rw [hturns, List.range_succ, List.append_assoc]
    | finish _ hall hzero =>
      rw [hzero, List.append_nil]
      rcases ih with ⟨hbehind, hturns⟩ | ⟨hfront, -⟩
      · refine .inr ⟨Nat.zero_le i, u.position, hall ▸ hsize, ?_⟩
        rw [hturns, List.range_zero, List.append_nil]
      · -- the round goes on at least to the node at `i`
        omega

/-- Turns go round. -/
structure RoundRobin (streams : Bool) (s : Interface) : Prop where
  /-- The turns are those of complete rounds and of the beginning of one. -/
  rounds : ∀ reqs : List Request, ∃ before rest ms k, reqs = before ++ rest ∧
    s.Rounds streams before ms ∧
    (s.after streams before).turns streams rest = List.range k ∧
    k ≤ (s.after streams reqs).nodes.size ∧
    s.turns streams reqs = ms.flatMap List.range ++ List.range k
  /-- Between two turns of a node, every other node that was there before has one. -/
  between : ∀ (pre mid : List Request) (x y : Request) (i j : Nat),
    .turn i ∈ ((s.after streams pre).perform streams x).trace →
    i ∉ (s.after streams (pre ++ [x])).turns streams mid →
    .turn i ∈ ((s.after streams (pre ++ x :: mid)).perform streams y).trace →
    j < (s.after streams pre).nodes.size → j ≠ i →
    ((s.after streams (pre ++ [x])).turns streams mid).count j = 1

/-- **Turns in rounds.** Whatever an interface is asked to do, in whichever order, the nodes have
their turns in complete rounds, and none has two before another has one. -/
theorem serves_in_rounds (streams : Bool) : (empty streams).RoundRobin streams := by
  have hs := turning_empty streams
  refine ⟨fun reqs => ?_, fun pre mid x y i j hx hmid hy hj hne => ?_⟩
  · obtain ⟨before, rest, ms, heq, hrounds, hrest⟩ := exists_rounds hs rfl reqs
    refine ⟨before, rest, ms, _, heq, hrounds, hrest, (hs.after streams reqs).position_le, ?_⟩
    rw [heq, turns_append, hrounds.turns_eq, hrest, heq]
  · have hpre := hs.after streams pre
    have hfirst := perform_moves streams hpre x
    obtain ⟨-, hplace⟩ := hfirst.beat.of_mem (mem_turnsOf_iff.2 hx)
    have hsplit : pre ++ x :: mid = (pre ++ [x]) ++ mid := List.append_cons ..
    rw [hsplit, after_append] at hy
    rw [← after_concat] at hplace hfirst
    have hsecond := perform_moves streams (hfirst.turning.after streams mid) y
    obtain ⟨hback, -⟩ := hsecond.beat.of_mem (mem_turnsOf_iff.2 hy)
    rcases turns_since hfirst.turning hplace hmid with ⟨hbehind, -⟩ | ⟨-, k, hk, hturns⟩
    · omega
    · rw [hturns, hback]
      exact count_around (hj.trans_le (hfirst.size_le.trans hk)) hne

/-- A node that is added in the middle of a round has its turn in this round. -/
example : (empty false).turns false [.register 1 (.ofSupport 0), .run true,
    .register 2 (.ofSupport 0), .run true, .run true, .run true, .run true] = [0, 1, 0, 1] := by
  decide +kernel

end Interface

end LayoutBus
