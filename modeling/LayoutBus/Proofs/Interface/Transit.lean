import LayoutBus.Proofs.Interface.Frames
import LayoutBus.Proofs.Interface.Priority
import Mathlib.Data.List.Nodup
import Mathlib.Data.List.Perm.Subperm

/-!
# Frames in transit

A frame that has found room in the outbox is in transit until the driver accepts it.  Its buffer is
named by a handle, the handle waits in the queue and is taken from it for the driver, and the buffer
is used again as soon as it is free.

* `Outbox.Exact` : the buffers in use are those of the frames in transit, each held once.
* `Outbox.Gains` : an outbox with more frames at the back.
* `Interface.Ships` : what a step of an interface does to the frames in transit.
* `Interface.conserves` : **conservation.**  The frames that have found room are the frames that the
  driver has accepted, followed by those in transit.
-/

namespace LayoutBus

namespace Outbox

variable {o p q b : Outbox} {taken : List FrameHandle} {h k : FrameHandle} {f g : Frame}
  {fs gs : List Frame}

/-! ### Buffers -/

/-- The buffers in use are those of the frames that have been taken and of the frames that wait, and
no two of these share one. -/
structure Exact (o : Outbox) (taken : List FrameHandle) : Prop extends Covered o taken where
  stored : ∀ h ∈ taken ++ o.queue.toList, (o.frame? h).isSome
  nodup : (taken ++ o.queue.toList).Nodup

theorem exact_empty : empty.Exact [] where
  toCovered := covered_empty
  stored := by simp [empty, Queue.empty]
  nodup := List.nodup_nil

/-- The outbox with more frames at the back.  The frames of the other handles stay. -/
structure Gains (o p : Outbox) (fs : List Frame) : Prop where
  frames : p.frames = o.frames ++ fs
  kept : ∀ h f, o.frame? h = some f → p.frame? h = some f

theorem Gains.refl (o : Outbox) : o.Gains o [] := ⟨(List.append_nil _).symm, fun _ _ h => h⟩

theorem Gains.trans (hop : o.Gains p fs) (hpq : p.Gains q gs) : o.Gains q (fs ++ gs) where
  frames := by rw [hpq.frames, hop.frames, List.append_assoc]
  kept h f hf := hpq.kept h f (hop.kept h f hf)

/-- The frames among these that find room when they are put into the outbox in turn. -/
def admitted (o : Outbox) : List Frame → List Frame
  | [] => []
  | f :: fs => (if (o.post f).2 then [f] else []) ++ (o.post f).1.admitted fs

namespace Exact

/-- The handle of a buffer that was free is new. -/
theorem not_mem_of_allocate (he : o.Exact taken) (ha : o.allocate f = some (h, b)) :
    h ∉ taken ++ o.queue.toList := by
  intro hmem
  have hsome := he.stored h hmem
  rw [frame?_eq_none_of_allocate ha] at hsome
  cases hsome

/-- There are no more handles in the queue than frame buffers, and one of these is `h`. -/
theorem count_lt (he : o.Exact taken) (ha : o.allocate f = some (h, b)) :
    o.queue.count < Limits.frameDepth := by
  have hinUse : ∀ k ∈ o.queue.toList, k.index < Limits.frameDepth := by
    intro k hk
    obtain ⟨g, hg⟩ := Option.isSome_iff_exists.1 (he.stored k (List.mem_append_right _ hk))
    exact he.depth ▸ Pool.lt_capacity hg
  have hnew : h ∉ o.queue.toList := fun hmem =>
    he.not_mem_of_allocate ha (List.mem_append_right _ hmem)
  have hlt : h.index < Limits.frameDepth := by
    have hb : b.frame? h = some f := by rw [(allocate_spec ha).2.2, if_pos rfl]
    rw [← he.depth, ← (allocate_spec ha).2.1]
    exact Pool.lt_capacity hb
  -- the indexes of the handles in the queue and of `h` are distinct and below the depth
  have hnodup : ((h :: o.queue.toList).map FrameHandle.index).Nodup := by
    refine List.Nodup.map (fun x y hxy => ?_) (List.nodup_cons.2 ⟨hnew, he.nodup.of_append_right⟩)
    cases x; cases y; cases hxy; rfl
  have hsub : (h :: o.queue.toList).map FrameHandle.index ⊆ List.range Limits.frameDepth := by
    intro i hi
    obtain ⟨k, hk, rfl⟩ := List.mem_map.1 hi
    rcases List.mem_cons.1 hk with rfl | hk
    · exact List.mem_range.2 hlt
    · exact List.mem_range.2 (hinUse k hk)
  have hlen := (List.subperm_of_subset hnodup hsub).length_le
  rw [List.length_map, List.length_cons, List.length_range] at hlen
  exact hlen

/-- A frame that gets a buffer gets a place in the queue. -/
theorem enqueue (he : o.Exact taken) (ha : o.allocate f = some (h, b)) :
    ∃ q, b.queue.push h = some q ∧ Exact { b with queue := q } taken ∧
      o.Gains { b with queue := q } [f] := by
  obtain ⟨hqueue, -, hget⟩ := allocate_spec ha
  have hnew := he.not_mem_of_allocate ha
  have hold : ∀ k ∈ taken ++ o.queue.toList, b.frame? k = o.frame? k := by
    intro k hk
    have hne : k ≠ h := fun heq => hnew (heq ▸ hk)
    rw [hget, if_neg hne]
  cases hpush : b.queue.push h with
  | none =>
    have hcount := Queue.push_eq_none_iff.1 hpush
    rw [hqueue] at hcount
    exact absurd hcount (Nat.ne_of_lt (he.count_lt ha))
  | some q =>
    have hq : q.toList = o.queue.toList ++ [h] := hqueue ▸ Queue.toList_push hpush
    have hself : b.frame? h = some f := (hget h).trans (if_pos rfl)
    refine ⟨q, rfl, ⟨(he.toCovered.allocate ha).push hpush, fun k hk => ?_, ?_⟩, ?_, fun k g hg => ?_⟩
    · show (b.frame? k).isSome
      rw [hq, ← List.append_assoc] at hk
      rcases List.mem_append.1 hk with hk | hk
      · rw [hold k hk]
        exact he.stored k hk
      · rw [List.mem_singleton.1 hk, hself]
        rfl
    · show (taken ++ q.toList).Nodup
      rw [hq, ← List.append_assoc]
      exact List.nodup_append.2 ⟨he.nodup, List.nodup_singleton h, fun k hk k' hk' heq =>
        hnew (List.mem_singleton.1 hk' ▸ heq ▸ hk)⟩
    · show q.toList.filterMap b.frame? = _
      rw [hq, List.filterMap_append, List.filterMap_cons_some hself]
      exact congrArg (· ++ [f])
        (List.filterMap_congr fun k hk => hold k (List.mem_append_right _ hk))
    · have hne : k ≠ h := by
        rintro rfl
        rw [frame?_eq_none_of_allocate ha] at hg
        cases hg
      exact ((hget k).trans (if_neg hne)).trans hg

theorem post (he : o.Exact taken) (f : Frame) :
    (o.post f).1.Exact taken ∧ o.Gains (o.post f).1 (if (o.post f).2 then [f] else []) := by
  unfold Outbox.post
  cases ha : o.allocate f with
  | none => exact ⟨he, .refl o⟩
  | some p =>
    obtain ⟨h, b⟩ := p
    obtain ⟨q, hpush, hexact, hgains⟩ := he.enqueue ha
    simp only [hpush]
    exact ⟨hexact, hgains⟩

theorem postAll (he : o.Exact taken) (fs : List Frame) :
    (o.postAll fs).Exact taken ∧ o.Gains (o.postAll fs) (o.admitted fs) := by
  induction fs generalizing o with
  | nil => exact ⟨he, .refl o⟩
  | cons f fs ih =>
    obtain ⟨hexact, hgains⟩ := he.post f
    obtain ⟨hexact', hgains'⟩ := ih hexact
    exact ⟨hexact', hgains.trans hgains'⟩

theorem offer (he : o.Exact taken) (ho : o.offer f = some p) : p.Exact taken ∧ o.Gains p [f] := by
  unfold Outbox.offer at ho
  split at ho
  · cases ho
  · cases ha : o.allocate f with
    | none =>
      rw [ha] at ho
      cases ho
    | some x =>
      obtain ⟨h, b⟩ := x
      obtain ⟨q, hpush, hexact, hgains⟩ := he.enqueue ha
      simp only [ha, hpush, Option.some.injEq] at ho
      exact ho ▸ ⟨hexact, hgains⟩

/-- The frame at the front is taken. -/
theorem pop (he : o.Exact []) (hp : o.pop = some (h, p)) :
    p.Exact [h] ∧ ∃ f, p.frame? h = some f ∧ o.frames = f :: p.frames := by
  have hframe := frame?_pop hp
  have hcovered := he.toCovered.pop hp
  unfold Outbox.pop at hp
  split at hp
  · rename_i k queue hq
    cases hp
    have hqueue := Queue.pop_eq_some_iff.1 hq
    have hstored := he.stored
    have hnodup := he.nodup
    rw [hqueue] at hstored hnodup
    refine ⟨⟨hcovered, fun k hk => hstored k hk, hnodup⟩, ?_⟩
    obtain ⟨f, hf⟩ := Option.isSome_iff_exists.1 (hstored h List.mem_cons_self)
    refine ⟨f, hf, ?_⟩
    unfold frames
    rw [hqueue, List.filterMap_cons_some hf]
    rfl
  · cases hp

/-- The frame that was taken is gone. -/
theorem free (he : o.Exact [h]) : (o.free h).Exact [] ∧ (o.free h).frames = o.frames := by
  have hnodup := he.nodup
  rw [List.singleton_append] at hnodup
  obtain ⟨hnew, hnodup⟩ := List.nodup_cons.1 hnodup
  have hold : ∀ k ∈ o.queue.toList, (o.free h).frame? k = o.frame? k := by
    intro k hk
    have hne : k ≠ h := fun heq => hnew (heq ▸ hk)
    rw [frame?_free, if_neg hne]
  refine ⟨⟨he.toCovered.free, fun k hk => ?_, hnodup⟩, List.filterMap_congr hold⟩
  rw [hold k hk]
  exact he.stored k (List.mem_append_right _ hk)

theorem clearPeak (he : o.Exact taken) : Exact { o with buffers := o.buffers.clearPeak } taken :=
  ⟨he.toCovered.clearPeak, he.stored, he.nodup⟩

end Exact

end Outbox

/-- The frames of messages that have gone into the outbox. -/
def segments (es : List Effect) : List Frame :=
  es.filterMap fun
    | .segment _ f => some f
    | _ => none

/-- The frames of the outbox that the driver has accepted. -/
def carried (es : List Effect) : List Frame :=
  es.filterMap fun
    | .offer .outbox f true => some f
    | _ => none

section Trace

variable {es : List Effect}

theorem segments_append (es fs : List Effect) : segments (es ++ fs) = segments es ++ segments fs :=
  List.filterMap_append ..

theorem carried_append (es fs : List Effect) : carried (es ++ fs) = carried es ++ carried fs :=
  List.filterMap_append ..

/-- The lock is no matter of frames. -/
theorem segments_shown (es : List Effect) : segments (shown es) = segments es := by
  unfold segments shown
  rw [List.filterMap_filter]
  refine List.filterMap_congr fun e _ => ?_
  cases e <;> rfl

theorem carried_shown (es : List Effect) : carried (shown es) = carried es := by
  unfold carried shown
  rw [List.filterMap_filter]
  refine List.filterMap_congr fun e _ => ?_
  cases e <;> rfl

/-- A frame from the bus is neither. -/
theorem frameless_of_received (h : ∀ e ∈ shown es, ∃ f, e = .received f) :
    segments es = [] ∧ carried es = [] := by
  rw [← segments_shown, ← carried_shown]
  constructor <;> refine List.filterMap_eq_nil_iff.2 fun e he => ?_
  all_goals
    obtain ⟨f, rfl⟩ := h e he
    rfl

end Trace

namespace Interface

variable {streams accepts : Bool} {s t u : Interface} {es fs : List Effect} {req : Request}

/-! ### Frames in transit -/

/-- The frames that wait for the driver, in the order in which they are offered to it. -/
def inTransit (s : Interface) : List Frame :=
  (s.transmitting.bind s.resources.outbox.frame?).toList ++ s.resources.outbox.frames

/-- The frame buffers in use are those of the frames in transit. -/
def Exact (s : Interface) : Prop := s.resources.outbox.Exact s.transmitting.toList

/-- The frames in transit, and those that come in, are accepted in order or remain. -/
structure Ships (s : Interface) (es : List Effect) (t : Interface) : Prop where
  exact : t.Exact
  order : s.inTransit ++ segments es = carried es ++ t.inTransit

namespace Ships

/-- The outbox is left alone. -/
theorem of_same (he : s.Exact) (htaken : t.transmitting = s.transmitting)
    (houtbox : t.resources.outbox = s.resources.outbox) (hin : segments es = [])
    (hout : carried es = []) : s.Ships es t where
  exact := by
    rw [Exact, htaken, houtbox]
    exact he
  order := by
    rw [hin, hout, List.append_nil, List.nil_append, inTransit, inTransit, htaken, houtbox]

theorem trans (hst : s.Ships es t) (htu : t.Ships fs u) : s.Ships (es ++ fs) u where
  exact := htu.exact
  order := by
    rw [segments_append, ← List.append_assoc, hst.order, List.append_assoc, htu.order,
      carried_append, List.append_assoc]

/-- What two steps need of the outbox is what the first needs. -/
theorem comp (hst : s.Exact → s.Ships es t) (htu : t.Exact → t.Ships fs u) (he : s.Exact) :
    s.Ships (es ++ fs) u := (hst he).trans (htu (hst he).exact)

end Ships

/-- More frames wait at the back. -/
theorem inTransit_of_gains {gs : List Frame} (he : s.Exact)
    (htaken : t.transmitting = s.transmitting)
    (hg : s.resources.outbox.Gains t.resources.outbox gs) : t.inTransit = s.inTransit ++ gs := by
  rw [inTransit, inTransit, htaken, hg.frames, List.append_assoc]
  congr 1
  cases ht : s.transmitting with
  | none => rfl
  | some h =>
    have hmem : h ∈ s.transmitting.toList ++ s.resources.outbox.queue.toList := by simp [ht]
    obtain ⟨f, hf⟩ := Option.isSome_iff_exists.1 (he.stored h hmem)
    rw [Option.bind_some, Option.bind_some, hf, hg.kept h f hf]

/-! ### The main loop -/

/-- The lock is no matter of frames. -/
theorem locked_ships {α : Type} {step : Interface → Outcome α}
    (h : s.Ships (step s).trace (step s).interface) :
    s.Ships (s.locked step).trace (s.locked step).interface where
  exact := h.exact
  order := by
    rw [← segments_shown, ← carried_shown, shown_locked, segments_shown, carried_shown]
    exact h.order

theorem giveUpAll_ships (he : s.Exact) (n : Nat) : s.Ships [] (giveUpAll n s) := by
  induction n generalizing s with
  | zero => exact .of_same he rfl rfl rfl rfl
  | succ n ih =>
    unfold giveUpAll
    split
    · exact (Ships.of_same he rfl rfl rfl rfl : s.Ships [] (s.giveUp _)).trans (ih he)
    · exact .of_same he rfl rfl rfl rfl

theorem resolveConflicts_ships (he : s.Exact) :
    s.Ships s.resolveConflicts.trace s.resolveConflicts.interface :=
  locked_ships (.trans (giveUpAll_ships he _) (.of_same (giveUpAll_ships he _).exact rfl rfl rfl rfl))

theorem fetch_ships (he : s.Exact) : s.Ships s.fetch.trace s.fetch.interface := by
  unfold fetch
  split
  · exact .of_same he rfl rfl rfl rfl
  · rename_i hnone
    refine locked_ships ?_
    simp only
    split
    · rename_i h outbox hp
      have he' : s.resources.outbox.Exact [] := by
        rw [Exact, hnone] at he
        exact he
      obtain ⟨hexact, f, hf, hframes⟩ := he'.pop hp
      refine ⟨hexact, ?_⟩
      rw [inTransit, hnone, hframes, inTransit, Option.bind_some, hf]
      exact List.append_nil _
    · exact .of_same he rfl rfl rfl rfl

theorem offer_ships {h : FrameHandle} (he : s.Exact) (htaken : s.transmitting = some h) :
    s.Ships (s.offer accepts h).trace (s.offer accepts h).interface := by
  have he' : s.resources.outbox.Exact [h] := by
    rw [Exact, htaken] at he
    exact he
  obtain ⟨f, hf⟩ := Option.isSome_iff_exists.1
    (he'.stored h (List.mem_append_left _ (List.mem_singleton_self h)))
  unfold offer
  rw [hf]
  cases accepts with
  | false => exact .of_same he rfl rfl rfl rfl
  | true =>
    obtain ⟨hexact, hframes⟩ := he'.free
    refine ⟨hexact, ?_⟩
    rw [inTransit, htaken, Option.bind_some, hf, List.append_assoc]
    exact congrArg (f :: ·) ((List.append_nil _).trans hframes.symm)

theorem transmit_ships (he : s.Exact) :
    s.Ships (s.transmit accepts).trace (s.transmit accepts).interface := by
  have hfetch := fetch_ships he
  unfold transmit
  simp only
  split
  · exact hfetch
  · rename_i h hh
    exact hfetch.trans (offer_ships hfetch.exact hh)

theorem transmitLogin_ships (he : s.Exact) :
    s.Ships (s.transmitLogin accepts).trace (s.transmitLogin accepts).interface := by
  unfold transmitLogin
  split
  · exact .of_same he rfl rfl rfl rfl
  · split <;> exact .of_same he rfl rfl rfl rfl

theorem settle_ships (he : s.Exact) (o : Outgoing) (m : Message) : s.Ships [] (s.settle o m) := by
  unfold settle
  split <;> exact .of_same he rfl rfl rfl rfl

theorem segment_ships (he : s.Exact) (o : Outgoing) (m : Message) :
    s.Ships (s.segment streams o m).trace (s.segment streams o m).interface := by
  unfold segment
  split
  · exact settle_ships he _ m
  · rename_i f n _
    split
    · rename_i outbox hoffer
      obtain ⟨hexact, hgains⟩ := Outbox.Exact.offer he hoffer
      have hput : s.Ships [.segment o.handle f]
          { s with resources := { s.resources with outbox } } :=
        ⟨hexact, (inTransit_of_gains (t := { s with resources := { s.resources with outbox } }) he rfl
          hgains).symm⟩
      exact hput.trans (settle_ships hput.exact _ m)
    · exact settle_ships he _ m

theorem continueMessage_ships (he : s.Exact) (o : Outgoing) :
    s.Ships (s.continueMessage streams o).trace (s.continueMessage streams o).interface := by
  unfold continueMessage
  split
  · exact .of_same he rfl rfl rfl rfl
  · exact locked_ships (segment_ships he o _)

theorem sendMessages_ships (he : s.Exact) :
    s.Ships (s.sendMessages streams).trace (s.sendMessages streams).interface := by
  unfold sendMessages
  split
  · exact continueMessage_ships he _
  · cases hpop : s.resources.egress.pop with
    | none =>
      rw [popEgress_of_none hpop]
      exact .of_same he rfl rfl rfl rfl
    | some p =>
      obtain ⟨h, q⟩ := p
      rw [popEgress_of_some hpop]
      simp only
      have hpopped : s.Ships [.lock s.resources, .unlock { s.resources with egress := q }]
          { s with resources := { s.resources with egress := q } } := .of_same he rfl rfl rfl rfl
      split
      · exact hpopped.trans (continueMessage_ships hpopped.exact _)
      · exact .of_same he rfl rfl rfl rfl

theorem takeTurn_ships (he : s.Exact) (i : Nat) :
    s.Ships (s.takeTurn i).trace (s.takeTurn i).interface := by
  unfold takeTurn
  split
  · exact .of_same he rfl rfl rfl rfl
  · split
    · exact .of_same he rfl rfl rfl rfl
    · refine .of_same he rfl rfl ?_ ?_ <;> simp [logIn, locked, segments, carried]

theorem run_ships (he : s.Exact) :
    s.Ships (s.run streams accepts).trace (s.run streams accepts).interface :=
  run_rel (R := fun s es t => s.Exact → s.Ships es t) Ships.comp (fun _ => resolveConflicts_ships)
    (fun _ => transmit_ships) (fun _ => transmitLogin_ships) (fun _ => sendMessages_ships)
    (fun _ _ _ he => .of_same he rfl rfl rfl rfl) (fun _ i he => takeTurn_ships he i) s he

/-! ### Requests -/

/-- The frames that a request brings into the outbox: answers to a frame from the bus, each if there
is room, and frames of messages. -/
def admitted (streams : Bool) (s : Interface) (req : Request) : List Frame :=
  match req with
  | .receive f => s.resources.outbox.admitted (s.resources.answers f)
  | _ => segments (s.perform streams req).trace

theorem perform_exact (streams : Bool) (he : s.Exact) (req : Request) :
    (s.perform streams req).interface.Exact ∧
      s.inTransit ++ s.admitted streams req =
        carried (s.perform streams req).trace ++ (s.perform streams req).interface.inTransit := by
  by_cases hrec : ∃ f, req = .receive f
  · obtain ⟨f, rfl⟩ := hrec
    obtain ⟨hexact, hgains⟩ := Outbox.Exact.postAll he (s.resources.answers f)
    rw [← Resources.outbox_receive streams] at hexact hgains
    exact ⟨hexact, (inTransit_of_gains (t := (s.receive streams f).interface) he rfl hgains).symm⟩
  have hadmitted : s.admitted streams req = segments (s.perform streams req).trace := by
    cases req with
    | receive f => exact absurd ⟨f, rfl⟩ hrec
    | _ => rfl
  suffices s.Ships (s.perform streams req).trace (s.perform streams req).interface from
    ⟨this.exact, hadmitted ▸ this.order⟩
  by_cases hrun : ∃ accepts, req = .run accepts
  · obtain ⟨accepts, rfl⟩ := hrun
    exact run_ships he
  · have hnone : ∀ accepts, req ≠ .run accepts := fun accepts heq => hrun ⟨accepts, heq⟩
    obtain ⟨-, -, hheld, houtbox⟩ := @perform_aside streams s req (fun f heq => hrec ⟨f, heq⟩) hnone
    have hquiet : ∀ e ∈ shown (s.perform streams req).trace, ∃ f, e = .received f :=
      s.shown_perform hnone
    obtain ⟨hin, hout⟩ := frameless_of_received hquiet
    rcases houtbox with heq | heq
    · exact .of_same he hheld heq hin hout
    · refine ⟨?_, ?_⟩
      · rw [Exact, hheld, heq]
        exact Outbox.Exact.clearPeak he
      · rw [hin, hout, List.append_nil, inTransit, inTransit, hheld, heq]
        rfl

/-! ### Runs -/

/-- The frames that have found room in the outbox while the requests were made. -/
def admittedAll (streams : Bool) (s : Interface) : List Request → List Frame
  | [] => []
  | req :: reqs =>
    s.admitted streams req ++ (s.perform streams req).interface.admittedAll streams reqs

/-- The frames of the outbox that the driver has accepted while the requests were made. -/
def carriedAll (streams : Bool) (s : Interface) : List Request → List Frame
  | [] => []
  | req :: reqs =>
    carried (s.perform streams req).trace ++
      (s.perform streams req).interface.carriedAll streams reqs

theorem after_exact (streams : Bool) (he : s.Exact) (reqs : List Request) :
    (s.after streams reqs).Exact ∧
      s.inTransit ++ s.admittedAll streams reqs =
        s.carriedAll streams reqs ++ (s.after streams reqs).inTransit := by
  induction reqs generalizing s with
  | nil => exact ⟨he, List.append_nil _⟩
  | cons req reqs ih =>
    obtain ⟨hexact, horder⟩ := perform_exact streams he req
    obtain ⟨hexact', horder'⟩ := ih hexact
    refine ⟨hexact', ?_⟩
    calc s.inTransit ++ s.admittedAll streams (req :: reqs)
      _ = s.inTransit ++ s.admitted streams req ++ _ := (List.append_assoc ..).symm
      _ = carried (s.perform streams req).trace ++
            ((s.perform streams req).interface.inTransit ++ _) := by
        rw [horder, List.append_assoc]
      _ = carried (s.perform streams req).trace ++ (_ ++ (s.after streams (req :: reqs)).inTransit) :=
        congrArg _ horder'
      _ = s.carriedAll streams (req :: reqs) ++ (s.after streams (req :: reqs)).inTransit :=
        (List.append_assoc ..).symm

theorem urgent_ships (accepts : Bool) (he : s.Exact) :
    s.Ships (s.urgent accepts).trace (s.urgent accepts).interface :=
  urgent_rel (R := fun s es t => s.Exact → s.Ships es t) Ships.comp (fun _ => resolveConflicts_ships)
    (fun _ => transmit_ships) (fun _ => transmitLogin_ships) s he

/-- When it is the turn of messages, no frame is in transit. -/
theorem idle_of_urgent (hv : (s.urgent accepts).value = false) :
    (s.urgent accepts).interface.Idle := by
  obtain ⟨hv, hlogin, heq⟩ := Outcome.of_orElse_eq_false hv
  obtain ⟨-, htransmit, heq'⟩ := Outcome.of_orElse_eq_false hv
  have hidle := (transmit_value _).1 htransmit
  rw [transmitLogin_value, Option.isSome_eq_false_iff, Option.isNone_iff_eq_none] at hlogin
  rw [transmitLogin_of_none hlogin] at heq
  rw [urgent, heq, heq', (transmit_of_idle hidle).1]
  exact hidle

/-- What has become of the frames `ins` that have found room in the outbox, when the driver has accepted
`outs`. -/
structure Conserves (s : Interface) (ins outs : List Frame) : Prop where
  /-- They have been accepted in the order in which they found room, or they are in transit in this
  order. -/
  order : ins = outs ++ s.inTransit
  /-- The frame buffers in use are those of the frames in transit. -/
  in_use_iff : ∀ h, (s.resources.outbox.frame? h).isSome ↔
    h ∈ s.transmitting.toList ++ s.resources.outbox.queue.toList
  /-- No two frames in transit share a buffer. -/
  nodup : (s.transmitting.toList ++ s.resources.outbox.queue.toList).Nodup
  /-- A frame that gets a buffer gets a place in the queue, also between two answers. -/
  queued : ∀ fs f h b, (s.resources.outbox.postAll fs).allocate f = some (h, b) →
    ∃ q, b.queue.push h = some q
  /-- There is room for a frame of a message whenever it is the turn of messages. -/
  room : ∀ accepts, (s.urgent accepts).value = false → ∀ f,
    ∃ b, (s.urgent accepts).interface.resources.outbox.offer f = some b

/-- **Conservation.** In whichever order frames come from the bus, passes are made and other requests
are answered, and whatever the driver refuses: of the frames that have found room in the outbox none is
lost, repeated, changed or overtaken. -/
theorem conserves (streams : Bool) (reqs : List Request) :
    ((empty streams).after streams reqs).Conserves ((empty streams).admittedAll streams reqs)
      ((empty streams).carriedAll streams reqs) := by
  obtain ⟨hexact, horder⟩ := after_exact streams (s := empty streams)
    Outbox.exact_empty reqs
  refine ⟨horder, fun h => ⟨fun hh => ?_, hexact.stored h⟩, hexact.nodup, fun fs f h b ha => ?_,
    fun accepts hv f => ?_⟩
  · exact List.perm_append_comm.mem_iff.1 (hexact.covered h hh)
  · obtain ⟨q, hq, -⟩ := (Outbox.Exact.postAll hexact fs).1.enqueue ha
    exact ⟨q, hq⟩
  · obtain ⟨htaken, hqueue⟩ := idle_of_urgent hv
    have hcovered := (urgent_ships accepts hexact).exact.toCovered
    rw [htaken] at hcovered
    exact hcovered.offer_isSome hqueue f

end Interface

end LayoutBus
