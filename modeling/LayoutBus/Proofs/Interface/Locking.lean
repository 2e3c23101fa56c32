import LayoutBus.Proofs.Interface.Request
import LayoutBus.Proofs.Memory.Keyed
import LayoutBus.Outbox

/-!
# The lock

What an interface shares with reception and the clock is changed only while the lock is held, and
nobody outside is called meanwhile.

* `Resources.guarded` : what the lock guards.  The bytes of a message are not part of it; they
  belong to the owner of the buffer.
* `lockCalls`, `lockHeld` : the calls of the lock among the effects, and whether the last of them
  has taken it.
* `Orderly` and `Secluded` : the discipline of who takes the lock, and of who holds it already.
* `Interface.perform_disciplined` : **the lock.**  Every operation keeps the discipline, in every
  state.

The effects of an operation are stretches outside of the lock (`Orderly.of_lockFree`), in which
nothing guarded changes, and regions in between (`Orderly.region`), in which nobody is called.
Orderly effects that follow each other are orderly (`Orderly.append`), so each kind of work is
looked at once.
-/

namespace LayoutBus

/-! ### What the lock guards -/

/-- Which slots of a pool are in use, and what the pool counts of them. -/
def Pool.usage {α : Type} (p : Pool α) : List Bool × PoolStats :=
  (p.slots.map Slot.allocated, p.stats)

/-- What the lock guards. -/
structure Guarded where
  /-- The frames on their way out, with the buffers that hold them. -/
  outbox : Outbox
  ingress : Queue Handle Limits.messageDepth
  egress : Queue Handle Limits.messageDepth
  assemblies : Assemblies
  aliases : AliasTable
  /-- Which message buffers are in use, by size. -/
  buffers : SizeClass → List Bool × PoolStats

/-- The part of the shared state that the lock guards. -/
def Resources.guarded (r : Resources) : Guarded :=
  ⟨r.outbox, r.ingress, r.egress, r.assemblies, r.aliases, fun c => (r.messages.pool c).usage⟩

theorem Pool.usage_modify {α : Type} (p : Pool α) (i : Nat) (f : α → α) :
    (p.modify i f).usage = p.usage := by
  unfold modify
  split
  · have hmap : (p.slots.modify i fun s => { s with value := f s.value }).map Slot.allocated =
        p.slots.map Slot.allocated := map_modify fun _ _ => rfl
    simp only [usage, stats, capacity, hmap, List.length_modify]
  · rfl

/-- Writing into a message is no matter of the lock. -/
theorem Resources.guarded_edit (r : Resources) (h : Handle) (f : Message → Message) :
    { r with messages := r.messages.modify h f }.guarded = r.guarded := by
  simp only [guarded, Guarded.mk.injEq, true_and]
  funext c
  rw [MessageStore.modify, MessageStore.pool_setPool]
  split
  · rename_i hc
    rw [Pool.usage_modify, hc]
  · rfl

/-! ### The discipline -/

/-- A call of the lock. -/
inductive LockCall where
  | lock
  | unlock
deriving DecidableEq, Repr

namespace Effect

/-- The call of the lock that the effect shows. -/
def lockCall? : Effect → Option LockCall
  | lock _ => some .lock
  | unlock _ => some .unlock
  | _ => none

/-- The driver is called, or the application works for a node. -/
def callsOut : Effect → Bool
  | offer _ _ _ | sent _ | work _ => true
  | _ => false

/-- The shared state at the moment when the lock is taken. -/
def taken? : Effect → Option Resources
  | lock r => some r
  | _ => none

/-- The shared state at the moment when the lock is given back. -/
def givenBack? : Effect → Option Resources
  | unlock r => some r
  | _ => none

end Effect

/-- The calls of the lock, in order. -/
def lockCalls (es : List Effect) : List LockCall := es.filterMap Effect.lockCall?

/-- The lock is held after these effects. -/
def lockHeld (es : List Effect) : Bool := (lockCalls es).getLast? == some .lock

/-- The lock is taken and given back `n` times. -/
def lockRegions (n : Nat) : List LockCall := (List.replicate n [.lock, .unlock]).flatten

/-- The effects show no call of the lock. -/
def LockFree (es : List Effect) : Prop := ∀ e ∈ es, e.lockCall? = none

/-- The effects show neither a call of the lock nor one to the outside. -/
def Secluded (es : List Effect) : Prop := ∀ e ∈ es, e.lockCall? = none ∧ e.callsOut = false

/-- The effects between the shared states `r` and `t` handle the lock as they should. -/
structure Orderly (r : Resources) (es : List Effect) (t : Resources) : Prop where
  /-- The lock is taken and given back in turn, and free in the end. -/
  alternates : ∃ n, lockCalls es = lockRegions n
  /-- Nobody outside is called while the lock is held. -/
  outside : ∀ pre e post, es = pre ++ e :: post → e.callsOut = true → lockHeld pre = false
  /-- Whenever the lock is taken, what it guards is as it was when the lock was given back, and at
  first as it was in the beginning; so it is in the end.  All changes happen in between. -/
  guarded : (r :: es.filterMap Effect.givenBack?).map Resources.guarded =
    (es.filterMap Effect.taken? ++ [t]).map Resources.guarded

/-- The lock is held already when the request is made. -/
def Request.ownsLock : Request → Bool
  | .receive _ | .tick => true
  | _ => false

/-- The answer to a request in the state `s` handles the lock as it should. -/
structure Disciplined (req : Request) (s : Interface) (o : Outcome Unit) : Prop where
  /-- Who does not hold the lock takes it for every change. -/
  takes : req.ownsLock = false → Orderly s.resources o.trace o.interface.resources
  /-- Who holds the lock neither calls it again nor calls anybody outside. -/
  owns : req.ownsLock = true → Secluded o.trace

/-! ### Effects that follow each other -/

theorem lockCalls_append (es fs : List Effect) :
    lockCalls (es ++ fs) = lockCalls es ++ lockCalls fs := List.filterMap_append

theorem lockRegions_append (n k : Nat) :
    lockRegions n ++ lockRegions k = lockRegions (n + k) := by
  unfold lockRegions
  rw [← List.flatten_append, ← List.replicate_add]

/-- After whole regions the lock is free. -/
theorem getLast?_lockRegions (n : Nat) : (lockRegions n).getLast? ≠ some .lock := by
  cases n with
  | zero => simp [lockRegions]
  | succ n =>
    rw [← lockRegions_append n 1, List.getLast?_append]
    simp [lockRegions]

theorem lockHeld_append {es : List Effect} {n : Nat} (h : lockCalls es = lockRegions n)
    (pre : List Effect) : lockHeld (es ++ pre) = lockHeld pre := by
  unfold lockHeld
  rw [lockCalls_append, List.getLast?_append, h]
  cases (lockCalls pre).getLast? with
  | some c => rfl
  | none => exact beq_eq_false_iff_ne.2 (getLast?_lockRegions n)

/-- Two lists that are put together are split at an element of the first or of the second. -/
theorem append_eq_append_cons {α : Type} {xs ys pre post : List α} {a : α}
    (h : xs ++ ys = pre ++ a :: post) :
    (∃ mid, xs = pre ++ a :: mid) ∨ ∃ mid, pre = xs ++ mid ∧ ys = mid ++ a :: post := by
  rcases List.append_eq_append_iff.1 h with ⟨mid, hpre, hys⟩ | ⟨mid, hxs, hcons⟩
  · exact .inr ⟨mid, hpre, hys⟩
  · cases mid with
    | nil => exact .inr ⟨[], by simpa using hxs.symm, by simpa using hcons.symm⟩
    | cons b mid =>
      obtain ⟨rfl, -⟩ := List.cons.inj hcons
      exact .inl ⟨mid, hxs⟩

namespace Orderly

variable {r t u : Resources} {es fs : List Effect}

theorem lockCalls_of_lockFree (h : LockFree es) : lockCalls es = [] :=
  List.filterMap_eq_nil_iff.2 h

theorem snapshots_of_lockFree (h : LockFree es) :
    es.filterMap Effect.taken? = [] ∧ es.filterMap Effect.givenBack? = [] := by
  constructor <;>
  · refine List.filterMap_eq_nil_iff.2 fun e he => ?_
    have := h e he
    cases e <;> first | rfl | cases this

theorem of_lockFree (h : LockFree es) (hg : r.guarded = t.guarded) : Orderly r es t where
  alternates := ⟨0, lockCalls_of_lockFree h⟩
  outside pre e post heq _ := by
    have hpre : LockFree pre := fun x hx => h x (heq ▸ List.mem_append_left _ hx)
    rw [lockHeld, lockCalls_of_lockFree hpre]
    rfl
  guarded := by
    obtain ⟨htaken, hgiven⟩ := snapshots_of_lockFree h
    simp [htaken, hgiven, hg]

theorem nil (hg : r.guarded = t.guarded) : Orderly r [] t :=
  of_lockFree (fun _ he => absurd he List.not_mem_nil) hg

/-- Effects that follow each other. -/
theorem append (h : Orderly r es t) (h' : Orderly t fs u) : Orderly r (es ++ fs) u := by
  obtain ⟨n, hn⟩ := h.alternates
  obtain ⟨k, hk⟩ := h'.alternates
  refine ⟨⟨n + k, ?_⟩, fun pre e post heq he => ?_, ?_⟩
  · rw [lockCalls_append, hn, hk, lockRegions_append]
  · rcases append_eq_append_cons heq with ⟨mid, hes⟩ | ⟨mid, rfl, hfs⟩
    · exact h.outside pre e mid hes he
    · rw [lockHeld_append hn]
      exact h'.outside mid e post hfs he
  · have hes := h.guarded
    have hfs := h'.guarded
    simp only [List.map_cons, List.map_append, List.filterMap_append, List.map_nil] at hes hfs ⊢
    -- the state in the middle ends the first effects and begins the second
    calc r.guarded :: ((es.filterMap Effect.givenBack?).map Resources.guarded ++
          (fs.filterMap Effect.givenBack?).map Resources.guarded)
        = ((es.filterMap Effect.taken?).map Resources.guarded ++ [t.guarded]) ++
            (fs.filterMap Effect.givenBack?).map Resources.guarded := by
          rw [← hes, List.cons_append]
      _ = (es.filterMap Effect.taken?).map Resources.guarded ++
            ((fs.filterMap Effect.taken?).map Resources.guarded ++ [u.guarded]) := by
          rw [List.append_assoc, List.singleton_append, hfs]
      _ = _ := (List.append_assoc ..).symm

/-- What is done while the lock is held. -/
theorem region (h : Secluded es) : Orderly r (.lock r :: (es ++ [.unlock t])) t := by
  have hfree : LockFree es := fun e he => (h e he).1
  obtain ⟨htaken, hgiven⟩ := snapshots_of_lockFree hfree
  refine ⟨⟨1, ?_⟩, fun pre e post heq he => ?_, ?_⟩
  · have hcalls := lockCalls_of_lockFree hfree
    unfold lockCalls at hcalls ⊢
    simp [Effect.lockCall?, hcalls, lockRegions]
  · -- none of these effects is a call to the outside
    have hmem : e ∈ .lock r :: (es ++ [.unlock t]) := heq ▸ List.mem_append_cons_self
    simp only [List.mem_cons, List.mem_append, List.not_mem_nil, or_false] at hmem
    rcases hmem with rfl | hmem | rfl
    · cases he
    · cases he.symm.trans (h e hmem).2
    · cases he
  · simp only [List.filterMap_cons, List.filterMap_append, htaken, hgiven, Effect.taken?,
      Effect.givenBack?]
    rfl

end Orderly

namespace Interface

variable {streams accepts : Bool} {s : Interface}

/-- The operation on `s` handles the lock as it should, taking it by itself. -/
def LocksFor {α : Type} (s : Interface) (o : Outcome α) : Prop :=
  Orderly s.resources o.trace o.interface.resources

theorem locked_locksFor {α : Type} {step : Interface → Outcome α} (h : Secluded (step s).trace) :
    s.LocksFor (s.locked step) := .region h

theorem secluded_nil : Secluded [] := fun _ he => absurd he List.not_mem_nil

theorem update_locksFor (s : Interface) (f : Resources → Resources) : s.LocksFor (s.update f) :=
  locked_locksFor secluded_nil

/-! ### The kinds of work in a pass -/

theorem resolveConflicts_locksFor (s : Interface) : s.LocksFor s.resolveConflicts :=
  locked_locksFor secluded_nil

theorem fetch_locksFor (s : Interface) : s.LocksFor s.fetch := by
  unfold fetch
  split
  · exact .nil rfl
  · refine locked_locksFor ?_
    split <;> exact secluded_nil

/-- The driver is called before the buffer is freed. -/
theorem offer_locksFor (s : Interface) (accepts : Bool) (h : FrameHandle) :
    s.LocksFor (s.offer accepts h) := by
  unfold offer
  split
  · exact .nil rfl
  · rename_i f _
    split
    · have hcall : Orderly s.resources [.offer .outbox f true, .sent f] s.resources :=
        .of_lockFree (by simp [LockFree, Effect.lockCall?]) rfl
      exact hcall.append (s.update_locksFor _)
    · exact .of_lockFree (by simp [LockFree, Effect.lockCall?]) rfl

theorem transmit_locksFor (s : Interface) (accepts : Bool) : s.LocksFor (s.transmit accepts) := by
  have hfetch := s.fetch_locksFor
  unfold transmit
  simp only
  split
  · exact hfetch
  · exact hfetch.append (s.fetch.interface.offer_locksFor accepts _)

theorem transmitLogin_locksFor (s : Interface) (accepts : Bool) :
    s.LocksFor (s.transmitLogin accepts) := by
  unfold transmitLogin
  split
  · exact .nil rfl
  · split <;> exact .of_lockFree (by simp [LockFree, Effect.lockCall?]) rfl

/-- A frame that goes into the outbox is no call to the outside. -/
theorem continueMessage_locksFor (s : Interface) (o : Outgoing) :
    s.LocksFor (s.continueMessage streams o) := by
  unfold continueMessage
  split
  · exact .nil rfl
  · refine locked_locksFor ?_
    unfold segment
    split
    · exact secluded_nil
    · split
      · simp [Secluded, Effect.lockCall?, Effect.callsOut]
      · exact secluded_nil

theorem popEgress_locksFor (s : Interface) : s.LocksFor s.popEgress := by
  refine locked_locksFor ?_
  split <;> exact secluded_nil

theorem sendMessages_locksFor (s : Interface) : s.LocksFor (s.sendMessages streams) := by
  have hpop := s.popEgress_locksFor
  unfold sendMessages
  split
  · exact s.continueMessage_locksFor _
  · simp only
    split
    · exact hpop
    · split
      · exact hpop.append (s.popEgress.interface.continueMessage_locksFor _)
      · exact hpop.append (s.popEgress.interface.update_locksFor _)

theorem logIn_locksFor (s : Interface) (i : Nat) (n : Node) : s.LocksFor (s.logIn i n) := by
  refine locked_locksFor ?_
  simp [Secluded, Effect.lockCall?, Effect.callsOut]

/-- A node that is logged in has its turn while the lock is free. -/
theorem takeTurn_locksFor (s : Interface) (i : Nat) : s.LocksFor (s.takeTurn i) := by
  have hturn : Orderly s.resources [.turn i] s.resources :=
    .of_lockFree (by simp [LockFree, Effect.lockCall?]) rfl
  unfold takeTurn
  split
  · exact hturn
  · split
    · exact .of_lockFree (by simp [LockFree, Effect.lockCall?]) rfl
    · exact hturn.append (s.logIn_locksFor i _)

theorem run_locksFor (s : Interface) (accepts : Bool) : s.LocksFor (s.run streams accepts) :=
  run_rel (R := fun s es t => Orderly s.resources es t.resources) (fun hst htu => hst.append htu)
    resolveConflicts_locksFor (transmit_locksFor · accepts) (transmitLogin_locksFor · accepts)
    sendMessages_locksFor (fun _ _ _ => .nil rfl) takeTurn_locksFor s

/-! ### Requests of the application -/

theorem allocate_locksFor (s : Interface) (c : SizeClass) : s.LocksFor (s.allocate c) := by
  refine locked_locksFor ?_
  split <;> exact secluded_nil

theorem popIngress_locksFor (s : Interface) : s.LocksFor s.popIngress := by
  refine locked_locksFor ?_
  split <;> exact secluded_nil

theorem pushEgress_locksFor (s : Interface) (h : Handle) : s.LocksFor (s.pushEgress h) := by
  unfold pushEgress
  split
  · exact .nil rfl
  · refine locked_locksFor ?_
    split <;> exact secluded_nil

theorem edit_guarded (s : Interface) (h : Handle) (f : Message → Message) :
    s.resources.guarded = (s.edit h f).resources.guarded :=
  (s.resources.guarded_edit h f).symm

/-- A message is filled between two regions, and the buffer is given back in a third. -/
theorem send_locksFor (s : Interface) (i mti dest : Nat) (payload : List UInt8) :
    s.LocksFor (s.send i mti dest payload) := by
  have halloc := s.allocate_locksFor (sizeFor mti payload)
  unfold send
  split
  · exact .nil rfl
  · rename_i n _
    simp only
    split
    · exact halloc
    · rename_i h _
      have hedit := (s.allocate (sizeFor mti payload)).interface.edit_guarded h
        fun m => (m.load mti n.aliasId n.id dest 0).append payload
      have hfilled := halloc.append (.nil hedit)
      rw [List.append_nil] at hfilled
      split
      · exact hfilled.append (pushEgress_locksFor _ h)
      · exact (hfilled.append (pushEgress_locksFor _ h)).append (update_locksFor _ _)

theorem register_locksFor (s : Interface) (id : Nat) (params : NodeParameters) :
    s.LocksFor (s.register id params) := by
  unfold register
  split <;> exact .nil rfl

/-- Requests that do not own the lock take it themselves. -/
theorem perform_locksFor (s : Interface) {req : Request} (h : req.ownsLock = false) :
    s.LocksFor (s.perform streams req) := by
  cases req with
  | receive f => cases h
  | tick => cases h
  | register id params => exact s.register_locksFor id params
  | run accepts => exact s.run_locksFor accepts
  | allocate c => exact s.allocate_locksFor c
  | popIngress => exact s.popIngress_locksFor
  | pushEgress k => exact s.pushEgress_locksFor k
  | free k => exact s.update_locksFor _
  | edit k change => exact .nil (s.edit_guarded k change)
  | send i mti dest payload => exact s.send_locksFor i mti dest payload
  | retain i x => exact .nil rfl
  | revise i change => exact .nil rfl
  | clearPeaks => exact s.update_locksFor _

/-- Reception and the clock leave the lock alone. -/
theorem perform_secluded (s : Interface) {req : Request} (h : req.ownsLock = true) :
    Secluded (s.perform streams req).trace := by
  cases req with
  | receive f => simp [perform, receive, Secluded, Effect.lockCall?, Effect.callsOut]
  | tick => exact secluded_nil
  | _ => cases h

/-- **The lock.** Whatever is asked of an interface, in every state and whatever the driver answers,
the lock is taken and given back in turn and is free in the end, nobody outside is called while it
is held, and what it guards changes only meanwhile.  Reception and the clock run while it is
held. -/
theorem perform_disciplined (streams : Bool) (s : Interface) (req : Request) :
    Disciplined req s (s.perform streams req) :=
  ⟨perform_locksFor s, perform_secluded s⟩

/-- A pass over an interface without nodes looks for conflicts, frames and messages. -/
example : lockCalls ((empty false).run false true).trace = lockRegions 3 := by decide

end Interface

end LayoutBus
