import LayoutBus.Interface.Exchange
import LayoutBus.Interface.Run
import Mathlib.Data.List.Basic

/-!
# Requests to an interface

Whatever happens to an interface is a request: the application, the bus, the clock and the main
loop all make requests, in any order.  `Interface.perform` answers one.

The main loop does the most urgent work of six kinds, of which the first three come before messages
(`Interface.urgent`).  What every kind of work does, one pass does: `Interface.run_rel` for what relates
the states before and after to what was seen meanwhile, `Interface.run_invariant` for what is true
before and after.

A hook of the application that works for a node in its turn has the same effect as the requests
`Request.retain` and `Request.revise` after the pass, because its turn is the last thing that a
pass does.
-/

namespace LayoutBus

/-- What an interface can be asked to do. -/
inductive Request where
  | register (id : Nat) (params : NodeParameters)
  /-- A frame comes from the bus. -/
  | receive (f : Frame)
  /-- 100 ms have passed. -/
  | tick
  /-- One pass of the main loop, in which the driver accepts a frame or not. -/
  | run (accepts : Bool)
  | allocate (c : SizeClass)
  | popIngress
  | pushEgress (h : Handle)
  | free (h : Handle)
  /-- The application writes into a message. -/
  | edit (h : Handle) (change : Message → Message)
  | send (i mti dest : Nat) (payload : List UInt8)
  /-- The application sets the datagram that a node keeps. -/
  | retain (i : Nat) (h : Option Handle)
  /-- The application changes other fields of a node. -/
  | revise (i : Nat) (change : Node → Node)
  | clearPeaks

/-- The request is about messages of the application. -/
def Request.isExchange : Request → Bool
  | allocate _ | popIngress | pushEgress _ | free _ | edit .. | send .. | clearPeaks => true
  | _ => false

/-- The ticks that pass with the request. -/
def Request.ticks : Request → Nat
  | .tick => 1
  | _ => 0

/-- The outcome without its value. -/
def Outcome.done {α : Type} (o : Outcome α) : Outcome Unit :=
  { value := (), interface := o.interface, trace := o.trace }

@[simp] theorem Outcome.interface_done {α : Type} (o : Outcome α) :
    o.done.interface = o.interface := rfl

@[simp] theorem Outcome.trace_done {α : Type} (o : Outcome α) : o.done.trace = o.trace := rfl

namespace Interface

/-- The answer to a request. -/
def perform (streams : Bool) (s : Interface) : Request → Outcome Unit
  | .register id params => (s.register id params).done
  | .receive f => s.receive streams f
  | .tick => s.tick
  | .run accepts => (s.run streams accepts).done
  | .allocate c => (s.allocate c).done
  | .popIngress => s.popIngress.done
  | .pushEgress h => (s.pushEgress h).done
  | .free h => s.free h
  | .edit h change => { value := (), interface := s.edit h change }
  | .send i mti dest payload => (s.send i mti dest payload).done
  | .retain i h =>
    { value := (), interface := { s with nodes := s.nodes.modify i ({ · with retained := h }) } }
  | .revise i change => { value := (), interface := { s with nodes := s.nodes.modify i change } }
  | .clearPeaks => s.clearPeaks

/-- The interface after a list of requests. -/
def after (streams : Bool) (s : Interface) (reqs : List Request) : Interface :=
  reqs.foldl (fun s req => (s.perform streams req).interface) s

theorem after_append {streams : Bool} (s : Interface) (xs ys : List Request) :
    s.after streams (xs ++ ys) = (s.after streams xs).after streams ys :=
  List.foldl_append ..

/-! ### The kinds of work in a pass -/

section Pass

variable {streams accepts : Bool} {R : Interface → List Effect → Interface → Prop}

theorem orElse_rel {s : Interface} {o : Outcome Bool} {work : Interface → Outcome Bool}
    (comp : ∀ {s t u es fs}, R s es t → R t fs u → R s (es ++ fs) u)
    (ho : R s o.trace o.interface) (hw : ∀ t, R t (work t).trace (work t).interface) :
    R s (o.orElse work).trace (o.orElse work).interface := by
  unfold Outcome.orElse
  split
  · exact ho
  · exact comp ho (hw o.interface)

theorem first_eq (r : Registry) (key : Nat) :
    ∃ cursors, (r.first key).1 = { r with cursors } := by
  unfold Registry.first
  split
  · exact ⟨_, rfl⟩
  · exact ⟨r.cursors, rfl⟩

theorem next_eq (r : Registry) (key : Nat) : ∃ cursors, (r.next key).1 = { r with cursors } := by
  unfold Registry.next
  split
  · exact ⟨_, rfl⟩
  · exact ⟨r.cursors, rfl⟩

theorem firstTurn_rel (comp : ∀ {s t u es fs}, R s es t → R t fs u → R s (es ++ fs) u)
    (cursor : ∀ s cursors current, R s [] { s with nodes := { s.nodes with cursors }, current })
    (turn : ∀ s i, R s (s.takeTurn i).trace (s.takeTurn i).interface) (s : Interface) :
    R s s.firstTurn.trace s.firstTurn.interface := by
  obtain ⟨cursors, hc⟩ := first_eq s.nodes Registry.mainCursor
  unfold firstTurn
  split
  · exact cursor s s.nodes.cursors s.current
  · split
    · rename_i nodes hn
      rw [hn] at hc
      subst hc
      exact cursor s cursors s.current
    · rename_i nodes i hn
      rw [hn] at hc
      subst hc
      exact comp (cursor s cursors (some i)) (turn _ i)

theorem nextTurn_rel (comp : ∀ {s t u es fs}, R s es t → R t fs u → R s (es ++ fs) u)
    (cursor : ∀ s cursors current, R s [] { s with nodes := { s.nodes with cursors }, current })
    (turn : ∀ s i, R s (s.takeTurn i).trace (s.takeTurn i).interface) (s : Interface) :
    R s s.nextTurn.trace s.nextTurn.interface := by
  obtain ⟨cursors, hc⟩ := next_eq s.nodes Registry.mainCursor
  unfold nextTurn
  split
  · exact cursor s s.nodes.cursors s.current
  · split
    · rename_i nodes hn
      rw [hn] at hc
      subst hc
      exact cursor s cursors none
    · rename_i nodes i hn
      rw [hn] at hc
      subst hc
      exact comp (cursor s cursors (some i)) (turn _ i)

/-- The work of a pass that comes before messages. -/
def urgent (s : Interface) (accepts : Bool) : Outcome Bool :=
  (s.resolveConflicts.orElse (transmit · accepts)).orElse (transmitLogin · accepts)

/-- A pass starts with it, and goes on with messages when there was nothing to do. -/
theorem run_eq (streams accepts : Bool) (s : Interface) :
    s.run streams accepts =
      (((s.urgent accepts).orElse (sendMessages streams)).orElse firstTurn).orElse nextTurn := rfl

theorem urgent_rel (comp : ∀ {s t u es fs}, R s es t → R t fs u → R s (es ++ fs) u)
    (conflicts : ∀ s, R s s.resolveConflicts.trace s.resolveConflicts.interface)
    (frames : ∀ s, R s (s.transmit accepts).trace (s.transmit accepts).interface)
    (logins : ∀ s, R s (s.transmitLogin accepts).trace (s.transmitLogin accepts).interface)
    (s : Interface) : R s (s.urgent accepts).trace (s.urgent accepts).interface :=
  orElse_rel comp (orElse_rel comp (conflicts s) frames) logins

/-- What each kind of work does, a pass does. -/
theorem run_rel (comp : ∀ {s t u es fs}, R s es t → R t fs u → R s (es ++ fs) u)
    (conflicts : ∀ s, R s s.resolveConflicts.trace s.resolveConflicts.interface)
    (frames : ∀ s, R s (s.transmit accepts).trace (s.transmit accepts).interface)
    (logins : ∀ s, R s (s.transmitLogin accepts).trace (s.transmitLogin accepts).interface)
    (messages : ∀ s, R s (s.sendMessages streams).trace (s.sendMessages streams).interface)
    (cursor : ∀ s cursors current, R s [] { s with nodes := { s.nodes with cursors }, current })
    (turn : ∀ s i, R s (s.takeTurn i).trace (s.takeTurn i).interface) (s : Interface) :
    R s (s.run streams accepts).trace (s.run streams accepts).interface := by
  rw [run_eq]
  refine orElse_rel comp (orElse_rel comp (orElse_rel comp ?_ messages) ?_) ?_
  · exact urgent_rel comp conflicts frames logins s
  · exact firstTurn_rel comp cursor turn
  · exact nextTurn_rel comp cursor turn

/-- What each kind of work keeps, a pass keeps. -/
theorem run_invariant {P : Interface → Prop}
    (conflicts : ∀ s, P s → P s.resolveConflicts.interface)
    (frames : ∀ s, P s → P (s.transmit accepts).interface)
    (logins : ∀ s, P s → P (s.transmitLogin accepts).interface)
    (messages : ∀ s, P s → P (s.sendMessages streams).interface)
    (cursor : ∀ s cursors current, P s → P { s with nodes := { s.nodes with cursors }, current })
    (turn : ∀ s i, P s → P (s.takeTurn i).interface) {s : Interface} (h : P s) :
    P (s.run streams accepts).interface :=
  run_rel (R := fun s _ t => P s → P t) (fun hst htu hs => htu (hst hs)) conflicts frames logins
    messages cursor turn s h

end Pass

end Interface

end LayoutBus
