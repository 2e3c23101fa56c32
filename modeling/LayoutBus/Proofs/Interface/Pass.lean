import LayoutBus.Proofs.Interface.Concord
import LayoutBus.Proofs.Interface.Permission

/-!
# What one pass does

A pass of the main loop does one thing.  Which one it is says a lot about the state before: a login is
offered only when the outbox is idle, a message goes on only when no login waits, and a node has its
turn only when there is neither.

* `Interface.Pass` : the things that a pass can do, with what is known when it does them.
* `Interface.passes` : every pass does one of them.
-/

namespace LayoutBus

namespace Interface

variable {streams accepts : Bool} {s : Interface}

/-- What a pass can do, with the interface afterwards and what can be seen meanwhile. -/
inductive Pass (streams accepts : Bool) (s : Interface) : Interface → List Effect → Prop where
  | conflicts : Pass streams accepts s s.resolveConflicts.interface []
  | frame : Pass streams accepts s (s.transmit accepts).interface
      (shown (s.transmit accepts).trace)
  | login : Pass streams accepts s (s.transmitLogin accepts).interface
      (shown (s.transmitLogin accepts).trace)
  | message : s.loginFrame = none →
      Pass streams accepts s (s.sendMessages streams).interface
        (shown (s.sendMessages streams).trace)
  /-- A round ends, or there is no node. -/
  | rest (cursors : List Nat) (current : Option Nat) :
      Pass streams accepts s { s with nodes := { s.nodes with cursors }, current } []
  | turn (cursors : List Nat) (current : Option Nat) (i : Nat) : s.Idle → s.segmenting = none →
      s.loginFrame = none →
      Pass streams accepts s
        (takeTurn { s with nodes := { s.nodes with cursors }, current } i).interface
        (shown (takeTurn { s with nodes := { s.nodes with cursors }, current } i).trace)

theorem Pass.of_like {o p : Outcome Bool} (h : o.Like p)
    (hp : Pass streams accepts s p.interface (shown p.trace)) :
    Pass streams accepts s o.interface (shown o.trace) := by
  rw [h.interface, h.shown]
  exact hp

/-! ### Turns -/

section Turn

variable (hidle : s.Idle) (hseg : s.segmenting = none) (hlogin : s.loginFrame = none)
include hidle hseg hlogin

/-- A round starts. -/
theorem pass_firstTurn (hcur : s.current = none) :
    Pass streams accepts s (s.firstTurn.orElse nextTurn).interface
      (shown (s.firstTurn.orElse nextTurn).trace) := by
  obtain ⟨cursors, hc⟩ := first_eq s.nodes Registry.mainCursor
  cases hfirst : s.nodes.first Registry.mainCursor with
  | mk nodes x =>
    rw [hfirst] at hc
    obtain rfl : nodes = { s.nodes with cursors } := hc
    cases x with
    | none =>
      have heq : s.firstTurn.orElse nextTurn =
          { value := false
            interface := { s with nodes := { s.nodes with cursors }, current := none } } := by
        simp [firstTurn, nextTurn, Outcome.orElse, hcur, hfirst]
      rw [heq]
      exact .rest cursors none
    | some i =>
      have hv : s.firstTurn.value = true := by simp [firstTurn, hcur, hfirst]
      have heq : s.firstTurn.interface =
          (takeTurn { s with nodes := { s.nodes with cursors }, current := some i } i).interface ∧
        s.firstTurn.trace =
          (takeTurn { s with nodes := { s.nodes with cursors }, current := some i } i).trace := by
        simp [firstTurn, hcur, hfirst]
      rw [Outcome.orElse_of_true hv, heq.1, heq.2]
      exact .turn cursors (some i) i hidle hseg hlogin

/-- A round goes on, or ends. -/
theorem pass_nextTurn {c : Nat} (hcur : s.current = some c) :
    Pass streams accepts s s.nextTurn.interface (shown s.nextTurn.trace) := by
  obtain ⟨cursors, hc⟩ := next_eq s.nodes Registry.mainCursor
  cases hnext : s.nodes.next Registry.mainCursor with
  | mk nodes x =>
    rw [hnext] at hc
    obtain rfl : nodes = { s.nodes with cursors } := hc
    cases x with
    | none =>
      have heq : s.nextTurn =
          { value := false
            interface := { s with nodes := { s.nodes with cursors }, current := none } } := by
        simp [nextTurn, hcur, hnext]
      rw [heq]
      exact .rest cursors none
    | some i =>
      have heq : s.nextTurn.interface =
          (takeTurn { s with nodes := { s.nodes with cursors }, current := some i } i).interface ∧
        s.nextTurn.trace =
          (takeTurn { s with nodes := { s.nodes with cursors }, current := some i } i).trace := by
        simp [nextTurn, hcur, hnext]
      rw [heq.1, heq.2]
      exact .turn cursors (some i) i hidle hseg hlogin

/-- The turns of nodes, when there is nothing more urgent. -/
theorem pass_turns : Pass streams accepts s (s.firstTurn.orElse nextTurn).interface
    (shown (s.firstTurn.orElse nextTurn).trace) := by
  cases hcur : s.current with
  | none => exact pass_firstTurn hidle hseg hlogin hcur
  | some c =>
    have hnone : s.firstTurn = { value := false, interface := s } := by simp [firstTurn, hcur]
    have hlike : (s.firstTurn.orElse nextTurn).Like s.nextTurn :=
      Outcome.orElse_of_false (s := s) (by rw [hnone]) (by rw [hnone]) (by rw [hnone]; rfl)
    exact .of_like hlike (pass_nextTurn hidle hseg hlogin hcur)

end Turn

/-! ### One pass -/

/-- A message that can go on takes the pass. -/
theorem segmenting_of_sendMessages (hc : s.Covered) (hidle : s.Idle)
    (hv : (s.sendMessages streams).value = false) :
    s.segmenting = none ∧ (s.sendMessages streams).interface = s ∧
      shown (s.sendMessages streams).trace = [] := by
  cases hseg : s.segmenting with
  | some o =>
    have heq : s.sendMessages streams = s.continueMessage streams o := by
      rw [sendMessages, hseg]
    rw [heq] at hv
    cases hm : s.message? o.handle with
    | none =>
      have hnone : s.resources.messages.get? o.handle = none := hm
      rw [continueMessage] at hv
      rw [hnone] at hv
      cases hv
    | some m =>
      have htrue := continueMessage_value streams (q := s.resources.egress) hc hidle hm
      cases hv.symm.trans htrue
  | none =>
    rw [sendMessages] at hv ⊢
    rw [hseg] at hv ⊢
    simp only at hv ⊢
    cases hpop : s.resources.egress.pop with
    | none =>
      rw [popEgress_of_none hpop]
      exact ⟨trivial, rfl, rfl⟩
    | some p =>
      obtain ⟨k, q⟩ := p
      rw [popEgress_of_some hpop] at hv
      simp only at hv
      split at hv
      · rename_i hmay
        obtain ⟨m, hm, -⟩ := (Option.any_eq_true _ _).1 hmay
        have htrue := continueMessage_value streams (q := q) (o := ⟨k, 0, 0⟩) hc hidle hm
        cases hv.symm.trans htrue
      · cases hv

/-- Every pass of the main loop does one thing. -/
theorem passes (hc : s.Covered)
    (hflag : s.resources.aliases.hasDuplicate = false →
      s.resources.aliases.nextDuplicate? = none) (accepts : Bool) :
    Pass streams accepts s (s.run streams accepts).interface
      (shown (s.run streams accepts).trace) := by
  rcases run_cases streams accepts hflag with
    ⟨-, hlike⟩ | ⟨-, ⟨-, hlike⟩ | ⟨-, -, hlike⟩ | ⟨hidle, hlogin, hlike⟩⟩
  · exact .of_like hlike .conflicts
  · exact .of_like hlike .frame
  · exact .of_like hlike .login
  · refine .of_like hlike ?_
    cases hv : (s.sendMessages streams).value with
    | true =>
      rw [Outcome.orElse_of_true hv, Outcome.orElse_of_true hv]
      exact .message hlogin
    | false =>
      obtain ⟨hseg, hsame, hshown⟩ := segmenting_of_sendMessages hc hidle hv
      have hfirst : ((s.sendMessages streams).orElse firstTurn).Like s.firstTurn :=
        Outcome.orElse_of_false hv hsame hshown
      exact .of_like (hfirst.orElse nextTurn) (pass_turns hidle hseg hlogin)

theorem Harmony.passes (h : s.Harmony) (hc : s.Covered) (accepts : Bool) :
    Pass streams accepts s (s.run streams accepts).interface (shown (s.run streams accepts).trace) :=
  Interface.passes hc h.noted.nextDuplicate? accepts

end Interface

end LayoutBus
