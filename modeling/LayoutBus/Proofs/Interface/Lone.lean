import LayoutBus.Proofs.Interface.Transcript

/-!
# The login of a single node

An interface with one node does nothing but its login: a round has one turn, and a frame that the turn
leaves is offered before the round ends.  A long login is followed round by round.

* `Interface.Leads` : requests that lead from one state to another, with what is written down meanwhile.
* `Interface.lone` : an interface with a single node, which has the alias 1.
* `Interface.lone_offers`, `Interface.lone_rests`, `Interface.lone_turns` and `Interface.lone_ticks` :
  what a single pass or the clock does to it.
* `Interface.lone_sends` : a round in which the login goes on by a frame.
-/

namespace LayoutBus

namespace Interface

/-- The requests lead from `s` to `t`, and `os` is written down meanwhile. -/
structure Leads (streams : Bool) (s : Interface) (reqs : List Request) (t : Interface)
    (os : List Occurrence) : Prop where
  after : s.after streams reqs = t
  transcript : s.transcript streams reqs = os

section Leads

variable {streams accepts : Bool} {s t u : Interface} {xs ys : List Request}
  {os ps : List Occurrence}

theorem Leads.append (hst : Leads streams s xs t os) (htu : Leads streams t ys u ps) :
    Leads streams s (xs ++ ys) u (os ++ ps) where
  after := by rw [after_append, hst.after, htu.after]
  transcript := by rw [transcript_append, hst.after, hst.transcript, htu.transcript]

theorem leads_of_like {o : Outcome Bool} (h : (s.run streams accepts).Like o) :
    Leads streams s [.run accepts] o.interface ((shown o.trace).map .seen) where
  after := h.interface
  transcript := by
    rw [← h.shown]
    exact List.append_nil _

end Leads

/-- The alias 1 belongs to the node 1. -/
def loneAlias : AliasTable := ⟨[⟨1, 1, false, false⟩], false⟩

/-- An interface with a single node, which has the alias 1. -/
def lone (streams : Bool) (n : Node) (frame : Option Frame) (current : Option Nat) : Interface where
  resources := { Resources.empty streams with aliases := loneAlias }
  nodes := ⟨[n], Registry.empty.cursors.set Registry.mainCursor (current.getD 1)⟩
  loginFrame := frame
  current

/-- The node 1 with the alias 1, in a phase of its login. -/
def applicant (phase : Phase) (ticks : Nat) : Node :=
  { Node.create 1 (.ofSupport 0) with aliasId := 1, seed := 1, phase, ticks }

variable {streams accepts : Bool} {n m : Node} {frame : Option Frame} {f : Frame} {c : Nat}

/-! ### One pass -/

theorem lone_idle (n : Node) (frame : Option Frame) (current : Option Nat) :
    (lone streams n frame current).Idle := ⟨rfl, rfl⟩

/-- A frame that waits is offered. -/
theorem lone_offers (n : Node) (f : Frame) (current : Option Nat) :
    Leads streams (lone streams n (some f) current) [.run accepts]
      (lone streams n (if accepts then none else some f) current)
      (.seen (.offer .login f accepts) :: if accepts then [.seen (.sent f)] else []) := by
  have hlike : ((lone streams n (some f) current).run streams accepts).Like
      ((lone streams n (some f) current).transmitLogin accepts) := by
    rcases run_cases (s := lone streams n (some f) current) streams accepts (fun _ => rfl) with
      ⟨hd, -⟩ | ⟨-, ⟨hbusy, -⟩ | ⟨-, -, hlike⟩ | ⟨-, hnone, -⟩⟩
    · cases hd
    · exact absurd (lone_idle ..) hbusy
    · exact hlike
    · cases hnone
  cases accepts <;> exact leads_of_like hlike

/-- With no frame to offer, it is the turn of the node, or the end of the round. -/
theorem lone_run (n : Node) (current : Option Nat) :
    ((lone streams n none current).run streams accepts).Like
      ((lone streams n none current).firstTurn.orElse nextTurn) := by
  rcases run_cases (s := lone streams n none current) streams accepts (fun _ => rfl) with
    ⟨hd, -⟩ | ⟨-, ⟨hbusy, -⟩ | ⟨-, hsome, -⟩ | ⟨-, -, hlike⟩⟩
  · cases hd
  · exact absurd (lone_idle ..) hbusy
  · cases hsome
  · exact hlike.trans ((Outcome.orElse_of_false rfl rfl rfl).orElse nextTurn)

/-- The round is over when the node has had its turn. -/
theorem lone_rests (n : Node) :
    Leads streams (lone streams n none (some 0)) [.run accepts] (lone streams n none none) [] :=
  leads_of_like (lone_run n (some 0))

/-- The node has its turn when a round starts. -/
theorem lone_turns (hp : n.phase ≠ .running)
    (hstep : n.logInStep loneAlias = { node := m, aliases := loneAlias, frame }) :
    Leads streams (lone streams n none none) [.run accepts] (lone streams m frame (some 0))
      [.seen (.turn 0)] := by
  have hturn : ((lone streams n none none).firstTurn.orElse nextTurn) =
      { (lone streams n none (some 0)).logIn 0 n with
        value := true
        trace := .turn 0 :: ((lone streams n none (some 0)).logIn 0 n).trace } := by
    show ({ (lone streams n none (some 0)).takeTurn 0 with value := true } : Outcome Bool) = _
    rw [takeTurn]
    simp only [lone, Registry.get?, List.getElem?_cons_zero, if_neg hp]
  have hlogIn := logIn_eq (s := lone streams n none (some 0)) 0 n rfl
  have hal : (lone streams n none (some 0)).resources.aliases = loneAlias := rfl
  rw [hal, hstep] at hlogIn
  have hleads := leads_of_like (@lone_run streams accepts n none)
  rw [hturn] at hleads
  refine ⟨hleads.after.trans hlogIn.1, hleads.transcript.trans ?_⟩
  exact congrArg (fun es => List.map Occurrence.seen (.turn 0 :: es)) hlogIn.2

/-! ### Rounds -/

/-- A round starts when the last one is over. -/
theorem lone_round (hp : n.phase ≠ .running)
    (hstep : n.logInStep loneAlias = { node := m, aliases := loneAlias, frame }) :
    Leads streams (lone streams n none (some 0)) (List.replicate 2 (.run true))
      (lone streams m frame (some 0)) [.seen (.turn 0)] :=
  (lone_rests n).append (lone_turns hp hstep)

/-- A round whose turn sends a frame. -/
theorem lone_sends (hp : n.phase ≠ .running)
    (hstep : n.logInStep loneAlias = { node := m, aliases := loneAlias, frame := some f }) :
    Leads streams (lone streams n none (some 0)) (List.replicate 3 (.run true))
      (lone streams m none (some 0))
      [.seen (.turn 0), .seen (.offer .login f true), .seen (.sent f)] :=
  (lone_round hp hstep).append (lone_offers m f (some 0))

/-- The node counts the ticks. -/
theorem lone_ticks {phase : Phase} {current : Option Nat} (hc : c ≤ 255) (k : Nat) :
    Leads streams (lone streams (applicant phase c) frame current) (List.replicate k .tick)
      (lone streams (applicant phase (min 255 (c + k))) frame current) (List.replicate k .tick) := by
  induction k generalizing c with
  | zero =>
    rw [Nat.add_zero, Nat.min_eq_right hc]
    exact ⟨rfl, rfl⟩
  | succ k ih =>
    have htick : Leads streams (lone streams (applicant phase c) frame current) [.tick]
        (lone streams (applicant phase (min 255 (c + 1))) frame current) [.tick] := ⟨rfl, rfl⟩
    have hall := htick.append (ih (Nat.min_le_left ..))
    have hcount : min 255 (min 255 (c + 1) + k) = min 255 (c + (k + 1)) := by omega
    rw [hcount] at hall
    exact hall

end Interface

end LayoutBus
