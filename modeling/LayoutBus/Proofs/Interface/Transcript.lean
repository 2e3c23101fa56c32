import LayoutBus.Proofs.Interface.Pass
import LayoutBus.Proofs.Interface.Underway
import LayoutBus.Proofs.Interface.Withdrawal

/-!
# Transcripts

What happens to an interface can be written down: the ticks that pass, and all that can be seen from
outside, in order.  What must not happen is the matter of a monitor, which reads the transcript, keeps
in mind what it needs, and allows what comes next or not.

* `Interface.transcript` : what is written down while requests are made.
* `Interface.LoginPass` : what a pass does to the logins of the nodes (`Interface.Pass.loginPass`).
* `Interface.perform_nodes` : what other requests do to them, when they leave the logins alone as far as
  `Interface.SparesWith` says.
* `Monitor.clears_transcript` : a monitor that allows every pass and every other request in the states
  that an invariant describes allows the whole transcript.
-/

namespace LayoutBus

/-- An entry of a transcript. -/
inductive Occurrence where
  /-- 100 ms have passed. -/
  | tick
  /-- Something could be seen. -/
  | seen (e : Effect)

namespace Occurrence

/-- Time has passed. -/
def isTick : Occurrence → Bool
  | tick => true
  | seen _ => false

/-- How many ticks have passed. -/
def ticks (os : List Occurrence) : Nat := os.countP isTick

theorem ticks_append (xs ys : List Occurrence) : ticks (xs ++ ys) = ticks xs + ticks ys :=
  List.countP_append

end Occurrence

/-- It is no matter of a login: neither a turn, nor an alias that is picked, nor a frame of a login. -/
def Effect.aside : Effect → Bool
  | turn _ | picked .. | offer .login _ _ => false
  | _ => true

namespace Interface

/-- What is written down of a request. -/
def occurrences (streams : Bool) (s : Interface) (req : Request) : List Occurrence :=
  List.replicate req.ticks .tick ++ (shown (s.perform streams req).trace).map .seen

/-- What is written down while the requests are made. -/
def transcript (streams : Bool) (s : Interface) : List Request → List Occurrence
  | [] => []
  | req :: reqs =>
    s.occurrences streams req ++ (s.perform streams req).interface.transcript streams reqs

/-- Each of the requests is as it should be when it is made. -/
def Respects (streams : Bool) (ok : Interface → Request → Prop) (s : Interface) :
    List Request → Prop
  | [] => True
  | req :: reqs => ok s req ∧ (s.perform streams req).interface.Respects streams ok reqs

/-- The request leaves the logins of the nodes alone, and changes a node only as `R` says. -/
def SparesWith (R : Node → Node → Prop) (s : Interface) : Request → Prop
  | .revise i change => ∀ n ∈ s.nodes.get? i, n.Spared (change n) ∧ R n (change n)
  | _ => True

variable {streams accepts : Bool} {s : Interface} {req : Request} {xs ys : List Request}

theorem SparesWith.spares {R : Node → Node → Prop} (h : s.SparesWith R req) : s.Spares req := by
  cases req with
  | revise i change => exact fun n hn => (h n hn).1
  | _ => trivial

theorem respects_of_forall {ok : Interface → Request → Prop}
    (h : ∀ req ∈ xs, ∀ s : Interface, ok s req) : s.Respects streams ok xs := by
  induction xs generalizing s with
  | nil => trivial
  | cons req xs ih =>
    exact ⟨h req List.mem_cons_self s, ih fun r hr => h r (List.mem_cons_of_mem _ hr)⟩

theorem transcript_append (s : Interface) (xs ys : List Request) :
    s.transcript streams (xs ++ ys) =
      s.transcript streams xs ++ (s.after streams xs).transcript streams ys := by
  induction xs generalizing s with
  | nil => rfl
  | cons req xs ih =>
    rw [List.cons_append, transcript, ih, transcript, List.append_assoc]
    rfl

/-- Apart from ticks, only passes and frames from the bus are written down. -/
theorem mem_occurrences {o : Occurrence} (hrun : ∀ accepts, req ≠ .run accepts)
    (htick : req ≠ .tick) (ho : o ∈ s.occurrences streams req) : ∃ f, o = .seen (.received f) := by
  rw [occurrences] at ho
  rcases List.mem_append.1 ho with ho | ho
  · cases req with
    | tick => exact absurd rfl htick
    | _ => cases ho
  · obtain ⟨e, he, rfl⟩ := List.mem_map.1 ho
    obtain ⟨f, rfl⟩ := s.shown_perform hrun e he
    exact ⟨f, rfl⟩

/-! ### What becomes of the logins -/

/-- What a pass does to the logins of the nodes, and what can be seen of it. -/
inductive LoginPass (s t : Interface) : List Effect → Prop where
  | conflicts : GivesUp s.resources.aliases.marked s t → LoginPass s t []
  | other {es : List Effect} : t.nodes.nodes = s.nodes.nodes → t.loginFrame = s.loginFrame →
      (∀ e ∈ es, e.aside = true) → LoginPass s t es
  | offer (f : Frame) (accepts : Bool) : s.loginFrame = some f → t.nodes.nodes = s.nodes.nodes →
      t.loginFrame = (if accepts then none else some f) →
      LoginPass s t (.offer .login f accepts :: if accepts then [.sent f] else [])
  | turn (i : Nat) {es : List Effect} : s.loginFrame = none → t.nodes.nodes = s.nodes.nodes →
      t.loginFrame = none → (∀ e ∈ es, e.aside = true) → LoginPass s t (.turn i :: es)
  | step (i : Nat) (n : Node) : s.loginFrame = none → s.nodes.get? i = some n →
      t.nodes.nodes = s.nodes.nodes.modify i (fun _ => (n.logInStep s.resources.aliases).node) →
      t.loginFrame = (n.logInStep s.resources.aliases).frame →
      LoginPass s t
        (.turn i :: (n.logInStep s.resources.aliases).picked.toList.map fun a => .picked a n.id)

theorem loginPass_takeTurn {t : Interface} (hnodes : t.nodes.nodes = s.nodes.nodes)
    (hlogin : t.loginFrame = none) (hsame : s.loginFrame = none)
    (hal : t.resources.aliases = s.resources.aliases) (i : Nat) :
    LoginPass s (t.takeTurn i).interface (shown (t.takeTurn i).trace) := by
  rw [takeTurn]
  split
  · exact .turn i hsame hnodes hlogin (by simp)
  · rename_i n hn
    split
    · exact .turn i hsame hnodes hlogin (by simp [Effect.aside])
    · have hn' : s.nodes.get? i = some n := by
        rw [Registry.get?, ← hnodes]
        exact hn
      obtain ⟨heq, hshown⟩ := logIn_eq i n hlogin
      show LoginPass s (t.logIn i n).interface (.turn i :: shown (t.logIn i n).trace)
      rw [hshown, heq, hal]
      exact .step i n hsame hn' (congrArg (List.modify · i _) hnodes) rfl

theorem Pass.loginPass {t : Interface} {es : List Effect} (h : s.Concord)
    (hpass : s.Pass streams accepts t es) : s.LoginPass t es := by
  cases hpass with
  | conflicts => exact .conflicts h.resolveConflicts_givesUp
  | frame =>
    obtain ⟨x, o, heq⟩ := @transmit_extent accepts s
    refine .other (by rw [heq]) (by rw [heq]) fun e he => ?_
    rcases (@transmit_spec accepts s).2 with hnone | ⟨k, f, -, hshown⟩
    · rw [hnone] at he
      cases he
    · rw [hshown] at he
      cases accepts <;> simp at he
      · rw [he]
        rfl
      · rcases he with rfl | rfl <;> rfl
  | login =>
    cases hf : s.loginFrame with
    | none =>
      rw [transmitLogin_of_none hf]
      exact .other rfl rfl (by simp [shown])
    | some f =>
      have heq : (s.transmitLogin accepts).interface =
            { s with loginFrame := if accepts then none else some f } ∧
          shown (s.transmitLogin accepts).trace =
            .offer .login f accepts :: if accepts then [.sent f] else [] := by
        have hself : { s with loginFrame := some f } = s := by rw [← hf]
        rw [transmitLogin]
        rw [hf]
        cases accepts with
        | true => exact ⟨rfl, rfl⟩
        | false => exact ⟨hself.symm, rfl⟩
      rw [heq.1, heq.2]
      exact .offer f accepts hf rfl rfl
  | message _ =>
    obtain ⟨g, b, ms, q, heq⟩ := @sendMessages_extent streams s
    refine .other (by rw [heq]) (by rw [heq]) fun e he => ?_
    obtain ⟨k, f, rfl⟩ := shown_sendMessages s e he
    rfl
  | rest cursors current => exact .other rfl rfl (by simp)
  | turn cursors current i _ _ hlogin =>
    exact loginPass_takeTurn (s := s) (t := { s with nodes := { s.nodes with cursors }, current }) rfl
      hlogin hlogin rfl i

/-- Requests that are no pass leave the frame of a login alone, and change a node only as `R` says; a
node that was not there before has just been created. -/
theorem perform_nodes {R : Node → Node → Prop} (refl : ∀ n, R n n)
    (tick : req = .tick → ∀ n, R n n.tick) (retain : ∀ n x, R n { n with retained := x })
    (revise : ∀ i change, req = .revise i change → ∀ n ∈ s.nodes.get? i, R n (change n))
    (hrun : ∀ accepts, req ≠ .run accepts) :
    (s.perform streams req).interface.loginFrame = s.loginFrame ∧
      (∀ n ∈ s.nodes.nodes, ∃ m ∈ (s.perform streams req).interface.nodes.nodes, R n m) ∧
      ∀ m ∈ (s.perform streams req).interface.nodes.nodes,
        (∃ n ∈ s.nodes.nodes, R n m) ∨ ∃ id params, m = .create id params := by
  have hmodify : ∀ (i : Nat) (change : Node → Node), (∀ n ∈ s.nodes.get? i, R n (change n)) →
      (∀ n ∈ s.nodes.nodes, ∃ m ∈ s.nodes.nodes.modify i change, R n m) ∧
      ∀ m ∈ s.nodes.nodes.modify i change,
        (∃ n ∈ s.nodes.nodes, R n m) ∨ ∃ id params, m = .create id params := by
    intro i change hchange
    refine ⟨fun n hn => ?_, fun m hm => .inl ?_⟩
    · by_cases hi : s.nodes.nodes[i]? = some n
      · exact ⟨change n, mem_modify_self hi, hchange n hi⟩
      · exact ⟨n, mem_modify_of_ne hn hi, refl n⟩
    · rcases mem_modify hm with hm | ⟨n, hn, rfl⟩
      · exact ⟨m, hm, refl m⟩
      · exact ⟨n, List.mem_of_getElem? hn, hchange n hn⟩
  have hsame : (∀ n ∈ s.nodes.nodes, ∃ m ∈ s.nodes.nodes, R n m) ∧
      ∀ m ∈ s.nodes.nodes, (∃ n ∈ s.nodes.nodes, R n m) ∨ ∃ id params, m = .create id params :=
    ⟨fun n hn => ⟨n, hn, refl n⟩, fun m hm => .inl ⟨m, hm, refl m⟩⟩
  cases req with
  | run accepts => exact absurd rfl (hrun accepts)
  | receive f => exact ⟨rfl, hsame⟩
  | tick =>
    refine ⟨rfl, fun n hn => ⟨n.tick, List.mem_map_of_mem hn, tick rfl n⟩, fun m hm => .inl ?_⟩
    obtain ⟨n, hn, rfl⟩ := List.mem_map.1 hm
    exact ⟨n, hn, tick rfl n⟩
  | register id params =>
    simp only [perform, Outcome.interface_done]
    obtain hnone | hadded := s.register_cases id params
    · rw [hnone]
      exact ⟨rfl, hsame⟩
    · rw [hadded]
      refine ⟨rfl, fun n hn => ⟨n, List.mem_append_left _ hn, refl n⟩, fun m hm => ?_⟩
      rcases List.mem_append.1 hm with hm | hm
      · exact .inl ⟨m, hm, refl m⟩
      · exact .inr ⟨id, params, List.mem_singleton.1 hm⟩
  | retain i x => exact ⟨rfl, hmodify i ({ · with retained := x }) fun n _ => retain n x⟩
  | revise i change => exact ⟨rfl, hmodify i change (revise i change rfl)⟩
  | _ =>
    obtain ⟨-, hlogin, -⟩ := @perform_aside streams s _ (fun _ heq => by cases heq) hrun
    rw [nodes_perform s rfl]
    exact ⟨hlogin, hsame⟩

/-- A node with an alias has not just been created. -/
theorem not_created {p : Prop} {m : Node} (h : p ∨ ∃ id params, m = .create id params)
    (hne : m.aliasId ≠ 0) : p := by
  rcases h with h | ⟨id, params, rfl⟩
  · exact h
  · exact absurd rfl hne

theorem Undisturbed.covered (h : s.Undisturbed streams) : s.Covered := by
  induction h with
  | start => exact Outbox.covered_empty
  | step _ _ ih => exact perform_covered ih _

end Interface

/-! ### Monitors -/

/-- A monitor with a memory of type `γ`. -/
structure Monitor (γ : Type) where
  /-- What it keeps in mind of an occurrence. -/
  note : γ → Occurrence → γ
  /-- What it allows. -/
  allows : γ → Occurrence → Prop

namespace Monitor

variable {γ : Type} {m : Monitor γ} {w : γ} {o : Occurrence} {xs ys : List Occurrence}

/-- What the monitor has in mind after a transcript. -/
def after (m : Monitor γ) (w : γ) (os : List Occurrence) : γ := os.foldl m.note w

/-- The monitor allows the whole transcript. -/
def Clears (m : Monitor γ) : γ → List Occurrence → Prop
  | _, [] => True
  | w, o :: os => m.allows w o ∧ m.Clears (m.note w o) os

theorem clears_append : m.Clears w (xs ++ ys) ↔ m.Clears w xs ∧ m.Clears (m.after w xs) ys := by
  induction xs generalizing w with
  | nil => simp [Clears, after]
  | cons o xs ih => simp only [List.cons_append, Clears, ih, and_assoc, after, List.foldl_cons]

/-- What has occurred was allowed. -/
theorem Clears.allows (h : m.Clears w (xs ++ o :: ys)) : m.allows (m.after w xs) o :=
  (clears_append.1 h).2.1

/-- Occurrences of which the monitor takes no notice. -/
theorem clears_of_ignored (h : ∀ o ∈ xs, m.allows w o ∧ m.note w o = w) :
    m.Clears w xs ∧ m.after w xs = w := by
  induction xs with
  | nil => exact ⟨trivial, rfl⟩
  | cons o xs ih =>
    obtain ⟨hallows, hnote⟩ := h o List.mem_cons_self
    obtain ⟨hclears, hafter⟩ := ih fun o ho => h o (List.mem_cons_of_mem _ ho)
    rw [after] at hafter
    rw [Clears, after, List.foldl_cons, hnote]
    exact ⟨⟨hallows, hclears⟩, hafter⟩

/-- A monitor clears what an invariant lets it clear, pass by pass and request by request. -/
theorem clears_transcript {streams : Bool} {I : Interface → γ → Prop}
    {P : Interface → Request → Prop} (spares : ∀ {s req}, P s req → s.Spares req)
    (pass : ∀ {s t w accepts es}, s.Harmony → t.Harmony → I s w → P s (.run accepts) →
      s.LoginPass t es → m.Clears w (es.map .seen) ∧ I t (m.after w (es.map .seen)))
    (other : ∀ {s w req}, s.Harmony → I s w → P s req → (∀ accepts, req ≠ .run accepts) →
      m.Clears w (s.occurrences streams req) ∧
        I (s.perform streams req).interface (m.after w (s.occurrences streams req)))
    {s : Interface} {reqs : List Request} (hs : s.Harmony) (hc : s.Covered) (hi : I s w)
    (hreqs : s.Respects streams P reqs) : m.Clears w (s.transcript streams reqs) := by
  induction reqs generalizing s w with
  | nil => trivial
  | cons req reqs ih =>
    have hstep : m.Clears w (s.occurrences streams req) ∧
        I (s.perform streams req).interface (m.after w (s.occurrences streams req)) := by
      by_cases hrun : ∃ accepts, req = .run accepts
      · obtain ⟨accepts, rfl⟩ := hrun
        exact pass hs hs.run hi hreqs.1 ((hs.passes hc accepts).loginPass hs.toConcord)
      · exact other hs hi hreqs.1 fun accepts heq => hrun ⟨accepts, heq⟩
    exact clears_append.2 ⟨hstep.1, ih (hs.perform (spares hreqs.1)) (Interface.perform_covered hc req)
      hstep.2 hreqs.2⟩

/-! ### Until something occurs -/

/-- Allows only what is `ok` until an occurrence says `stop`. -/
def untilStop (stop : Occurrence → Bool) (ok : Occurrence → Prop) : Monitor Bool where
  note stopped o := stopped || stop o
  allows stopped o := stopped = false → ok o

section Until

variable {stop : Occurrence → Bool} {ok : Occurrence → Prop}

theorem after_untilStop (b : Bool) (os : List Occurrence) :
    (untilStop stop ok).after b os = (b || os.any stop) := by
  induction os generalizing b with
  | nil => exact (Bool.or_false b).symm
  | cons o os ih => exact (ih _).trans (Bool.or_assoc b (stop o) (os.any stop))

theorem clears_untilStop {b : Bool} {os : List Occurrence} (h : b = false → ∀ o ∈ os, ok o) :
    (untilStop stop ok).Clears b os := by
  induction os generalizing b with
  | nil => trivial
  | cons o os ih =>
    refine ⟨fun hb => h hb o List.mem_cons_self, ih fun hb o' ho' => ?_⟩
    exact h (Bool.or_eq_false_iff.1 hb).1 o' (List.mem_cons_of_mem _ ho')

/-- What an invariant says as long as nothing says `stop` is so in every transcript. -/
theorem ok_of_transcript {streams : Bool} {I : Interface → Prop}
    {P : Interface → Request → Prop} (stop : Occurrence → Bool) (ok : Occurrence → Prop)
    (spares : ∀ {s req}, P s req → s.Spares req) (quiet : ok .tick ∧ ∀ f, ok (.seen (.received f)))
    (pass : ∀ {s t es}, s.Harmony → I s → s.LoginPass t es →
      (∀ e ∈ es, ok (.seen e)) ∧ ((∀ e ∈ es, stop (.seen e) = false) → I t))
    (other : ∀ {s req}, I s → P s req → (∀ accepts, req ≠ .run accepts) →
      I (s.perform streams req).interface)
    {s : Interface} {reqs : List Request} (hs : s.Harmony) (hc : s.Covered) (hi : I s)
    (hreqs : s.Respects streams P reqs) {xs ys : List Occurrence} {o : Occurrence}
    (htranscript : s.transcript streams reqs = xs ++ o :: ys) (hxs : ∀ x ∈ xs, stop x = false) :
    ok o := by
  have hclears : (untilStop stop ok).Clears false (s.transcript streams reqs) := by
    refine clears_transcript (I := fun s b => b = false → I s) spares
      (fun {s t b _ es} hs _ hi _ hpass => ?_) (fun {s b req} _ hi hreq hrun => ?_) hs hc
      (fun _ => hi) hreqs
    · refine ⟨clears_untilStop fun hb o ho => ?_, fun hb => ?_⟩
      · obtain ⟨e, he, rfl⟩ := List.mem_map.1 ho
        exact (pass hs (hi hb) hpass).1 e he
      · rw [after_untilStop, Bool.or_eq_false_iff, List.any_map, List.any_eq_false] at hb
        exact (pass hs (hi hb.1) hpass).2 fun e he => Bool.not_eq_true _ ▸ hb.2 e he
    · refine ⟨clears_untilStop fun _ o ho => ?_, fun hb => ?_⟩
      · by_cases htick : req = .tick
        · subst htick
          rw [List.mem_singleton.1 ho]
          exact quiet.1
        · obtain ⟨f, rfl⟩ := Interface.mem_occurrences hrun htick ho
          exact quiet.2 f
      · rw [after_untilStop, Bool.or_eq_false_iff] at hb
        exact other (hi hb.1) hreq hrun
  rw [htranscript] at hclears
  refine hclears.allows ?_
  rw [after_untilStop, Bool.false_or, List.any_eq_false]
  exact fun x hx => by rw [hxs x hx]; decide

end Until

end Monitor

end LayoutBus
