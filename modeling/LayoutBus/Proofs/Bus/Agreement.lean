import LayoutBus.Proofs.Interface.Evidence
import Mathlib.Data.List.FinRange

/-!
# Agreement on aliases

Stations share a bus.  Every frame that the driver of one station accepts is delivered once to
every other station; when, and in which order, is left open, and so is the order in which the
stations are asked to work.  Since a station may also be asked to receive any frame, other devices
on the bus are allowed for.

* `Bus.run` : the bus after any events.
* `Bus.permitted_unique` : **agreement.**  Once all definitions have been delivered, no frame of a
  login waits and no conflict is left to resolve, no alias is in use at two stations.

The proof: the interface that takes an alias into use last defines it on the bus, and the definition
reaches every other interface that uses the alias.  So as long as two of them use it, the evidence of
their conflict is somewhere (`Bus.Contested`): it waits at one of them, is on its way to one of
them, or one of them has marked its alias.  No event makes it disappear (`Bus.Accountable.step`).
-/

namespace LayoutBus

/-- Stations on one bus, and the frames that are on their way to each. -/
structure Bus (n : Nat) where
  stations : Fin n → Interface
  /-- Frames, each with the station it has not reached yet. -/
  inFlight : List (Fin n × Frame)

namespace Bus

/-- What happens on a bus. -/
inductive Event (n : Nat) where
  /-- A station is asked for something. -/
  | ask (i : Fin n) (req : Request)
  /-- One of the frames in flight arrives. -/
  | deliver (k : Nat)

variable {n : Nat}

/-- Frames of a station, on their way to every other station. -/
def broadcast (i : Fin n) (fs : List Frame) : List (Fin n × Frame) :=
  fs.flatMap fun f => ((List.finRange n).filter fun j => j ≠ i).map fun j => (j, f)

/-- The bus after one event.  Stations may differ in whether they have streams. -/
def step (streams : Fin n → Bool) (b : Bus n) : Event n → Bus n
  | .ask i req =>
    let o := (b.stations i).perform (streams i) req
    { stations := Function.update b.stations i o.interface
      inFlight := b.inFlight ++ broadcast i (accepted o.trace) }
  | .deliver k =>
    match b.inFlight[k]? with
    | some (i, f) =>
      { stations := Function.update b.stations i ((b.stations i).receive (streams i) f).interface
        inFlight := b.inFlight.eraseIdx k }
    | none => b

/-- Stations that have done nothing yet. -/
def start (streams : Fin n → Bool) : Bus n := ⟨fun i => .empty (streams i), []⟩

/-- The bus after a list of events. -/
def run (streams : Fin n → Bool) (es : List (Event n)) : Bus n :=
  es.foldl (step streams) (start streams)

/-- The aliases of a station. -/
def aliases (b : Bus n) (i : Fin n) : AliasTable := (b.stations i).resources.aliases

/-- No definition of an alias is on its way, no frame of a login waits, and no alias is marked as
a duplicate. -/
structure Quiet (b : Bus n) : Prop where
  delivered : ∀ p ∈ b.inFlight, p.2.kind ≠ .control .aliasMapDefinition
  sent : ∀ i, (b.stations i).loginFrame = none
  resolved : ∀ i, ∀ m ∈ (b.aliases i).mappings, m.duplicate = false

instance (b : Bus n) : Decidable b.Quiet :=
  decidable_of_iff
    ((∀ p ∈ b.inFlight, p.2.kind ≠ .control .aliasMapDefinition) ∧
      (∀ i, (b.stations i).loginFrame = none) ∧
      ∀ i, ∀ m ∈ (b.aliases i).mappings, m.duplicate = false)
    ⟨fun h => ⟨h.1, h.2.1, h.2.2⟩, fun h => ⟨h.1, h.2, h.3⟩⟩

/-- A station has evidence that another may use the alias, or is about to get it: it has marked the
alias, its own definition of the alias waits, or the definition by another is on its way to it. -/
def Contested (b : Bus n) (i : Fin n) (a : Nat) : Prop :=
  (b.aliases i).Doubts a ∨ (b.stations i).Announces a ∨ ∃ f, (i, f) ∈ b.inFlight ∧ f.Defines a

/-- Of two stations that use the same alias, one has evidence of it. -/
structure Accountable (b : Bus n) : Prop where
  proper : ∀ i, (b.aliases i).Proper
  contested : ∀ i j a, i ≠ j → (b.aliases i).Uses a → (b.aliases j).Uses a →
    b.Contested i a ∨ b.Contested j a

variable {b c : Bus n} {k : Fin n} {es : List Effect} {streams : Fin n → Bool}

theorem mem_broadcast {i j : Fin n} {f : Frame} {fs : List Frame} (hf : f ∈ fs) (hj : j ≠ i) :
    (j, f) ∈ broadcast i fs := by
  refine List.mem_flatMap.2 ⟨f, hf, List.mem_map_of_mem (List.mem_filter.2 ⟨?_, ?_⟩)⟩
  · exact List.mem_finRange j
  · exact decide_eq_true hj

theorem mem_eraseIdx_or_eq {α : Type} {xs : List α} {i : Nat} {x y : α} (hi : xs[i]? = some x)
    (hy : y ∈ xs) : y ∈ xs.eraseIdx i ∨ y = x := by
  obtain ⟨hlt, rfl⟩ := List.getElem?_eq_some_iff.1 hi
  rcases List.mem_cons.1 ((List.getElem_cons_eraseIdx_perm hlt).symm.subset hy) with h | h
  · exact .inr h
  · exact .inl h

/-! ### One event -/

/-- One station works or hears a frame, its frames go to all others, and of the frames in flight at
most one disappears, which is the one it hears. -/
structure Moves (b : Bus n) (k : Fin n) (es : List Effect) (c : Bus n) : Prop where
  others : ∀ i, i ≠ k → c.stations i = b.stations i
  accounts : Interface.Accounts (b.stations k) es (c.stations k)
  sent : ∀ f ∈ accepted es, ∀ j, j ≠ k → (j, f) ∈ c.inFlight
  kept : ∀ i f, (i, f) ∈ b.inFlight → (i, f) ∈ c.inFlight ∨
    i = k ∧ ∀ a, f.Defines a → (b.aliases k).Proper → (b.aliases k).Uses a → (c.aliases k).Doubts a

theorem moves_ask (streams : Fin n → Bool) (b : Bus n) (k : Fin n) (req : Request) :
    Moves b k ((b.stations k).perform (streams k) req).trace (b.step streams (.ask k req)) where
  others i hi := Function.update_of_ne hi _ _
  accounts := by
    unfold step
    simp only [Function.update_self]
    exact Interface.perform_accounts _ _ _
  sent f hf j hj := List.mem_append_right _ (mem_broadcast hf hj)
  kept i f hf := .inl (List.mem_append_left _ hf)

theorem moves_deliver {m : Nat} {f : Frame} (hm : b.inFlight[m]? = some (k, f)) :
    Moves b k [] (b.step streams (.deliver m)) := by
  unfold step
  simp only [hm]
  refine ⟨fun i hi => Function.update_of_ne hi _ _, ?_, fun f hf => ?_, fun i g hg => ?_⟩
  · simp only [Function.update_self]
    exact Interface.receive_accounts _ _
  · cases hf
  · rcases mem_eraseIdx_or_eq hm hg with hin | heq
    · exact .inl hin
    · cases heq
      refine .inr ⟨rfl, fun a hd hp hu => ?_⟩
      unfold aliases
      simp only [Function.update_self]
      exact Interface.doubts_of_receive hp hu hd

namespace Moves

variable {i j : Fin n} {a : Nat}

theorem aliases_of_ne (h : Moves b k es c) (hi : i ≠ k) : c.aliases i = b.aliases i := by
  unfold aliases
  rw [h.others i hi]

/-- Evidence stays at the stations that do not move. -/
theorem contested_of_ne (h : Moves b k es c) (hi : i ≠ k) (hc : b.Contested i a) :
    c.Contested i a := by
  unfold Contested
  rw [h.aliases_of_ne hi, h.others i hi]
  rcases hc with hd | hann | ⟨f, hf, hd⟩
  · exact .inl hd
  · exact .inr (.inl hann)
  · rcases h.kept i f hf with hf | ⟨rfl, -⟩
    · exact .inr (.inr ⟨f, hf, hd⟩)
    · exact absurd rfl hi

/-- If the station that moves uses an alias of another, there is evidence again. -/
theorem contested (h : Moves b k es c) (hb : b.Accountable) (hj : j ≠ k)
    (hk : (c.aliases k).Uses a) (hu : (c.aliases j).Uses a) :
    c.Contested k a ∨ c.Contested j a := by
  rcases h.accounts.uses (hb.proper k) a hk with hann | ⟨f, hf, hd⟩ | ⟨hs, hnot, hkeep⟩
  · exact .inl (.inr (.inl hann))
  · exact .inr (.inr (.inr ⟨f, h.sent f hf j hj, hd⟩))
  · rw [h.aliases_of_ne hj] at hu
    -- both used the alias before, so there was evidence of it
    rcases hb.contested k j a hj.symm hs hu with (hd | hann | ⟨f, hf, hd⟩) | hc
    · exact .inl (.inl (hkeep hd))
    · exact absurd hann hnot
    · -- the only frame that can disappear is the one that the station hears
      rcases h.kept k f hf with hf | ⟨-, hheard⟩
      · exact .inl (.inr (.inr ⟨f, hf, hd⟩))
      · exact .inl (.inl (hheard a hd (hb.proper k) hs))
    · exact .inr (h.contested_of_ne hj hc)

theorem accountable (h : Moves b k es c) (hb : b.Accountable) : c.Accountable where
  proper i := by
    by_cases hi : i = k
    · subst hi
      exact h.accounts.proper (hb.proper i)
    · rw [h.aliases_of_ne hi]
      exact hb.proper i
  contested i j a hij hui huj := by
    by_cases hi : i = k
    · subst hi
      exact h.contested hb hij.symm hui huj
    · by_cases hj : j = k
      · subst hj
        exact (h.contested hb hi huj hui).symm
      · rw [h.aliases_of_ne hi] at hui
        rw [h.aliases_of_ne hj] at huj
        exact (hb.contested i j a hij hui huj).imp (h.contested_of_ne hi) (h.contested_of_ne hj)

end Moves

/-! ### Runs -/

namespace Accountable

theorem step (h : b.Accountable) (e : Event n) : (b.step streams e).Accountable := by
  cases e with
  | ask k req => exact (moves_ask streams b k req).accountable h
  | deliver m =>
    cases hm : b.inFlight[m]? with
    | none =>
      unfold Bus.step
      simp only [hm]
      exact h
    | some p => exact (moves_deliver hm).accountable h

theorem run (streams : Fin n → Bool) (es : List (Event n)) : (run streams es).Accountable := by
  have hstart : (start streams).Accountable :=
    ⟨fun _ => AliasTable.proper_empty, fun i j a _ ⟨m, hm, _⟩ => absurd hm List.not_mem_nil⟩
  unfold Bus.run
  generalize start streams = b at hstart
  induction es generalizing b with
  | nil => exact hstart
  | cons e es ih => exact ih _ (hstart.step e)

end Accountable

/-- **Agreement.** Once all definitions have been delivered, no frame of a login waits and no
conflict is left to resolve, no alias is in use at two stations. -/
theorem permitted_unique (streams : Fin n → Bool) (es : List (Event n))
    (hq : (run streams es).Quiet) {i j : Fin n} (hij : i ≠ j) (a : Nat) :
    ¬ (((run streams es).aliases i).isPermitted a ∧ ((run streams es).aliases j).isPermitted a) := by
  rintro ⟨hi, hj⟩
  have h := Accountable.run streams es
  have hquiet : ∀ k, ¬ (run streams es).Contested k a := by
    rintro k (⟨m, hm, -, hd⟩ | ⟨f, hf, -⟩ | ⟨f, hf, hd, -⟩)
    · rw [hq.resolved k m hm] at hd
      cases hd
    · rw [hq.sent k] at hf
      cases hf
    · exact hq.delivered _ hf hd
  have hui := (h.proper i).isPermitted_iff.1 hi
  have huj := (h.proper j).isPermitted_iff.1 hj
  rcases h.contested i j a hij hui huj with hc | hc
  · exact hquiet i hc
  · exact hquiet j hc

/-- Two stations whose node ids lead to the same first alias take it into use at the same time, hear
of each other, give it up, and log in again. -/
def contest : List (Event 2) :=
  let work (k : Nat) : List (Event 2) :=
    List.replicate k (.ask 0 (.run true)) ++ List.replicate k (.ask 1 (.run true))
  let wait := (List.replicate Limits.loginWait [.ask 0 .tick, .ask 1 .tick]).flatten
  let logins := work 22 ++ wait ++ work 9 ++ List.replicate 24 (.deliver 0)
  [.ask 0 (.register 1 (.ofSupport 0)), .ask 1 (.register 0x1000 (.ofSupport 0))] ++ logins ++
    work 1 ++ logins

theorem permitted_unique_contest :
    (run (fun _ => false) contest).Quiet ∧
      ((run (fun _ => false) contest).aliases 0).isPermitted 793 ∧
      ((run (fun _ => false) contest).aliases 1).isPermitted 799 ∧
      ¬ (((run (fun _ => false) contest).aliases 0).isPermitted 793 ∧
        ((run (fun _ => false) contest).aliases 1).isPermitted 793) := by
  have hq : (run (fun _ => false) contest).Quiet := by decide +kernel
  exact ⟨hq, by decide +kernel, by decide +kernel, permitted_unique _ _ hq (by decide) 793⟩

end Bus

end LayoutBus
