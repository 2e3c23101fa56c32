import LayoutBus.Proofs.Interface.Extent

/-!
# The most urgent work

A pass of the main loop does the most urgent work that there is, and only that: a kind of work that
has nothing to do leaves the interface as it is.

* `shown` : what can be seen from outside, the lock aside.
* `Outcome.Like` : two outcomes differ only in how often the lock was taken.
* `Interface.shown_perform` : what can be seen of the requests that are no pass.
* `Interface.run_cases` : a pass is like the most urgent kind of work that has something to do.
-/

namespace LayoutBus

/-- It is no matter of the lock. -/
def Effect.shows : Effect → Bool
  | lock _ | unlock _ => false
  | _ => true

/-- What can be seen from outside, the lock aside. -/
def shown (es : List Effect) : List Effect := es.filter Effect.shows

theorem shown_append (es fs : List Effect) : shown (es ++ fs) = shown es ++ shown fs :=
  List.filter_append ..

namespace Outcome

/-- The outcomes agree on the value, on the interface, and on all that can be seen but the lock. -/
structure Like (o p : Outcome Bool) : Prop where
  value : o.value = p.value
  interface : o.interface = p.interface
  shown : shown o.trace = shown p.trace

/-- No frame of a message went into the outbox. -/
def Silent {α : Type} (o : Outcome α) : Prop := ∀ h f, .segment h f ∉ o.trace

variable {o p q : Outcome Bool} {s : Interface} {work : Interface → Outcome Bool}

theorem Like.refl (o : Outcome Bool) : o.Like o := ⟨rfl, rfl, rfl⟩

theorem Like.trans (hop : o.Like p) (hpq : p.Like q) : o.Like q :=
  ⟨hop.value.trans hpq.value, hop.interface.trans hpq.interface, hop.shown.trans hpq.shown⟩

/-- The frames of messages are the same. -/
theorem Like.segments (h : o.Like p) (k : Handle) (f : Frame) :
    .segment k f ∈ o.trace ↔ .segment k f ∈ p.trace := by
  have hmem : ∀ es : List Effect, .segment k f ∈ LayoutBus.shown es ↔ .segment k f ∈ es :=
    fun es => List.mem_filter.trans (and_iff_left rfl)
  rw [← hmem, h.shown, hmem]

theorem Like.silent (h : o.Like p) (hp : p.Silent) : o.Silent :=
  fun k f hseg => hp k f ((h.segments k f).1 hseg)

theorem Like.orElse (h : o.Like p) (work : Interface → Outcome Bool) :
    (o.orElse work).Like (p.orElse work) := by
  unfold Outcome.orElse
  rw [h.value, h.interface]
  split
  · exact h
  · exact ⟨rfl, rfl, by simp only [shown_append, h.shown]⟩

/-- Work that did something is the last. -/
theorem orElse_of_true (hv : o.value = true) : (o.orElse work) = o := if_pos hv

/-- Work that had nothing to do leaves the rest to the next kind. -/
theorem orElse_of_false (hv : o.value = false) (hs : o.interface = s) (hq : shown o.trace = []) :
    (o.orElse work).Like (work s) := by
  unfold Outcome.orElse
  rw [if_neg (by simp [hv]), hs]
  exact ⟨rfl, rfl, by simp only [shown_append, hq, List.nil_append]⟩

/-- Neither kind of work had anything to do. -/
theorem of_orElse_eq_false (h : (o.orElse work).value = false) :
    o.value = false ∧ (work o.interface).value = false ∧
      (o.orElse work).interface = (work o.interface).interface := by
  unfold Outcome.orElse at h ⊢
  cases hv : o.value with
  | true => simp [hv] at h
  | false => simpa [hv] using h

theorem Silent.orElse (ho : o.Silent) (hw : ∀ s, (work s).Silent) : (o.orElse work).Silent := by
  intro h f
  unfold Outcome.orElse
  split
  · exact ho h f
  · simp only [List.mem_append, not_or]
    exact ⟨ho h f, hw _ h f⟩

end Outcome

namespace Interface

variable {streams accepts : Bool} {s : Interface} {req : Request}

/-! ### Work without frames of messages -/

theorem resolveConflicts_silent (s : Interface) : s.resolveConflicts.Silent := by
  intro h f
  simp [resolveConflicts, locked]

theorem transmit_silent (s : Interface) : (s.transmit accepts).Silent := by
  intro h f
  have hfetch : .segment h f ∉ s.fetch.trace := by
    unfold fetch
    split
    · simp
    · simp only [locked]
      split <;> simp
  unfold transmit
  simp only
  split
  · exact hfetch
  · simp only [List.mem_append, not_or]
    refine ⟨hfetch, ?_⟩
    unfold offer
    split
    · simp
    · split <;> simp [update, locked]

theorem transmitLogin_silent (s : Interface) : (s.transmitLogin accepts).Silent := by
  intro h f
  unfold transmitLogin
  split
  · simp
  · split <;> simp

theorem takeTurn_silent (s : Interface) (i : Nat) : (s.takeTurn i).Silent := by
  intro h f
  unfold takeTurn
  split
  · simp
  · split
    · simp
    · simp [logIn, locked]

theorem firstTurn_silent (s : Interface) : s.firstTurn.Silent := by
  intro h f
  unfold firstTurn
  split
  · simp
  · split
    · simp
    · exact takeTurn_silent _ _ h f

theorem nextTurn_silent (s : Interface) : s.nextTurn.Silent := by
  intro h f
  unfold nextTurn
  split
  · simp
  · split
    · simp
    · exact takeTurn_silent _ _ h f

/-! ### Work with nothing to do -/

/-- No frame waits in the outbox, and none has been taken from it. -/
def Idle (s : Interface) : Prop :=
  s.transmitting = none ∧ s.resources.outbox.queue.toList = []

theorem giveUpAll_of_none (n : Nat) (hnone : s.resources.aliases.nextDuplicate? = none) :
    giveUpAll n s = s := by
  cases n with
  | zero => rfl
  | succ n =>
    unfold giveUpAll
    rw [hnone]

theorem resolveConflicts_of_none (hflag : s.resources.aliases.hasDuplicate = false)
    (hnone : s.resources.aliases.nextDuplicate? = none) :
    s.resolveConflicts.interface = s := by
  unfold resolveConflicts locked
  simp only
  rw [giveUpAll_of_none _ hnone, ← hflag]

theorem fetch_transmitting (s : Interface) : s.fetch.interface.transmitting = none ↔ s.Idle := by
  unfold fetch Idle
  split
  · rename_i h ht
    simp [ht]
  · rename_i ht
    simp only [locked, ht, true_and]
    split
    · rename_i h o hp
      unfold Outbox.pop at hp
      split at hp
      · rename_i hq
        simp [Queue.pop_eq_some_iff.1 hq]
      · cases hp
    · rename_i hp
      unfold Outbox.pop at hp
      split at hp
      · cases hp
      · rename_i hq
        simp [ht, Queue.pop_eq_none_iff.1 hq]

theorem transmit_value (s : Interface) : (s.transmit accepts).value = false ↔ s.Idle := by
  rw [← fetch_transmitting]
  unfold transmit
  simp only
  split
  · rename_i hnone
    simp [hnone]
  · rename_i h hsome
    rw [hsome]
    unfold offer
    split
    · simp
    · split <;> simp

theorem transmit_of_idle (hidle : s.Idle) :
    (s.transmit accepts).interface = s ∧ shown (s.transmit accepts).trace = [] := by
  obtain ⟨ht, hq⟩ := hidle
  have hpop : s.resources.outbox.pop = none := by
    unfold Outbox.pop
    rw [Queue.pop_eq_none_iff.2 hq]
  unfold transmit fetch
  rw [ht]
  simp only [locked, hpop, ht]
  exact ⟨trivial, rfl⟩

theorem transmitLogin_value (s : Interface) :
    (s.transmitLogin accepts).value = s.loginFrame.isSome := by
  unfold transmitLogin
  split
  · rename_i hnone
    rw [hnone]
    rfl
  · rename_i hf
    rw [hf]
    split <;> rfl

theorem transmitLogin_of_none (hnone : s.loginFrame = none) :
    s.transmitLogin accepts = { value := false, interface := s } := by
  unfold transmitLogin
  rw [hnone]

/-! ### Requests that are no pass -/

theorem shown_locked {α : Type} (s : Interface) (step : Interface → Outcome α) :
    shown (s.locked step).trace = shown (step s).trace := by
  simp [locked, shown, Effect.shows]

theorem shown_update (s : Interface) (f : Resources → Resources) : shown (s.update f).trace = [] :=
  shown_locked s _

theorem shown_allocate (s : Interface) (c : SizeClass) : shown (s.allocate c).trace = [] := by
  rw [allocate, shown_locked]
  split <;> rfl

theorem shown_pushEgress (s : Interface) (h : Handle) : shown (s.pushEgress h).trace = [] := by
  rw [pushEgress]
  split
  · rfl
  · rw [shown_locked]
    split <;> rfl

theorem shown_send (s : Interface) (i mti dest : Nat) (payload : List UInt8) :
    shown (s.send i mti dest payload).trace = [] := by
  rw [send]
  split
  · rfl
  · simp only
    split
    · exact shown_allocate s _
    · split
      · rw [shown_append, shown_allocate, shown_pushEgress]
        rfl
      · rw [shown_append, shown_append, shown_allocate, shown_pushEgress, free, shown_update]
        rfl

/-- Apart from the passes of the main loop, only frames from the bus can be seen. -/
theorem shown_perform (s : Interface) (hrun : ∀ accepts, req ≠ .run accepts) :
    ∀ e ∈ shown (s.perform streams req).trace, ∃ f, e = .received f := by
  cases req with
  | run accepts => exact absurd rfl (hrun accepts)
  | receive f => exact fun e he => ⟨f, List.mem_singleton.1 he⟩
  | allocate c => simp [perform, shown_allocate]
  | pushEgress h => simp [perform, shown_pushEgress]
  | send i mti dest payload => simp [perform, shown_send]
  | popIngress =>
    rw [perform, Outcome.trace_done, popIngress, shown_locked]
    split <;> simp [shown]
  | free h => simp [perform, free, shown_update]
  | clearPeaks => simp [perform, clearPeaks, shown_update]
  | register id params =>
    rw [perform, Outcome.trace_done, Interface.register]
    split <;> simp [shown]
  | _ => simp [perform, Interface.tick, shown]

/-! ### One pass -/

/-- A pass is like the most urgent kind of work that has something to do, provided that the table
of aliases has not forgotten a duplicate. -/
theorem run_cases (streams accepts : Bool)
    (hflag : s.resources.aliases.hasDuplicate = false →
      s.resources.aliases.nextDuplicate? = none) :
    (s.resources.aliases.hasDuplicate = true ∧ (s.run streams accepts).Like s.resolveConflicts) ∨
    (s.resources.aliases.hasDuplicate = false ∧
      ((¬ s.Idle ∧ (s.run streams accepts).Like (s.transmit accepts)) ∨
        (s.Idle ∧ s.loginFrame.isSome ∧ (s.run streams accepts).Like (s.transmitLogin accepts)) ∨
        (s.Idle ∧ s.loginFrame = none ∧
          (s.run streams accepts).Like
            (((s.sendMessages streams).orElse firstTurn).orElse nextTurn)))) := by
  unfold run
  cases hd : s.resources.aliases.hasDuplicate with
  | true =>
    refine .inl ⟨rfl, ?_⟩
    have hv : s.resolveConflicts.value = true := hd
    rw [Outcome.orElse_of_true (o := s.resolveConflicts) hv, Outcome.orElse_of_true hv,
      Outcome.orElse_of_true hv, Outcome.orElse_of_true hv, Outcome.orElse_of_true hv]
    exact .refl _
  | false =>
    refine .inr ⟨rfl, ?_⟩
    have hv : s.resolveConflicts.value = false := hd
    have hconflicts : (s.resolveConflicts.orElse (transmit · accepts)).Like (s.transmit accepts) :=
      Outcome.orElse_of_false hv (resolveConflicts_of_none hd (hflag hd)) rfl
    by_cases hidle : s.Idle
    · right
      have hlogin := (hconflicts.orElse (transmitLogin · accepts)).trans
        (Outcome.orElse_of_false ((transmit_value s).2 hidle) (transmit_of_idle hidle).1
          (transmit_of_idle hidle).2)
      cases hf : s.loginFrame with
      | some f =>
        left
        have hv : (s.transmitLogin accepts).value = true := by
          rw [transmitLogin_value, hf]
          rfl
        have hall := ((hlogin.orElse (sendMessages streams)).orElse firstTurn).orElse nextTurn
        rw [Outcome.orElse_of_true hv, Outcome.orElse_of_true hv, Outcome.orElse_of_true hv] at hall
        exact ⟨hidle, rfl, hall⟩
      | none =>
        right
        have hnone := @transmitLogin_of_none accepts s hf
        have hmessages := (hlogin.orElse (sendMessages streams)).trans
          (Outcome.orElse_of_false (s := s) (by rw [hnone]) (by rw [hnone]) (by rw [hnone]; rfl))
        exact ⟨hidle, rfl, (hmessages.orElse firstTurn).orElse nextTurn⟩
    · left
      have hv : (s.transmit accepts).value = true := by
        rw [← Bool.not_eq_false]
        exact fun hv => hidle ((transmit_value s).1 hv)
      have hall := (((hconflicts.orElse (transmitLogin · accepts)).orElse
        (sendMessages streams)).orElse firstTurn).orElse nextTurn
      rw [Outcome.orElse_of_true hv, Outcome.orElse_of_true hv, Outcome.orElse_of_true hv,
        Outcome.orElse_of_true hv] at hall
      exact ⟨hidle, hall⟩

end Interface

end LayoutBus
