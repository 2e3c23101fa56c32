import LayoutBus.Proofs.Interface.Evidence

/-!
# The standing of an alias

An alias that is permitted stays so until another node uses it; then it is marked, and the next pass
of the main loop gives it up, before it does anything else.

* `AliasTable.Flagged` : the table knows of every mark.
* `AliasTable.Standing` : the alias is permitted and unmarked, or it has been contested.
* `Interface.giveUpAll_nextDuplicate?` : no mark is left by the pass that gives aliases up.
* `Interface.perform_marked` : no request makes the table forget a mark.
-/

namespace LayoutBus

namespace AliasTable

variable {t u : AliasTable} {a b n : Nat} {was : Bool}

/-! ### Marks -/

/-- The table knows of every mark. -/
def Flagged (t : AliasTable) : Prop := ∀ a, t.Doubts a → t.hasDuplicate = true

theorem nextDuplicate?_eq_none_iff : t.nextDuplicate? = none ↔ ∀ a, ¬ t.Doubts a := by
  unfold nextDuplicate? Doubts
  rw [List.find?_eq_none]
  constructor
  · rintro h a ⟨m, hm, -, hd⟩
    exact h m hm hd
  · intro h m hm hd
    exact h m.aliasId ⟨m, hm, rfl, hd⟩

theorem doubts_of_nextDuplicate? {m : Mapping} (h : t.nextDuplicate? = some m) :
    t.Doubts m.aliasId :=
  ⟨m, List.mem_of_find?_eq_some h, rfl, List.find?_some h⟩

theorem Flagged.nextDuplicate? (h : t.Flagged) (hd : t.hasDuplicate = false) :
    t.nextDuplicate? = none := by
  rw [nextDuplicate?_eq_none_iff]
  intro a ha
  rw [h a ha] at hd
  cases hd

theorem Flagged.noteConflict (h : t.Flagged) (b : Nat) : (t.noteConflict b).Flagged := by
  intro a ha
  cases hb : t.find? b with
  | none =>
    rw [Resources.noteConflict_of_find?_eq_none hb] at ha ⊢
    exact h a ha
  | some m =>
    unfold AliasTable.noteConflict markDuplicate
    rw [hb]

theorem doubts_of_noteConflict (h : t.Proper) (hd : (t.noteConflict b).Doubts a) :
    a = b ∨ t.Doubts a := by
  have hc : (t.noteConflict b).mappings = _ := markDuplicate_mappings h
  obtain ⟨m, hm, rfl, hd⟩ := hd
  rw [hc, List.mem_map] at hm
  obtain ⟨m', hm', rfl⟩ := hm
  by_cases hb : m'.aliasId = b
  · simp [hb]
  · rw [if_neg hb] at hd ⊢
    exact .inr ⟨m', hm', rfl, hd⟩

theorem doubts_of_permit (h : t.Proper) (hd : (t.permit b).Doubts a) : t.Doubts a := by
  have hc := modify_mappings (a := b) h fun m => { m with permitted := true }
  obtain ⟨m, hm, rfl, hd⟩ := hd
  unfold permit at hm
  rw [hc, List.mem_map] at hm
  obtain ⟨m', hm', rfl⟩ := hm
  split at hd <;> split <;> exact ⟨m', hm', rfl, hd⟩

theorem doubts_of_register (h : t.Proper) (hr : t.register b n = .ok u) (hd : u.Doubts a) :
    t.Doubts a := by
  obtain ⟨-, -, -, hp⟩ := register_perm h hr
  obtain ⟨m, hm, rfl, hd⟩ := hd
  rcases List.mem_cons.1 (hp.subset hm) with rfl | hmem
  · cases hd
  · exact ⟨m, (List.mem_filter.1 hmem).1, rfl, hd⟩

theorem hasDuplicate_permit (t : AliasTable) (b : Nat) :
    (t.permit b).hasDuplicate = t.hasDuplicate := by
  unfold permit modify
  split
  · split <;> rfl
  · rfl

theorem length_unregister_lt (h : t.Proper) (hd : t.Doubts b) :
    (t.unregister b).mappings.length < t.mappings.length := by
  obtain ⟨m, hm, hb, -⟩ := hd
  rw [(unregister_perm h).length_eq]
  exact List.length_filter_lt_length_iff_exists.2 ⟨m, hm, by simpa using hb⟩

/-! ### The standing of an alias -/

/-- The alias is permitted and unmarked, or, once it has been contested, given up or marked. -/
def Standing (t : AliasTable) (a : Nat) (was : Bool) : Prop :=
  Alias.Valid a ∧ if was then t.Uses a → t.Doubts a else t.Uses a ∧ ¬ t.Doubts a

theorem Standing.noteConflict (hs : t.Standing a was) (h : t.Proper) (b : Nat) :
    (t.noteConflict b).Standing a (was || a == b) := by
  obtain ⟨hvalid, hs⟩ := hs
  refine ⟨hvalid, ?_⟩
  by_cases hab : a = b
  · subst hab
    simp only [beq_self_eq_true, Bool.or_true, if_true]
    exact fun hu => doubts_noteConflict h (uses_noteConflict h hu).1
  · simp only [beq_eq_false_iff_ne.2 hab, Bool.or_false]
    cases was with
    | true => exact fun hu => (uses_noteConflict h hu).2 (hs (uses_noteConflict h hu).1)
    | false =>
      obtain ⟨⟨m, hm, ha, hperm⟩, hnot⟩ := hs
      have hc : (t.noteConflict b).mappings = _ := markDuplicate_mappings h
      refine ⟨⟨m, ?_, ha, hperm⟩, fun hd => ?_⟩
      · rw [hc]
        exact List.mem_map.2 ⟨m, hm, if_neg (ha ▸ hab)⟩
      · exact (doubts_of_noteConflict h hd).elim hab hnot

theorem Standing.unregister (hs : t.Standing a was) (h : t.Proper) (hb : t.Doubts b) :
    (t.unregister b).Standing a was := by
  obtain ⟨hvalid, hs⟩ := hs
  refine ⟨hvalid, ?_⟩
  have hp := unregister_perm (a := b) h
  cases was with
  | true =>
    intro hu
    obtain ⟨-, hu, hkeep⟩ := uses_unregister h hu
    exact hkeep (hs hu)
  | false =>
    obtain ⟨⟨m, hm, ha, hperm⟩, hnot⟩ := hs
    have hne : a ≠ b := fun heq => hnot (heq ▸ hb)
    refine ⟨⟨m, ?_, ha, hperm⟩, ?_⟩
    · exact hp.mem_iff.2 (List.mem_filter.2 ⟨hm, decide_eq_true (ha ▸ hne)⟩)
    · rintro ⟨m', hm', ha', hd'⟩
      exact hnot ⟨m', (List.mem_filter.1 (hp.subset hm')).1, ha', hd'⟩

end AliasTable

namespace Interface

variable {streams accepts : Bool} {s : Interface} {a : Nat} {was : Bool}

/-! ### The table of aliases along a pass -/

theorem giveUpAll_nextDuplicate? (n : Nat) (hp : s.resources.aliases.Proper)
    (hn : s.resources.aliases.mappings.length ≤ n) :
    (giveUpAll n s).resources.aliases.nextDuplicate? = none := by
  induction n generalizing s with
  | zero =>
    have hnil := List.eq_nil_of_length_eq_zero (Nat.le_zero.1 hn)
    unfold giveUpAll AliasTable.nextDuplicate?
    rw [hnil]
    rfl
  | succ n ih =>
    unfold giveUpAll
    split
    · rename_i m hm
      -- every mapping that is given up makes the table shorter
      have hlt := AliasTable.length_unregister_lt hp (AliasTable.doubts_of_nextDuplicate? hm)
      exact @ih (s.giveUp m.aliasId) (hp.unregister m.aliasId)
        (Nat.le_of_lt_succ (Nat.lt_of_lt_of_le hlt hn))
    · assumption

theorem giveUpAll_standing (n : Nat) (hp : s.resources.aliases.Proper)
    (hs : s.resources.aliases.Standing a was) :
    (giveUpAll n s).resources.aliases.Standing a was := by
  induction n generalizing s with
  | zero => exact hs
  | succ n ih =>
    unfold giveUpAll
    split
    · rename_i m hm
      exact @ih (s.giveUp m.aliasId) (hp.unregister m.aliasId)
        (hs.unregister hp (AliasTable.doubts_of_nextDuplicate? hm))
    · exact hs

/-- The table is proper and knows of every mark. -/
def Marked (s : Interface) : Prop := s.resources.aliases.Proper ∧ s.resources.aliases.Flagged

theorem resolveConflicts_marked (h : s.Marked) : s.resolveConflicts.interface.Marked := by
  refine ⟨(resolveConflicts_accounts s).proper h.1, fun a ha => ?_⟩
  have hnone := giveUpAll_nextDuplicate? s.resources.aliases.mappings.length h.1 (Nat.le_refl _)
  exact absurd ha (AliasTable.nextDuplicate?_eq_none_iff.1 hnone a)

theorem takeTurn_marked (h : s.Marked) (i : Nat) : (s.takeTurn i).interface.Marked := by
  refine ⟨(takeTurn_accounts s i).proper h.1, ?_⟩
  unfold takeTurn
  split
  · exact h.2
  · rename_i n _
    split
    · exact h.2
    · unfold logIn Node.logIn
      simp only [locked]
      cases s.loginFrame with
      | some f => exact h.2
      | none =>
        simp only
        rcases (n.advance s.resources.aliases).aliases with heq | ⟨b, hr⟩ | ⟨heq, -⟩
        · rw [heq]
          exact h.2
        · intro a ha
          rw [(AliasTable.register_perm h.1 hr).2.2.1]
          exact h.2 a (AliasTable.doubts_of_register h.1 hr ha)
        · intro a ha
          rw [heq] at ha ⊢
          rw [AliasTable.hasDuplicate_permit]
          exact h.2 a (AliasTable.doubts_of_permit h.1 ha)

theorem run_marked (h : s.Marked) : (s.run streams accepts).interface.Marked := by
  refine run_invariant (P := Marked) (fun _ => resolveConflicts_marked) (fun s h => ?_)
    (fun s h => ?_) (fun s h => ?_) (fun _ _ _ h => h) (fun _ i h => takeTurn_marked h i) h
  · obtain ⟨x, o, heq⟩ := @transmit_extent accepts s
    rw [heq]
    exact h
  · unfold transmitLogin
    split
    · exact h
    · split <;> exact h
  · obtain ⟨g, b, ms, q, heq⟩ := @sendMessages_extent streams s
    rw [heq]
    exact h

theorem perform_marked (h : s.Marked) (req : Request) : (s.perform streams req).interface.Marked := by
  by_cases hrec : ∃ f, req = .receive f
  · obtain ⟨f, rfl⟩ := hrec
    refine ⟨(perform_accounts streams s (.receive f)).proper h.1, ?_⟩
    show (s.resources.receive streams f).aliases.Flagged
    rw [Resources.aliases_receive]
    split
    · exact h.2.noteConflict _
    · exact h.2
  · by_cases hrun : ∃ accepts, req = .run accepts
    · obtain ⟨accepts, rfl⟩ := hrun
      exact run_marked h
    · obtain ⟨hal, -⟩ := @perform_aside streams s req (fun f heq => hrec ⟨f, heq⟩)
        fun accepts heq => hrun ⟨accepts, heq⟩
      rw [Marked, hal]
      exact h

end Interface

end LayoutBus
