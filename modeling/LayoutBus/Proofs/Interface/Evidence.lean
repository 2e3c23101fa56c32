import LayoutBus.Proofs.Alias.Holders
import LayoutBus.Proofs.Interface.Extent
import LayoutBus.Proofs.Node.Advance

/-!
# Evidence of a conflict

When an interface takes an alias into use, it tells the bus by a frame that defines the alias, and
it keeps that frame until the driver accepts it or the alias is given up.  When it hears of the
alias from elsewhere, it marks its mapping, and the mark stays until the alias is given up.

* `Interface.Accounts` : whatever an interface is asked, every alias in use afterwards has its
  definition waiting or just sent, or was in use before with the same mark and no definition
  waiting (`Interface.perform_accounts`).
* `Interface.doubts_of_receive` : an interface that hears of its own alias marks it.
-/

namespace LayoutBus

/-- The frame defines an alias. -/
def Frame.Defines (f : Frame) (a : Nat) : Prop :=
  f.kind = .control .aliasMapDefinition ∧ f.source = a

theorem Frame.defines_aliasMapDefinition {a n : Nat} (h : Alias.Valid a) :
    (Frame.aliasMapDefinition a n).Defines a := by
  refine ⟨kind_control _ _ _, (source_control _ _ _).trans ?_⟩
  have := h.2
  unfold Alias.mask at this
  omega

namespace AliasTable

/-- The alias may be used for traffic. -/
def Uses (t : AliasTable) (a : Nat) : Prop :=
  ∃ m ∈ t.mappings, m.aliasId = a ∧ m.permitted = true

/-- The alias is marked as a duplicate. -/
def Doubts (t : AliasTable) (a : Nat) : Prop :=
  ∃ m ∈ t.mappings, m.aliasId = a ∧ m.duplicate = true

variable {t u : AliasTable} {a b n : Nat}

theorem uses_unregister (h : t.Proper) (hu : (t.unregister b).Uses a) :
    a ≠ b ∧ t.Uses a ∧ (t.Doubts a → (t.unregister b).Doubts a) := by
  have hp := unregister_perm (a := b) h
  obtain ⟨m, hm, rfl, hperm⟩ := hu
  obtain ⟨hmt, hne⟩ := List.mem_filter.1 (hp.subset hm)
  refine ⟨of_decide_eq_true hne, ⟨m, hmt, rfl, hperm⟩, ?_⟩
  rintro ⟨m', hm', ha, hd⟩
  obtain rfl := h.eq_of_aliasId hm' hmt ha
  exact ⟨m', hm, rfl, hd⟩

section Change

variable {f : Mapping → Mapping}

theorem uses_change (hc : u.mappings = t.mappings.map fun m => if m.aliasId = b then f m else m)
    (halias : ∀ m, (f m).aliasId = m.aliasId) (hu : u.Uses a) :
    ∃ m ∈ t.mappings, m.aliasId = a ∧ (if a = b then f m else m).permitted = true := by
  obtain ⟨m, hm, rfl, hperm⟩ := hu
  rw [hc, List.mem_map] at hm
  obtain ⟨m', hm', rfl⟩ := hm
  by_cases hb : m'.aliasId = b
  · simp only [hb, if_true, halias] at hperm ⊢
    exact ⟨m', hm', hb, hperm⟩
  · simp only [hb, if_false] at hperm ⊢
    exact ⟨m', hm', rfl, hperm⟩

theorem doubts_change (hc : u.mappings = t.mappings.map fun m => if m.aliasId = b then f m else m)
    (halias : ∀ m, (f m).aliasId = m.aliasId) (hdup : ∀ m, m.duplicate → (f m).duplicate)
    (hd : t.Doubts a) : u.Doubts a := by
  obtain ⟨m, hm, rfl, hd⟩ := hd
  refine ⟨if m.aliasId = b then f m else m, ?_, ?_, ?_⟩
  · rw [hc]
    exact List.mem_map_of_mem hm
  · split <;> simp [halias]
  · split
    · exact hdup m hd
    · exact hd

end Change

theorem uses_permit (h : t.Proper) (hu : (t.permit b).Uses a) :
    (a = b ∨ t.Uses a) ∧ (t.Doubts a → (t.permit b).Doubts a) := by
  have hc := modify_mappings (a := b) h fun m => { m with permitted := true }
  refine ⟨?_, doubts_change hc (fun _ => rfl) fun _ hd => hd⟩
  obtain ⟨m, hm, ha, hperm⟩ := uses_change hc (fun _ => rfl) hu
  by_cases hab : a = b
  · exact .inl hab
  · rw [if_neg hab] at hperm
    exact .inr ⟨m, hm, ha, hperm⟩

theorem uses_noteConflict (h : t.Proper) (hu : (t.noteConflict b).Uses a) :
    t.Uses a ∧ (t.Doubts a → (t.noteConflict b).Doubts a) := by
  have hc : (t.noteConflict b).mappings = _ := markDuplicate_mappings h
  refine ⟨?_, doubts_change hc (fun _ => rfl) fun _ _ => rfl⟩
  obtain ⟨m, hm, ha, hperm⟩ := uses_change hc (fun _ => rfl) hu
  refine ⟨m, hm, ha, ?_⟩
  split at hperm <;> exact hperm

theorem doubts_noteConflict (h : t.Proper) (hu : t.Uses a) : (t.noteConflict a).Doubts a := by
  obtain ⟨m, hm, rfl, -⟩ := hu
  refine ⟨{ m with duplicate := true }, ?_, rfl, rfl⟩
  unfold noteConflict
  rw [markDuplicate_mappings h]
  exact List.mem_map.2 ⟨m, hm, if_pos rfl⟩

theorem uses_register (h : t.Proper) (hr : t.register b n = .ok u) (hu : u.Uses a) :
    t.Uses a ∧ (t.Doubts a → u.Doubts a) := by
  obtain ⟨-, -, -, hp⟩ := register_perm h hr
  obtain ⟨m, hm, rfl, hperm⟩ := hu
  rcases List.mem_cons.1 (hp.subset hm) with rfl | hmt
  · cases hperm
  · have hmem := (List.mem_filter.1 hmt).1
    refine ⟨⟨m, hmem, rfl, hperm⟩, ?_⟩
    rintro ⟨m', hm', ha, hd⟩
    obtain rfl := h.eq_of_aliasId hm' hmem ha
    exact ⟨m', hm, rfl, hd⟩

end AliasTable

/-- The frame that the driver accepts. -/
def Effect.carried? : Effect → Option Frame
  | .offer _ f true => some f
  | _ => none

/-- The frames that the driver accepted, in order. -/
def accepted (es : List Effect) : List Frame := es.filterMap Effect.carried?

namespace Interface

/-- The definition of the alias waits for transmission. -/
def Announces (s : Interface) (a : Nat) : Prop := ∃ f, s.loginFrame = some f ∧ f.Defines a

/-- The alias was in use before, no definition of it was waiting, and a mark that it bore then it
bears now. -/
def Keeps (s t : Interface) (a : Nat) : Prop :=
  s.resources.aliases.Uses a ∧ ¬ s.Announces a ∧
    (s.resources.aliases.Doubts a → t.resources.aliases.Doubts a)

/-- Every alias in use afterwards has its definition waiting or among the frames that were
accepted meanwhile, or it is kept. -/
structure Accounts (s : Interface) (es : List Effect) (t : Interface) : Prop where
  proper : s.resources.aliases.Proper → t.resources.aliases.Proper
  uses : s.resources.aliases.Proper → ∀ a, t.resources.aliases.Uses a →
    t.Announces a ∨ (∃ f ∈ accepted es, f.Defines a) ∨ s.Keeps t a

variable {streams accepts : Bool} {s t u : Interface} {es fs : List Effect} {a : Nat}

namespace Accounts

theorem trans (hst : Accounts s es t) (htu : Accounts t fs u) : Accounts s (es ++ fs) u where
  proper h := htu.proper (hst.proper h)
  uses h a hu := by
    unfold accepted
    simp only [List.filterMap_append, List.mem_append]
    rcases htu.uses (hst.proper h) a hu with hann | ⟨f, hf, hd⟩ | ⟨ht, hnot, hkeep⟩
    · exact .inl hann
    · exact .inr (.inl ⟨f, .inr hf, hd⟩)
    · -- kept by the second step, so the first has to account for it
      rcases hst.uses h a ht with hann | ⟨f, hf, hd⟩ | ⟨hs, hnot', hkeep'⟩
      · exact absurd hann hnot
      · exact .inr (.inl ⟨f, .inl hf, hd⟩)
      · exact .inr (.inr ⟨hs, hnot', hkeep ∘ hkeep'⟩)

/-- Work that neither touches the mappings nor the frame of the login. -/
theorem of_same (hm : t.resources.aliases.mappings = s.resources.aliases.mappings)
    (hf : t.loginFrame = s.loginFrame) : Accounts s es t where
  proper h := ⟨hm ▸ h.valid, hm ▸ h.aliases, hm ▸ h.nodes⟩
  uses h a hu := by
    unfold AliasTable.Uses at hu
    rw [hm] at hu
    by_cases hann : s.Announces a
    · exact .inl (by unfold Announces; rw [hf]; exact hann)
    · refine .inr (.inr ⟨hu, hann, ?_⟩)
      unfold AliasTable.Doubts
      rw [hm]
      exact id

/-- Work while no frame of a login waits. -/
theorem of_none (hnone : s.loginFrame = none)
    (hp : s.resources.aliases.Proper → t.resources.aliases.Proper)
    (hu : s.resources.aliases.Proper → ∀ a, t.resources.aliases.Uses a →
      t.Announces a ∨ s.resources.aliases.Uses a ∧
        (s.resources.aliases.Doubts a → t.resources.aliases.Doubts a)) : Accounts s es t where
  proper := hp
  uses h a ha := by
    have hnot : ¬ s.Announces a := by
      rintro ⟨f, hf, -⟩
      rw [hnone] at hf
      cases hf
    rcases hu h a ha with hann | ⟨hs, hkeep⟩
    · exact .inl hann
    · exact .inr (.inr ⟨hs, hnot, hkeep⟩)

end Accounts

/-! ### The kinds of work -/

theorem giveUp_accounts (s : Interface) (b : Nat) : Accounts s es (s.giveUp b) where
  proper h := h.unregister b
  uses h a hu := by
    obtain ⟨hne, hs, hkeep⟩ := AliasTable.uses_unregister h hu
    by_cases hann : s.Announces a
    · obtain ⟨f, hf, hd⟩ := hann
      -- only a frame from the alias given up is withdrawn
      have hsource : decide (f.source ≠ b) = true := decide_eq_true (hd.2 ▸ hne)
      refine .inl ⟨f, ?_, hd⟩
      show s.loginFrame.filter _ = some f
      rw [hf, Option.filter_some, if_pos hsource]
    · exact .inr (.inr ⟨hs, hann, hkeep⟩)

theorem giveUpAll_accounts (n : Nat) (s : Interface) : Accounts s [] (giveUpAll n s) := by
  induction n generalizing s with
  | zero => exact .of_same rfl rfl
  | succ n ih =>
    unfold giveUpAll
    split
    · exact @Accounts.trans s _ _ [] [] (giveUp_accounts s _) (ih _)
    · exact .of_same rfl rfl

theorem resolveConflicts_accounts (s : Interface) :
    Accounts s s.resolveConflicts.trace s.resolveConflicts.interface := by
  have h := giveUpAll_accounts s.resources.aliases.mappings.length s
  exact h.trans (.of_same rfl rfl)

theorem transmit_accounts (s : Interface) : Accounts s es (s.transmit accepts).interface := by
  obtain ⟨x, o, h⟩ := @transmit_extent accepts s
  rw [h]
  exact .of_same rfl rfl

theorem transmitLogin_accounts (s : Interface) :
    Accounts s (s.transmitLogin accepts).trace (s.transmitLogin accepts).interface := by
  unfold transmitLogin
  split
  · exact .of_same rfl rfl
  · rename_i f hf
    split
    · refine ⟨id, fun h a hu => ?_⟩
      by_cases hann : s.Announces a
      · obtain ⟨g, hg, hd⟩ := hann
        obtain rfl : f = g := Option.some.inj (hf.symm.trans hg)
        exact .inr (.inl ⟨f, List.mem_singleton_self f, hd⟩)
      · exact .inr (.inr ⟨hu, hann, id⟩)
    · exact .of_same rfl rfl

theorem sendMessages_accounts (s : Interface) :
    Accounts s es (s.sendMessages streams).interface := by
  obtain ⟨g, b, ms, q, h⟩ := @sendMessages_extent streams s
  rw [h]
  exact .of_same rfl rfl

theorem logIn_accounts (s : Interface) (i : Nat) (n : Node) :
    Accounts s es (s.logIn i n).interface := by
  unfold logIn Node.logIn
  simp only [locked]
  cases hf : s.loginFrame with
  | some f => exact .of_same rfl hf.symm
  | none =>
    simp only
    rcases (n.advance s.resources.aliases).aliases with heq | ⟨b, hr⟩ | ⟨heq, hframe⟩
    · refine .of_none hf (fun h => by rw [heq]; exact h) fun _ a hu => .inr ?_
      simp only [heq] at hu ⊢
      exact ⟨hu, id⟩
    · exact .of_none hf (fun h => h.register hr) fun h a hu => .inr (AliasTable.uses_register h hr hu)
    · refine .of_none hf (fun h => by rw [heq]; exact h.permit _) fun h a hu => ?_
      simp only [heq] at hu ⊢
      obtain ⟨rfl | hs, hkeep⟩ := AliasTable.uses_permit h hu
      · -- the alias that is permitted now is defined by the same step
        obtain ⟨m, hm, ha, -⟩ := hu
        have hvalid := (h.permit n.aliasId).valid m hm
        exact .inl ⟨_, hframe, Frame.defines_aliasMapDefinition (ha ▸ hvalid)⟩
      · exact .inr ⟨hs, hkeep⟩

theorem takeTurn_accounts (s : Interface) (i : Nat) :
    Accounts s (s.takeTurn i).trace (s.takeTurn i).interface := by
  unfold takeTurn
  split
  · exact .of_same rfl rfl
  · split
    · exact .of_same rfl rfl
    · exact logIn_accounts s i _

theorem receive_accounts (s : Interface) (f : Frame) :
    Accounts s es (s.receive streams f).interface := by
  have hal := Resources.aliases_receive streams s.resources f
  unfold receive
  cases hk : f.kind with
  | control k =>
    rw [hk] at hal
    refine ⟨fun h => by rw [hal]; exact h.markDuplicate _, fun h a hu => ?_⟩
    simp only [hal] at hu
    obtain ⟨hs, hkeep⟩ := AliasTable.uses_noteConflict h hu
    by_cases hann : s.Announces a
    · exact .inl hann
    · exact .inr (.inr ⟨hs, hann, by rw [hal]; exact hkeep⟩)
  | checkId number | unknownControl field | message t =>
    rw [hk] at hal
    exact .of_same (congrArg AliasTable.mappings hal) rfl

/-! ### Requests -/

/-- Whatever an interface is asked, every alias in use afterwards is accounted for. -/
theorem perform_accounts (streams : Bool) (s : Interface) (req : Request) :
    Accounts s (s.perform streams req).trace (s.perform streams req).interface := by
  by_cases hrec : ∃ f, req = .receive f
  · obtain ⟨f, rfl⟩ := hrec
    exact receive_accounts s f
  · by_cases hrun : ∃ accepts, req = .run accepts
    · obtain ⟨accepts, rfl⟩ := hrun
      exact run_rel .trans resolveConflicts_accounts (fun s => transmit_accounts s)
        transmitLogin_accounts (fun s => sendMessages_accounts s) (fun _ _ _ => .of_same rfl rfl)
        takeTurn_accounts s
    · obtain ⟨hal, hlogin, -⟩ := @perform_aside streams s req (fun f heq => hrec ⟨f, heq⟩)
        fun accepts heq => hrun ⟨accepts, heq⟩
      exact .of_same (congrArg AliasTable.mappings hal) hlogin

/-- An interface that hears of its own alias marks it. -/
theorem doubts_of_receive {f : Frame} (h : s.resources.aliases.Proper)
    (hu : s.resources.aliases.Uses a) (hf : f.Defines a) :
    (s.receive streams f).interface.resources.aliases.Doubts a := by
  have hal := Resources.aliases_receive streams s.resources f
  rw [hf.1, hf.2] at hal
  show (s.resources.receive streams f).aliases.Doubts a
  rw [hal]
  exact AliasTable.doubts_noteConflict h hu

end Interface

end LayoutBus
