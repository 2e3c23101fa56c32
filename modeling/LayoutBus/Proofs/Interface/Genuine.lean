import LayoutBus.Proofs.Interface.Standing

/-!
# Holders are nodes

An alias is given to nodes only, and an enquiry for the node id zero finds nobody: in every table an
interface can build, the holders of aliases have valid node ids (`AliasTable.Genuine`).

* `Interface.after_genuine` : this holds whatever an interface is asked to do.
-/

namespace LayoutBus

namespace Interface

variable {streams accepts : Bool} {s : Interface}

/-- The holders of the aliases are nodes. -/
def Genuine (s : Interface) : Prop := s.resources.aliases.Genuine

theorem giveUpAll_genuine (n : Nat) (h : s.Genuine) : (giveUpAll n s).Genuine := by
  induction n generalizing s with
  | zero => exact h
  | succ n ih =>
    unfold giveUpAll
    split
    · rename_i m _
      exact @ih (s.giveUp m.aliasId) (AliasTable.Genuine.unregister h m.aliasId)
    · exact h

theorem resolveConflicts_genuine (h : s.Genuine) : s.resolveConflicts.interface.Genuine := by
  have hall := giveUpAll_genuine s.resources.aliases.mappings.length h
  exact ⟨⟨hall.valid, hall.aliases, hall.nodes⟩, hall.nodeIds⟩

theorem takeTurn_genuine (h : s.Genuine) (i : Nat) : (s.takeTurn i).interface.Genuine := by
  unfold takeTurn
  split
  · exact h
  · rename_i n _
    split
    · exact h
    · unfold logIn Node.logIn
      simp only [locked]
      cases s.loginFrame with
      | some f => exact h
      | none =>
        show (n.logInStep s.resources.aliases).aliases.Genuine
        rcases (n.advance s.resources.aliases).aliases with heq | ⟨b, hr⟩ | ⟨heq, -⟩
        · rw [heq]
          exact h
        · exact AliasTable.Genuine.register h hr
        · rw [heq]
          exact AliasTable.Genuine.permit h n.aliasId

theorem run_genuine (h : s.Genuine) : (s.run streams accepts).interface.Genuine := by
  refine run_invariant (P := Genuine) (fun _ => resolveConflicts_genuine) (fun s h => ?_)
    (fun s h => ?_) (fun s h => ?_) (fun _ _ _ h => h) (fun _ i h => takeTurn_genuine h i) h
  · obtain ⟨x, o, heq⟩ := @transmit_extent accepts s
    rw [heq]
    exact h
  · unfold transmitLogin
    split
    · exact h
    · split <;> exact h
  · obtain ⟨g, b, ms, q, heq⟩ := @sendMessages_extent streams s
    rw [heq]
    exact h

theorem perform_genuine (h : s.Genuine) (req : Request) :
    (s.perform streams req).interface.Genuine := by
  by_cases hrec : ∃ f, req = .receive f
  · obtain ⟨f, rfl⟩ := hrec
    show (s.resources.receive streams f).aliases.Genuine
    rw [Resources.aliases_receive]
    split
    · exact AliasTable.Genuine.markDuplicate h f.source
    · exact h
  · by_cases hrun : ∃ accepts, req = .run accepts
    · obtain ⟨accepts, rfl⟩ := hrun
      exact run_genuine h
    · obtain ⟨hal, -⟩ := @perform_aside streams s req (fun f heq => hrec ⟨f, heq⟩)
        fun accepts heq => hrun ⟨accepts, heq⟩
      rw [Genuine, hal]
      exact h

/-- The holders of the aliases are nodes in every table that an interface can build. -/
theorem after_genuine (h : s.Genuine) (reqs : List Request) : (s.after streams reqs).Genuine := by
  induction reqs generalizing s with
  | nil => exact h
  | cons req reqs ih => exact ih (perform_genuine h req)

end Interface

end LayoutBus
