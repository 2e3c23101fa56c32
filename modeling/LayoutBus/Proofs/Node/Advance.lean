import LayoutBus.Node.Login

/-!
# Steps of a login

The phase of a node decides what the next step of its login is, except where a search, the table of
aliases, the clock or a list of events has a say.

* `Node.Advance` : the steps that there are, each with what is known when it is taken.
* `Node.advance` : every step is one of them.
-/

namespace LayoutBus

namespace Node

/-- What a step of the login can be. -/
inductive Advance (n : Node) (t : AliasTable) : LoginStep → Prop where
  /-- There is no alias to be had, the wait is not over, or the node is logged in. -/
  | stay :
      n.phase = .pickAlias ∧ Seed.find? (n.mayTake t) n.seed = none ∨
        n.phase = .wait ∧ n.ticks < Limits.loginWait ∨ n.phase = .running →
      Advance n t { node := n, aliases := t }
  /-- Goes on to a seed, without an alias. -/
  | seek (seed : Nat) :
      n.phase = .start ∨ n.phase = .nextSeed ∨ n.phase = .pickAlias →
      Advance n t { node := { n with seed, phase := .pickAlias }, aliases := t }
  | pick (seed : Nat) {u : AliasTable} :
      n.phase = .pickAlias → Seed.find? (n.mayTake t) n.seed = some seed →
      t.register (Seed.aliasOf seed) n.id = .ok u →
      Advance n t
        { node := { n with seed, aliasId := Seed.aliasOf seed, phase := .check7 }
          aliases := u
          picked := some (Seed.aliasOf seed) }
  | check7 :
      n.phase = .check7 →
      Advance n t
        { node := { n with phase := .check6 }
          aliases := t
          frame := some (.checkId 7 n.aliasId n.id) }
  | check6 :
      n.phase = .check6 →
      Advance n t
        { node := { n with phase := .check5 }
          aliases := t
          frame := some (.checkId 6 n.aliasId n.id) }
  | check5 :
      n.phase = .check5 →
      Advance n t
        { node := { n with phase := .check4 }
          aliases := t
          frame := some (.checkId 5 n.aliasId n.id) }
  | check4 :
      n.phase = .check4 →
      Advance n t
        { node := { n with phase := .wait, ticks := 0 }
          aliases := t
          frame := some (.checkId 4 n.aliasId n.id) }
  | waited :
      n.phase = .wait → Limits.loginWait ≤ n.ticks →
      Advance n t { node := { n with phase := .reserve }, aliases := t }
  | reserve :
      n.phase = .reserve →
      Advance n t
        { node := { n with phase := .define }, aliases := t, frame := some (.reserveId n.aliasId) }
  | define :
      n.phase = .define →
      Advance n t
        { node := { n with phase := .announce, flags := { n.flags with permitted := true } }
          aliases := t.permit n.aliasId
          frame := some (.aliasMapDefinition n.aliasId n.id) }
  | announce :
      n.phase = .announce →
      Advance n t
        { node :=
            { n with
              phase := .producers
              flags := { n.flags with initialized := true }
              producers := n.producers.rewind
              consumers := n.consumers.rewind }
          aliases := t
          frame := some n.initializationComplete }
  | produce (e : Event) {producers : EventList Limits.producerDepth} :
      n.phase = .producers → n.producers.next = some (e, producers) →
      Advance n t
        { node := { n with producers }
          aliases := t
          frame := some (n.identified e.status.producerMti e) }
  | produced :
      n.phase = .producers → n.producers.next = none →
      Advance n t { node := { n with phase := .consumers }, aliases := t }
  | consume (e : Event) {consumers : EventList Limits.consumerDepth} :
      n.phase = .consumers → n.consumers.next = some (e, consumers) →
      Advance n t
        { node := { n with consumers }
          aliases := t
          frame := some (n.identified e.status.consumerMti e) }
  | consumed :
      n.phase = .consumers → n.consumers.next = none →
      Advance n t { node := { n with phase := .running }, aliases := t }

theorem advance_pickAlias {n : Node} (hp : n.phase = .pickAlias) (t : AliasTable) :
    n.Advance t (n.pickAlias t) := by
  rw [pickAlias]
  split
  · rename_i hnone
    exact .stay (.inl ⟨hp, hnone⟩)
  · rename_i seed hseed
    split
    · have hsame : { n with seed } = { n with seed, phase := .pickAlias } := by rw [← hp]
      rw [hsame]
      exact .seek seed (.inr (.inr hp))
    · rename_i hr
      exact .pick seed hp hseed hr

/-- Every step of a login is one of these. -/
theorem advance (n : Node) (t : AliasTable) : n.Advance t (n.logInStep t) := by
  rw [logInStep]
  split <;> rename_i hp
  case h_1 => exact .seek n.id (.inl hp)
  case h_2 => exact .seek (Seed.next n.seed) (.inr (.inl hp))
  case h_3 => exact advance_pickAlias hp t
  case h_4 => exact .check7 hp
  case h_5 => exact .check6 hp
  case h_6 => exact .check5 hp
  case h_7 => exact .check4 hp
  case h_8 =>
    split
    · exact .waited hp ‹_›
    · exact .stay (.inr (.inl ⟨hp, Nat.lt_of_not_le ‹_›⟩))
  case h_9 => exact .reserve hp
  case h_10 => exact .define hp
  case h_11 => exact .announce hp
  case h_12 =>
    split
    · exact .produce _ hp ‹_›
    · exact .produced hp ‹_›
  case h_13 =>
    split
    · exact .consume _ hp ‹_›
    · exact .consumed hp ‹_›
  case h_14 => exact .stay (.inr (.inr hp))

/-! ### What all steps have in common -/

namespace Advance

variable {n : Node} {t : AliasTable} {step : LoginStep}

theorem id (hstep : n.Advance t step) : step.node.id = n.id := by
  cases hstep <;> rfl

theorem previousAlias (hstep : n.Advance t step) : step.node.previousAlias = n.previousAlias := by
  cases hstep <;> rfl

/-- The login of a node is no concern of what the node keeps. -/
theorem retained (hstep : n.Advance t step) : step.node.retained = n.retained := by
  cases hstep <;> rfl

/-- The frame of a login comes from the alias of the node. -/
theorem source (hstep : n.Advance t step) (hvalid : Alias.Valid n.aliasId) {f : Frame}
    (hf : step.frame = some f) : f.source = n.aliasId := by
  have hsource : f.source = n.aliasId % 0x1000 := by
    cases hstep with
    | stay | seek | pick | waited | produced | consumed => cases hf
    | _ =>
      cases hf
      exact Frame.source_pack _
  rw [hsource]
  exact Nat.mod_eq_of_lt (Nat.lt_succ_of_le hvalid.2)

/-- A step of the login leaves the aliases alone, registers an alias for the node, or permits the
alias of the node and defines it on the bus. -/
theorem aliases (hstep : n.Advance t step) :
    step.aliases = t ∨ (∃ a, t.register a n.id = .ok step.aliases) ∨
      step.aliases = t.permit n.aliasId ∧
        step.frame = some (.aliasMapDefinition n.aliasId n.id) := by
  cases hstep with
  | pick seed _ _ hr => exact .inr (.inl ⟨_, hr⟩)
  | define => exact .inr (.inr ⟨rfl, rfl⟩)
  | _ => exact .inl rfl

end Advance

theorem retained_logIn (n : Node) (t : AliasTable) (pending : Option Frame) :
    (n.logIn t pending).node.retained = n.retained := by
  unfold logIn
  split
  · rfl
  · exact (n.advance t).retained

end Node

end LayoutBus
