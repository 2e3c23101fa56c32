import LayoutBus.Node.Registry
import LayoutBus.Proofs.Node.Advance

/-!
# The course of a login

The phase of a node says whether the node has an alias, may use it, and has announced itself.

* `Phase.level` : three events divide the phases.
* `Node.Orderly` : what the phase says is so.  A new node is orderly, and every step of its login
  and every restart leaves it orderly.
* `Node.claim?` : what a node with an alias should have in the table of aliases.
* `Node.Advance.claim?` : a step of the login leaves the claim of the node and the table alone,
  registers a new claim, or permits the claim that there is.
-/

namespace LayoutBus

/-- A node, its alias, and whether it may use it. -/
structure Claim where
  aliasId : Nat
  nodeId : Nat
  permitted : Bool
deriving DecidableEq

/-- What a mapping says, its mark aside. -/
def Mapping.claim (m : Mapping) : Claim := ⟨m.aliasId, m.nodeId, m.permitted⟩

/-- How many of three events of a login have taken place: the choice of an alias, its definition on
the bus, and the announcement of the node. -/
def Phase.level : Phase → Nat
  | start | nextSeed | pickAlias => 0
  | check7 | check6 | check5 | check4 | wait | reserve | define => 1
  | announce => 2
  | producers | consumers | running => 3

theorem Phase.two_le_level_iff (p : Phase) : 2 ≤ p.level ↔ Phase.announce.code ≤ p.code := by
  cases p <;> decide

theorem Phase.three_le_level_iff (p : Phase) : 3 ≤ p.level ↔ Phase.producers.code ≤ p.code := by
  cases p <;> decide

namespace Node

/-- What a node with an alias should have in the table of aliases. -/
def claim? (n : Node) : Option Claim :=
  if n.aliasId = 0 then none else some ⟨n.aliasId, n.id, n.flags.permitted⟩

/-- The alias and the conditions of the node are those of its phase. -/
structure Orderly (n : Node) : Prop where
  id : NodeId.Valid n.id
  named : n.aliasId ≠ 0 ↔ 1 ≤ n.phase.level
  permitted : n.flags.permitted = true ↔ 2 ≤ n.phase.level
  initialized : n.flags.initialized = true ↔ 3 ≤ n.phase.level

variable {n m : Node} {p : Phase}

theorem claim?_of_named (h : n.aliasId ≠ 0) :
    n.claim? = some ⟨n.aliasId, n.id, n.flags.permitted⟩ := if_neg h

theorem claim?_eq_some_iff {c : Claim} :
    n.claim? = some c ↔ n.aliasId ≠ 0 ∧ ⟨n.aliasId, n.id, n.flags.permitted⟩ = c := by
  rw [claim?]
  split <;> simp [*]

theorem aliasId_eq_of_claim? {c : Claim} (h : n.claim? = some c) : n.aliasId = c.aliasId :=
  congrArg Claim.aliasId (claim?_eq_some_iff.1 h).2

namespace Orderly

theorem of_level_eq_zero (hid : NodeId.Valid n.id) (halias : n.aliasId = 0) (hflags : n.flags = {})
    (hlevel : n.phase.level = 0) : n.Orderly where
  id := hid
  named := by simp [halias, hlevel]
  permitted := by simp [hflags, hlevel]
  initialized := by simp [hflags, hlevel]

theorem create {id : Nat} (h : NodeId.Valid id) (params : NodeParameters) :
    (Node.create id params).Orderly :=
  .of_level_eq_zero h rfl rfl rfl

theorem restart (h : n.Orderly) : n.restart.Orderly := .of_level_eq_zero h.id rfl rfl rfl

/-- A node that has only moved on between two events of its login. -/
theorem of_level (h : n.Orderly) (hn : n.phase = p) (hlevel : m.phase.level = p.level)
    (hid : m.id = n.id) (halias : m.aliasId = n.aliasId)
    (hperm : m.flags.permitted = n.flags.permitted)
    (hinit : m.flags.initialized = n.flags.initialized) : m.Orderly where
  id := hid ▸ h.id
  named := by rw [halias, h.named, hn, hlevel]
  permitted := by rw [hperm, h.permitted, hn, hlevel]
  initialized := by rw [hinit, h.initialized, hn, hlevel]

theorem aliasId_ne_zero (h : n.Orderly) (hn : n.phase = p) (hp : 1 ≤ p.level) : n.aliasId ≠ 0 :=
  h.named.2 (hn ▸ hp)

theorem claim?_eq_none (h : n.Orderly) (hn : n.phase = p) (hp : p.level = 0) :
    n.claim? = none := by
  refine if_pos (Decidable.not_not.1 fun hne => ?_)
  have hlevel := h.named.1 hne
  rw [hn, hp] at hlevel
  cases hlevel

theorem permitted_eq_false (h : n.Orderly) (hn : n.phase = p) (hp : p.level ≤ 1) :
    n.flags.permitted = false := by
  rw [← Bool.not_eq_true, h.permitted, hn]
  omega

theorem initialized_eq_false (h : n.Orderly) (hn : n.phase = p) (hp : p.level ≤ 2) :
    n.flags.initialized = false := by
  rw [← Bool.not_eq_true, h.initialized, hn]
  omega

end Orderly

namespace Advance

variable {t : AliasTable} {step : LoginStep}

/-- A step of the login leaves an orderly node orderly, if an alias that it takes is not zero. -/
theorem orderly (hstep : n.Advance t step) (h : n.Orderly)
    (hpick : ∀ a, step.picked = some a → a ≠ 0) : step.node.Orderly := by
  cases hstep with
  | stay => exact h
  | seek seed hp =>
    have hlevel : n.phase.level = 0 := by rcases hp with hp | hp | hp <;> rw [hp] <;> rfl
    exact h.of_level rfl hlevel.symm rfl rfl rfl rfl
  | pick seed hp =>
    have hperm := h.permitted_eq_false hp (Nat.zero_le 1)
    have hinit := h.initialized_eq_false hp (Nat.zero_le 2)
    exact ⟨h.id, iff_of_true (hpick _ rfl) (Nat.le_refl 1), by simp [hperm, Phase.level],
      by simp [hinit, Phase.level]⟩
  | check7 hp | check6 hp | check5 hp | check4 hp | waited hp | reserve hp =>
    exact h.of_level hp rfl rfl rfl rfl rfl
  | define hp =>
    have hinit := h.initialized_eq_false hp (by decide)
    exact ⟨h.id, iff_of_true (h.aliasId_ne_zero hp (by decide)) (by simp [Phase.level]),
      iff_of_true rfl (Nat.le_refl 2), by simp [hinit, Phase.level]⟩
  | announce hp =>
    have hperm : n.flags.permitted = true := h.permitted.2 (by rw [hp]; decide)
    exact ⟨h.id, iff_of_true (h.aliasId_ne_zero hp (by decide)) (by simp [Phase.level]),
      iff_of_true hperm (by simp [Phase.level]), iff_of_true rfl (Nat.le_refl 3)⟩
  | produce e hp | consume e hp => exact h.of_level hp (congrArg Phase.level hp) rfl rfl rfl rfl
  | produced hp | consumed hp => exact h.of_level hp rfl rfl rfl rfl rfl

/-- What a step of the login does to the claims of the interface. -/
theorem claim? (hstep : n.Advance t step) (h : n.Orderly) :
    (step.aliases = t ∧ step.picked = none ∧ step.node.claim? = n.claim?) ∨
    (∃ a, n.claim? = none ∧ step.picked = some a ∧ t.register a n.id = .ok step.aliases ∧
      (a ≠ 0 → step.node.claim? = some ⟨a, n.id, false⟩)) ∨
    (step.picked = none ∧ step.aliases = t.permit n.aliasId ∧
      n.claim? = some ⟨n.aliasId, n.id, false⟩ ∧
      step.node.claim? = some ⟨n.aliasId, n.id, true⟩) := by
  cases hstep with
  | pick seed hp _ hr =>
    refine .inr (.inl ⟨_, h.claim?_eq_none hp rfl, rfl, hr, fun ha => ?_⟩)
    rw [claim?_of_named ha, h.permitted_eq_false hp (Nat.zero_le 1)]
  | define hp =>
    have hne := h.aliasId_ne_zero hp (by decide)
    refine .inr (.inr ⟨rfl, rfl, ?_, claim?_of_named hne⟩)
    rw [claim?_of_named hne, h.permitted_eq_false hp (by decide)]
  | _ => exact .inl ⟨rfl, rfl, rfl⟩

/-- A node without an alias sends nothing.  It stays without one, or it picks one and goes on to
check it. -/
theorem unnamed (hstep : n.Advance t step) (h : n.Orderly) (hzero : n.aliasId = 0) :
    step.frame = none ∧
      (step.picked = none ∧ step.node.aliasId = 0 ∨
        step.picked = some step.node.aliasId ∧ step.node.phase = .check7) := by
  cases hstep with
  | pick => exact ⟨rfl, .inr ⟨rfl, rfl⟩⟩
  | stay | seek => exact ⟨rfl, .inl ⟨rfl, hzero⟩⟩
  | check7 hp | check6 hp | check5 hp | check4 hp | waited hp | reserve hp | define hp
  | announce hp | produce _ hp | produced hp | consume _ hp | consumed hp =>
    exact absurd hzero (h.aliasId_ne_zero hp (by decide))

/-- A node with an alias picks no other. -/
theorem named (hstep : n.Advance t step) (h : n.Orderly) (hne : n.aliasId ≠ 0) :
    step.picked = none ∧ step.node.aliasId = n.aliasId := by
  rcases hstep.claim? h with ⟨-, hpick, hc⟩ | ⟨a, hnone, -⟩ | ⟨hpick, -, -, hc⟩
  · exact ⟨hpick, aliasId_eq_of_claim? (hc.trans (claim?_of_named hne))⟩
  · rw [claim?_of_named hne] at hnone
    cases hnone
  · exact ⟨hpick, aliasId_eq_of_claim? hc⟩

/-- A node that has chosen its alias keeps it. -/
theorem aliasId_of_level (hstep : n.Advance t step) (h : n.Orderly) (hlevel : 1 ≤ n.phase.level) :
    n.aliasId ≠ 0 ∧ step.node.aliasId = n.aliasId :=
  ⟨h.named.2 hlevel, (hstep.named h (h.named.2 hlevel)).2⟩

/-- The alias that a node picks is the one that it has afterwards. -/
theorem picked {a : Nat} (hstep : n.Advance t step) (hpick : step.picked = some a) :
    a = step.node.aliasId := by
  cases hstep with
  | pick => exact (Option.some.inj hpick).symm
  | _ => cases hpick

end Advance

end Node

end LayoutBus
