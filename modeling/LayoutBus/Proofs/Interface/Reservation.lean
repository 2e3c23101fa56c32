import LayoutBus.Proofs.Interface.Lone
import LayoutBus.Proofs.Wire.MessageData

/-!
# The wait before an alias is reserved

Between the last check of its alias and the claim of it a node waits for objections.  It counts the ticks
from the turn that puts the check into the place for frames of a login, not from the moment when the
driver accepts the check.

* `Watch` : the ticks since the last turn, and since the turn that came before the last check
  that was accepted.
* `Interface.Waits` : the ticks that a node has counted are among these.
* `Reservation` : a login in which `d` ticks pass before the driver accepts the last check, and `w` ticks
  before it accepts the claim.
* `Interface.reservation_iff` : **reservation.**  There is such a login if and only if `d + w` is three or
  more.  So the wait after the check may be cut short (`Interface.reserves_at_once`).
-/

namespace LayoutBus

/-! ### Steps of a login -/

/-- The wait is over. -/
def Phase.hasWaited : Phase → Bool
  | reserve | define | announce | producers | consumers | running => true
  | _ => false

namespace Node.Advance

variable {n : Node} {t : AliasTable} {step : LoginStep} {f : Frame}

/-- The frames of a login by their kind, with the phase that sends them. -/
theorem kind (hstep : n.Advance t step) (hf : step.frame = some f) :
    (∃ number, f.kind = .checkId number ∧
        (number = 4 → n.phase = .check4 ∧ step.node.phase = .wait ∧ step.node.ticks = 0)) ∨
      (f.kind = .control .reserveId ∧ n.phase = .reserve) ∨
      f.kind = .control .aliasMapDefinition ∨ ∃ type, f.kind = .message type := by
  cases hstep with
  | stay | seek | pick | waited | produced | consumed => cases hf
  | check7 | check6 | check5 =>
    cases hf
    exact .inl ⟨_, Frame.kind_checkId (by decide), fun heq => absurd heq (by decide)⟩
  | check4 hp =>
    cases hf
    exact .inl ⟨4, Frame.kind_checkId (by decide), fun _ => ⟨hp, rfl, rfl⟩⟩
  | reserve hp =>
    cases hf
    exact .inr (.inl ⟨Frame.kind_control _ _ _, hp⟩)
  | define =>
    cases hf
    exact .inr (.inr (.inl (Frame.kind_control _ _ _)))
  | announce | produce | consume =>
    cases hf
    exact .inr (.inr (.inr ⟨_, Frame.kind_messageData _⟩))

theorem of_checkId (hstep : n.Advance t step) (hf : step.frame = some f) (hk : f.kind = .checkId 4) :
    n.phase = .check4 ∧ step.node.phase = .wait ∧ step.node.ticks = 0 := by
  rcases hstep.kind hf with ⟨number, hk', hcheck⟩ | ⟨hk', -⟩ | hk' | ⟨type, hk'⟩ <;> rw [hk] at hk'
  · exact hcheck (FrameKind.checkId.inj hk').symm
  all_goals cases hk'

theorem of_reserveId (hstep : n.Advance t step) (hf : step.frame = some f)
    (hk : f.kind = .control .reserveId) : n.phase = .reserve := by
  rcases hstep.kind hf with ⟨number, hk', -⟩ | ⟨-, hphase⟩ | hk' | ⟨type, hk'⟩
  case inr.inl => exact hphase
  all_goals
    rw [hk] at hk'
    cases hk'

/-- A node that waits has just sent the last check, or it has waited before. -/
theorem wait (hstep : n.Advance t step) (h : step.node.phase = .wait) :
    (n.phase = .wait ∧ step.node = n) ∨
      n.phase = .check4 ∧ step.frame = some (.checkId 4 n.aliasId n.id) := by
  cases hstep with
  | stay => exact .inl ⟨h, rfl⟩
  | check4 hp => exact .inr ⟨hp, rfl⟩
  | produce _ hp | consume _ hp => cases hp.symm.trans h
  | _ => cases h

/-- A node that has done with waiting has waited long enough. -/
theorem hasWaited (hstep : n.Advance t step) (h : step.node.phase.hasWaited = true) :
    n.phase.hasWaited = true ∨ n.phase = .wait ∧ Limits.loginWait ≤ n.ticks := by
  cases hstep with
  | stay => exact .inl h
  | waited hp hlong => exact .inr ⟨hp, hlong⟩
  | seek | pick | check7 | check6 | check5 | check4 => cases h
  | reserve hp | define hp | announce hp | produce _ hp | produced hp | consume _ hp | consumed hp =>
    exact .inl (hp ▸ rfl)

end Node.Advance

/-! ### Counting ticks -/

/-- Two counts of ticks. -/
structure Watch where
  /-- Since the last turn of a node. -/
  turn : Nat := 0
  /-- Since the turn that was the last one before the driver accepted the last check of an alias. -/
  check : Nat := 0

/-- Keeps the two counts for an alias, and allows the claim of it only after the wait. -/
def Monitor.reservation (a : Nat) : Monitor Watch where
  note w
    | .tick => { turn := w.turn + 1, check := w.check + 1 }
    | .seen (.turn _) => { w with turn := 0 }
    | .seen (.offer .login f true) =>
      if f.kind = .checkId 4 ∧ f.source = a then { w with check := w.turn } else w
    | _ => w
  allows w o := ∀ f, o = .seen (.offer .login f true) → f.kind = .control .reserveId →
    f.source = a → Limits.loginWait ≤ w.check

namespace Interface

variable {streams : Bool} {s t : Interface} {a : Nat} {w : Watch} {k : FrameKind} {req : Request}
  {es : List Effect}

/-- A frame of this kind from the login with the alias waits for the driver. -/
def Pends (s : Interface) (a : Nat) (k : FrameKind) : Prop :=
  ∃ f, s.loginFrame = some f ∧ f.kind = k ∧ f.source = a

theorem not_pends (h : s.loginFrame = none) : ¬ s.Pends a k := by
  rintro ⟨f, hf, -⟩
  rw [h] at hf
  cases hf

/-- What the node with the alias has counted are ticks that the watch has counted too. -/
structure Waits (a : Nat) (s : Interface) (w : Watch) : Prop where
  /-- The last check waits for the driver. -/
  checking : s.Pends a (.checkId 4) → ∀ n ∈ s.nodes.nodes, n.aliasId ≠ 0 → n.aliasId = a →
    n.phase = .wait ∧ n.ticks ≤ w.turn
  /-- The driver has accepted the last check. -/
  waiting : ¬ s.Pends a (.checkId 4) → ∀ n ∈ s.nodes.nodes, n.aliasId ≠ 0 → n.aliasId = a →
    n.phase = .wait → n.ticks ≤ w.check
  waited : ∀ n ∈ s.nodes.nodes, n.aliasId ≠ 0 → n.aliasId = a → n.phase.hasWaited = true →
    Limits.loginWait ≤ w.check
  /-- The claim waits for the driver. -/
  reserving : s.Pends a (.control .reserveId) → Limits.loginWait ≤ w.check

/-- Nothing of a login happens. -/
theorem note_aside (hes : ∀ e ∈ es, e.aside = true) :
    (Monitor.reservation a).Clears w (es.map .seen) ∧
      (Monitor.reservation a).after w (es.map .seen) = w := by
  refine Monitor.clears_of_ignored fun o ho => ?_
  obtain ⟨e, he, rfl⟩ := List.mem_map.1 ho
  have haside := hes e he
  cases e with
  | offer origin f x =>
    cases origin with
    | login => cases haside
    | outbox => exact ⟨fun f heq => (by cases heq), rfl⟩
  | turn i => cases haside
  | picked a i => cases haside
  | _ => exact ⟨fun f heq => (by cases heq), rfl⟩

namespace Waits

/-- The nodes and the frame of a login are the same, up to those of other aliases. -/
theorem of_same (h : Waits a s w)
    (hnodes : ∀ n ∈ t.nodes.nodes, n.aliasId ≠ 0 → n.aliasId = a → n ∈ s.nodes.nodes)
    (hpends : ∀ k, t.Pends a k ↔ s.Pends a k) : Waits a t w where
  checking hp n hn hne ha := h.checking ((hpends _).1 hp) n (hnodes n hn hne ha) hne ha
  waiting hp n hn hne ha := h.waiting (fun hs => hp ((hpends _).2 hs)) n (hnodes n hn hne ha) hne ha
  waited n hn hne ha := h.waited n (hnodes n hn hne ha) hne ha
  reserving hp := h.reserving ((hpends _).1 hp)

/-- Aliases are given up. -/
theorem conflicts {p : Nat → Bool} (h : Waits a s w) (hgives : GivesUp p s t) : Waits a t w := by
  cases hp : p a with
  | true =>
    -- neither a node with the alias nor a frame from it is left
    have hnode : ∀ n ∈ t.nodes.nodes, n.aliasId ≠ 0 → n.aliasId ≠ a := by
      rintro n hn hne rfl
      rw [(hgives.kept hn hne).2] at hp
      cases hp
    have hpends : ∀ k, ¬ t.Pends a k := by
      rintro k ⟨f, hf, -, rfl⟩
      rw [hgives.login, Option.filter_eq_some_iff, hp] at hf
      cases hf.2
    exact ⟨fun hk => absurd hk (hpends _), fun _ n hn hne ha => absurd ha (hnode n hn hne),
      fun n hn hne ha => absurd ha (hnode n hn hne), fun hk => absurd hk (hpends _)⟩
  | false =>
    refine h.of_same (fun n hn hne _ => (hgives.kept hn hne).1) fun k => ?_
    refine exists_congr fun f => ?_
    rw [hgives.login, Option.filter_eq_some_iff]
    constructor
    · rintro ⟨⟨hf, -⟩, hk, ha⟩
      exact ⟨hf, hk, ha⟩
    · rintro ⟨hf, hk, rfl⟩
      exact ⟨⟨hf, by rw [hp]; rfl⟩, hk, rfl⟩

/-- The driver accepts the frame of a login. -/
theorem accepted {f : Frame} (h : Waits a s w) (hf : s.loginFrame = some f)
    (hnodes : t.nodes.nodes = s.nodes.nodes) (hlogin : t.loginFrame = none) :
    Waits a t ((Monitor.reservation a).note w (.seen (.offer .login f true))) := by
  have hnone : ∀ k, ¬ t.Pends a k := fun k => not_pends hlogin
  by_cases hcheck : f.kind = .checkId 4 ∧ f.source = a
  · have hnote : (Monitor.reservation a).note w (.seen (.offer .login f true)) =
        { w with check := w.turn } := if_pos hcheck
    have hchecking := h.checking ⟨f, hf, hcheck⟩
    rw [hnote]
    refine ⟨fun hk => absurd hk (hnone _), fun _ n hn hne ha _ => ?_, fun n hn hne ha hw => ?_,
      fun hk => absurd hk (hnone _)⟩
    · exact (hchecking n (hnodes ▸ hn) hne ha).2
    · rw [(hchecking n (hnodes ▸ hn) hne ha).1] at hw
      cases hw
  · have hnote : (Monitor.reservation a).note w (.seen (.offer .login f true)) = w := if_neg hcheck
    have hpends : ¬ s.Pends a (.checkId 4) := by
      rintro ⟨g, hg, hk, ha⟩
      obtain rfl := Option.some.inj (hf.symm.trans hg)
      exact hcheck ⟨hk, ha⟩
    rw [hnote]
    exact ⟨fun hk => absurd hk (hnone _), fun _ n hn => h.waiting hpends n (hnodes ▸ hn),
      fun n hn => h.waited n (hnodes ▸ hn), fun hk => absurd hk (hnone _)⟩

/-- A turn starts the first count over, when no frame of a login waits. -/
theorem turn (h : Waits a s w) (hlogin : s.loginFrame = none) : Waits a s { w with turn := 0 } where
  checking hk := absurd hk (not_pends hlogin)
  waiting := h.waiting
  waited := h.waited
  reserving := h.reserving

/-- A node has its turn. -/
theorem step {i : Nat} {n : Node} (h : Waits a s w) (hs : s.Concord) (ht : t.Concord)
    (hlogin : s.loginFrame = none) (hget : s.nodes.get? i = some n)
    (hnodes : t.nodes.nodes =
      s.nodes.nodes.modify i fun _ => (n.logInStep s.resources.aliases).node)
    (hframe : t.loginFrame = (n.logInStep s.resources.aliases).frame) : Waits a t w := by
  have hn := List.mem_of_getElem? hget
  have hord := hs.orderly n hn
  have hstep := n.advance s.resources.aliases
  have hpends := @not_pends s a (.checkId 4) hlogin
  have hnew : (n.logInStep s.resources.aliases).node ∈ t.nodes.nodes := by
    rw [hnodes]
    exact mem_modify_self hget
  have hmem : ∀ m ∈ t.nodes.nodes,
      m ∈ s.nodes.nodes ∨ m = (n.logInStep s.resources.aliases).node := by
    intro m hm
    rw [hnodes] at hm
    exact (mem_modify hm).imp_right fun ⟨_, _, heq⟩ => heq
  refine ⟨?checking, ?waiting, ?waited, ?reserving⟩
  case checking =>
    rintro ⟨f, hf, hk, rfl⟩ m hm hne ha
    rw [hframe] at hf
    obtain ⟨hphase, hwait, hticks⟩ := hstep.of_checkId hf hk
    obtain ⟨hzero, hsame⟩ := hstep.aliasId_of_level hord (by rw [hphase]; decide)
    have hsource := hstep.source (hs.valid hn hzero) hf
    obtain rfl : m = (n.logInStep s.resources.aliases).node :=
      ht.eq_of_aliasId hnew hm (hsame ▸ hzero) (ha.trans (hsource.trans hsame.symm))
    exact ⟨hwait, hticks ▸ Nat.zero_le _⟩
  case waiting =>
    intro hk m hm hne ha hw
    rcases hmem m hm with hold | rfl
    · exact h.waiting hpends m hold hne ha hw
    rcases hstep.wait hw with ⟨-, heq⟩ | ⟨hphase, hf⟩
    · rw [heq] at hne ha hw ⊢
      exact h.waiting hpends n hn hne ha hw
    -- the check that the step sends waits now
    · obtain ⟨hzero, hsame⟩ := hstep.aliasId_of_level hord (by rw [hphase]; decide)
      refine absurd ⟨_, hframe.trans hf, Frame.kind_checkId (by decide), ?_⟩ hk
      rw [hstep.source (hs.valid hn hzero) hf, ← ha, hsame]
  case waited =>
    intro m hm hne ha hw
    rcases hmem m hm with hold | rfl
    · exact h.waited m hold hne ha hw
    rcases hstep.hasWaited hw with hw' | ⟨hphase, hlong⟩
    · obtain ⟨hzero, hsame⟩ := hstep.aliasId_of_level hord (by revert hw'; cases n.phase <;> decide)
      exact h.waited n hn hzero (hsame ▸ ha) hw'
    · obtain ⟨hzero, hsame⟩ := hstep.aliasId_of_level hord (by rw [hphase]; decide)
      exact Nat.le_trans hlong (h.waiting hpends n hn hzero (hsame ▸ ha) hphase)
  case reserving =>
    rintro ⟨f, hf, hk, rfl⟩
    rw [hframe] at hf
    have hphase := hstep.of_reserveId hf hk
    obtain ⟨hzero, -⟩ := hstep.aliasId_of_level hord (by rw [hphase]; decide)
    exact h.waited n hn hzero (hstep.source (hs.valid hn hzero) hf).symm (by rw [hphase]; rfl)

/-- Whatever a pass does, the watch goes along. -/
theorem pass (h : Waits a s w) (hs : s.Concord) (ht : t.Concord) (hpass : s.LoginPass t es) :
    (Monitor.reservation a).Clears w (es.map .seen) ∧
      Waits a t ((Monitor.reservation a).after w (es.map .seen)) := by
  cases hpass with
  | conflicts hgives => exact ⟨trivial, h.conflicts hgives⟩
  | other hnodes hlogin hes =>
    obtain ⟨hclears, hafter⟩ := @note_aside a w es hes
    rw [hafter]
    refine ⟨hclears, h.of_same (fun n hn _ _ => hnodes ▸ hn) fun k => ?_⟩
    rw [Pends, Pends, hlogin]
  | offer f accepts hf hnodes hlogin =>
    have hallows : (Monitor.reservation a).allows w (.seen (.offer .login f accepts)) := by
      rintro g heq hk ha
      cases heq
      exact h.reserving ⟨f, hf, hk, ha⟩
    cases accepts with
    | false =>
      refine ⟨⟨hallows, trivial⟩, h.of_same (fun n hn _ _ => hnodes ▸ hn) fun k => ?_⟩
      rw [Pends, Pends, hlogin, hf]
      rfl
    | true => exact ⟨⟨hallows, (by simp [Monitor.reservation]), trivial⟩, h.accepted hf hnodes hlogin⟩
  | turn i hnone hnodes hlogin hes =>
    obtain ⟨hclears, hafter⟩ := @note_aside a { w with turn := 0 } _ hes
    refine ⟨⟨(by simp [Monitor.reservation]), hclears⟩, ?_⟩
    show Waits a t ((Monitor.reservation a).after { w with turn := 0 } _)
    rw [hafter]
    refine (h.turn hnone).of_same (fun n hn _ _ => hnodes ▸ hn) fun k => ?_
    rw [Pends, Pends, hlogin, hnone]
  | step i n hnone hget hnodes hlogin =>
    obtain ⟨hclears, hafter⟩ := @Monitor.clears_of_ignored _ (Monitor.reservation a) { w with turn := 0 }
      (((n.logInStep s.resources.aliases).picked.toList.map fun b => Effect.picked b n.id).map .seen)
      (by simp [Monitor.reservation])
    refine ⟨⟨(by simp [Monitor.reservation]), hclears⟩, ?_⟩
    show Waits a t ((Monitor.reservation a).after { w with turn := 0 } _)
    rw [hafter]
    exact (h.turn hnone).step hs ht hnone hget hnodes hlogin

end Waits

/-- The request leaves the logins of the nodes alone, with the ticks that they have counted. -/
def KeepsTime : Interface → Request → Prop := SparesWith fun n m => m.ticks = n.ticks

theorem KeepsTime.nodes (streams : Bool) (h : s.KeepsTime req) (hrun : ∀ accepts, req ≠ .run accepts) :
    (s.perform streams req).interface.loginFrame = s.loginFrame ∧
      ∀ m ∈ (s.perform streams req).interface.nodes.nodes, m.aliasId ≠ 0 →
        ∃ n ∈ s.nodes.nodes, n.Spared m ∧ m.ticks ≤ n.ticks + req.ticks := by
  have hnodes := @perform_nodes streams s req
    (fun n m => n.Spared m ∧ m.ticks ≤ n.ticks + req.ticks)
    (fun n => ⟨⟨rfl, rfl, rfl, rfl, rfl⟩, Nat.le_add_right _ _⟩) ?_
    (fun n x => ⟨⟨rfl, rfl, rfl, rfl, rfl⟩, Nat.le_add_right _ _⟩) ?_ hrun
  · exact ⟨hnodes.1, fun m hm hne => not_created (hnodes.2.2 m hm) hne⟩
  · rintro rfl n
    exact ⟨⟨rfl, rfl, rfl, rfl, rfl⟩, Nat.min_le_right _ _⟩
  · rintro i change rfl n hn
    exact ⟨(h n hn).1, (h n hn).2.le⟩

/-- The watch goes along with the ticks. -/
theorem after_occurrences (hrun : ∀ accepts, req ≠ .run accepts) :
    (Monitor.reservation a).Clears w (s.occurrences streams req) ∧
      (Monitor.reservation a).after w (s.occurrences streams req) =
        ⟨w.turn + req.ticks, w.check + req.ticks⟩ := by
  by_cases htick : req = .tick
  · subst htick
    exact ⟨⟨fun f heq => (by cases heq), trivial⟩, rfl⟩
  · have hticks : req.ticks = 0 := by
      cases req with
      | tick => exact absurd rfl htick
      | _ => rfl
    rw [hticks]
    refine Monitor.clears_of_ignored fun o ho => ?_
    obtain ⟨f, rfl⟩ := mem_occurrences hrun htick ho
    exact ⟨fun g heq => (by cases heq), rfl⟩

/-- What other requests do, the watch goes along with. -/
theorem Waits.perform (h : Waits a s w) (hreq : s.KeepsTime req) (hrun : ∀ accepts, req ≠ .run accepts) :
    (Monitor.reservation a).Clears w (s.occurrences streams req) ∧
      Waits a (s.perform streams req).interface
        ((Monitor.reservation a).after w (s.occurrences streams req)) := by
  obtain ⟨hclears, hafter⟩ := @after_occurrences streams s a w req hrun
  obtain ⟨hlogin, hold⟩ := hreq.nodes streams hrun
  have hpends : ∀ k, (s.perform streams req).interface.Pends a k ↔ s.Pends a k := by
    intro k
    rw [Pends, Pends, hlogin]
  rw [hafter]
  refine ⟨hclears, fun hk m hm hne ha => ?_, fun hk m hm hne ha hw => ?_, fun m hm hne ha hw => ?_,
    fun hk => Nat.le_add_right_of_le (h.reserving ((hpends _).1 hk))⟩ <;>
    obtain ⟨n, hn, hspared, hticks⟩ := hold m hm hne <;> rw [hspared.aliasId] at hne ha
  · obtain ⟨hphase, hle⟩ := h.checking ((hpends _).1 hk) n hn hne ha
    exact ⟨hspared.phase.trans hphase, hticks.trans (Nat.add_le_add_right hle _)⟩
  · rw [hspared.phase] at hw
    exact hticks.trans
      (Nat.add_le_add_right (h.waiting (fun hs => hk ((hpends _).2 hs)) n hn hne ha hw) _)
  · rw [hspared.phase] at hw
    exact Nat.le_add_right_of_le (h.waited n hn hne ha hw)

/-- No claim of the alias goes out before the watch says so. -/
theorem clears_reservation (a : Nat) {reqs : List Request}
    (hreqs : (empty streams).Respects streams KeepsTime reqs) :
    (Monitor.reservation a).Clears {} ((empty streams).transcript streams reqs) := by
  have hstart : Waits a (empty streams) {} := by
    have hnone : ∀ k, ¬ (empty streams).Pends a k := fun k => not_pends rfl
    exact ⟨fun hk => absurd hk (hnone _), fun _ n hn => (by cases hn), fun n hn => (by cases hn),
      fun hk => absurd hk (hnone _)⟩
  exact Monitor.clears_transcript SparesWith.spares
    (fun hs ht hi _ hpass => hi.pass hs.toConcord ht.toConcord hpass)
    (fun _ hi hreq hrun => hi.perform hreq hrun) (.empty streams) Outbox.covered_empty hstart hreqs

end Interface

/-! ### What the watch shows -/

section Watch

open Occurrence

variable {a c : Nat} {w : Watch} {o : Occurrence} {os : List Occurrence}

/-- Without a turn the first count is that of the ticks. -/
theorem Watch.turn_note (ho : ∀ i, o ≠ .seen (.turn i)) :
    ((Monitor.reservation a).note w o).turn = w.turn + ticks [o] := by
  rw [Monitor.reservation]
  dsimp only
  split
  · rfl
  · exact absurd rfl (ho _)
  · split <;> rfl
  · cases o with
    | tick => contradiction
    | seen e => rfl

/-- The second count is never set ahead of the first one. -/
theorem Watch.note_le (hturn : w.turn ≤ c) (hcheck : w.check ≤ c) :
    ((Monitor.reservation a).note w o).turn ≤ c + ticks [o] ∧
      ((Monitor.reservation a).note w o).check ≤ c + ticks [o] := by
  rw [Monitor.reservation]
  dsimp only
  split
  · exact ⟨Nat.add_le_add_right hturn 1, Nat.add_le_add_right hcheck 1⟩
  · exact ⟨Nat.zero_le _, hcheck⟩
  · split
    · exact ⟨hturn, hturn⟩
    · exact ⟨hturn, hcheck⟩
  · exact ⟨Nat.le_add_right_of_le hturn, Nat.le_add_right_of_le hcheck⟩

theorem Watch.turn_after (hos : ∀ i, .seen (.turn i) ∉ os) :
    ((Monitor.reservation a).after w os).turn = w.turn + ticks os := by
  induction os generalizing w with
  | nil => rfl
  | cons o os ih =>
    have hhead := @turn_note a w o fun i heq => hos i (heq ▸ List.mem_cons_self)
    have htail := @ih ((Monitor.reservation a).note w o) fun i hi => hos i (List.mem_cons_of_mem _ hi)
    rw [← List.singleton_append, ticks_append, ← Nat.add_assoc, ← hhead]
    exact htail

theorem Watch.check_after_le (hturn : w.turn ≤ c) (hcheck : w.check ≤ c) :
    ((Monitor.reservation a).after w os).check ≤ c + ticks os := by
  induction os generalizing w c with
  | nil => exact hcheck
  | cons o os ih =>
    obtain ⟨hturn', hcheck'⟩ := @note_le a c w o hturn hcheck
    rw [← List.singleton_append, ticks_append, ← Nat.add_assoc]
    exact ih hturn' hcheck'

end Watch

/-! ### Reservations -/

/-- The transcript has a login in which `d` ticks pass from the turn that sends the last check until the
driver accepts this check, and from then on `w` ticks until it accepts the claim. -/
inductive Reservation : List Occurrence → Nat → Nat → Prop where
  | intro {before held waited rest : List Occurrence} {i : Nat} {f g : Frame} :
      (∀ j, .seen (.turn j) ∉ held) → f.kind = .checkId 4 →
      (∀ j, .seen (.picked f.source j) ∉ waited) → g.kind = .control .reserveId →
      g.source = f.source →
      Reservation
        (before ++ .seen (.turn i) :: (held ++ .seen (.offer .login f true) ::
          (waited ++ .seen (.offer .login g true) :: rest)))
        (Occurrence.ticks held) (Occurrence.ticks waited)

namespace Interface

variable {streams : Bool} {reqs : List Request} {d w : Nat}

theorem loginWait_le_of_reservation (hreqs : (empty streams).Respects streams KeepsTime reqs)
    (h : Reservation ((empty streams).transcript streams reqs) d w) : Limits.loginWait ≤ d + w := by
  generalize htranscript : (empty streams).transcript streams reqs = os at h
  cases h with
  | @intro before held waited rest i f g hheld hf _ hg hsource =>
    have hclears := clears_reservation f.source hreqs
    rw [htranscript] at hclears
    obtain ⟨-, -, hafterTurn⟩ := Monitor.clears_append.1 hclears
    obtain ⟨-, -, hafterCheck⟩ := Monitor.clears_append.1 hafterTurn
    obtain ⟨-, hclaim, -⟩ := Monitor.clears_append.1 hafterCheck
    -- at the check the first count is `d`, and the second one is set to it
    have hturn := @Watch.turn_after f.source
      { (Monitor.reservation f.source).after {} before with turn := 0 } held hheld
    rw [Nat.zero_add] at hturn
    have hcheck : (Monitor.reservation f.source).note ((Monitor.reservation f.source).after
        { (Monitor.reservation f.source).after {} before with turn := 0 } held)
        (.seen (.offer .login f true)) = ⟨Occurrence.ticks held, Occurrence.ticks held⟩ := by
      rw [← hturn]
      exact if_pos ⟨hf, rfl⟩
    exact (hclaim g rfl hg hsource).trans
      (Watch.check_after_le (congrArg Watch.turn hcheck).le (congrArg Watch.check hcheck).le)

/-! ### A check that is accepted late -/

/-- The node 1 logs in with the alias 1, and is about to send the last check. -/
def upToCheck : List Request := .register 1 (.ofSupport 0) :: List.replicate 13 (.run true)

/-- Then the driver refuses the check once, and accepts it when `d` ticks have passed; after `w` more
ticks the login goes on. -/
def lateCheck (d w : Nat) : List Request :=
  upToCheck ++ ([Request.run true, .run false] ++ (List.replicate d Request.tick ++
    ([Request.run true] ++ (List.replicate w Request.tick ++ List.replicate 5 (Request.run true)))))

/-- The login is followed round by round, up to the turn that sends the last check. -/
theorem after_upToCheck (streams : Bool) :
    (empty streams).after streams upToCheck = lone streams (applicant .check4 0) none none := by
  -- the alias is picked in the second round
  have hpick : (empty streams).after streams
      (.register 1 (.ofSupport 0) :: List.replicate 3 (.run true)) =
        lone streams (applicant .check7 0) none (some 0) := by
    cases streams <;> rfl
  -- each of three rounds sends a check, and the fourth one is not started yet
  have hchecks : Leads streams (lone streams (applicant .check7 0) none (some 0))
      (List.replicate 3 (.run true) ++ (List.replicate 3 (.run true) ++
        (List.replicate 3 (.run true) ++ [.run true])))
      (lone streams (applicant .check4 0) none none) _ :=
    (lone_sends (m := applicant .check6 0) (by decide) rfl).append
      ((lone_sends (m := applicant .check5 0) (by decide) rfl).append
        ((lone_sends (m := applicant .check4 0) (by decide) rfl).append (lone_rests _)))
  rw [← hchecks.after, ← hpick, ← after_append]
  rfl

/-- The driver refuses the check, and accepts it `d` ticks later; then `w` more ticks pass. -/
theorem leads_lateCheck (streams : Bool) (d w : Nat) :
    Leads streams (lone streams (applicant .check4 0) none none)
      ([Request.run true, .run false] ++ (List.replicate d Request.tick ++
        ([Request.run true] ++ List.replicate w Request.tick)))
      (lone streams (applicant .wait (min 255 (min 255 d + w))) none (some 0))
      ([.seen (.turn 0), .seen (.offer .login (.checkId 4 1 1) false)] ++ (List.replicate d .tick ++
        ([.seen (.offer .login (.checkId 4 1 1) true), .seen (.sent (.checkId 4 1 1))] ++
          List.replicate w .tick))) := by
  have hrefused : Leads streams (lone streams (applicant .check4 0) none none)
      ([.run true] ++ [.run false]) (lone streams (applicant .wait 0) (some (.checkId 4 1 1)) (some 0))
      ([.seen (.turn 0)] ++ [.seen (.offer .login (.checkId 4 1 1) false)]) :=
    (lone_turns (by decide) rfl).append (lone_offers _ _ _)
  have hheld : Leads streams (lone streams (applicant .wait 0) (some (.checkId 4 1 1)) (some 0))
      (List.replicate d .tick)
      (lone streams (applicant .wait (min 255 (0 + d))) (some (.checkId 4 1 1)) (some 0))
      (List.replicate d .tick) := lone_ticks (Nat.zero_le _) d
  rw [Nat.zero_add] at hheld
  exact hrefused.append (hheld.append ((lone_offers _ _ _).append (lone_ticks (Nat.min_le_left ..) w)))

/-- The node claims its alias when it has counted three ticks, wherever they come from. -/
theorem lone_claims (streams : Bool) (c : Nat) :
    Leads streams (lone streams (applicant .wait (c + Limits.loginWait)) none (some 0))
      (List.replicate 5 (.run true))
      (lone streams (applicant .define (c + Limits.loginWait)) none (some 0))
      [.seen (.turn 0), .seen (.turn 0), .seen (.offer .login (.reserveId 1) true),
        .seen (.sent (.reserveId 1))] := by
  have hwaited : (applicant .wait (c + Limits.loginWait)).logInStep loneAlias =
      { node := applicant .reserve (c + Limits.loginWait), aliases := loneAlias } :=
    congrArg (LoginStep.mk · loneAlias none none) (if_pos (Nat.le_add_left ..))
  have hwait : Phase.wait ≠ .running := by decide
  have hreserve : Phase.reserve ≠ .running := by decide
  exact (lone_round hwait hwaited).append (lone_sends hreserve rfl)

theorem reservation_lateCheck (streams : Bool) (h : Limits.loginWait ≤ d + w) :
    Reservation ((empty streams).transcript streams (lateCheck d w)) d w := by
  obtain ⟨c, hc⟩ : ∃ c, min 255 (min 255 d + w) = c + Limits.loginWait :=
    Nat.exists_eq_add_of_le' (by rw [Limits.loginWait] at h ⊢; omega)
  have hlate := leads_lateCheck streams d w
  rw [hc] at hlate
  have htranscript := (hlate.append (lone_claims streams c)).transcript
  simp only [List.append_assoc] at htranscript
  rw [lateCheck, transcript_append, after_upToCheck, htranscript]
  have hreservation := @Reservation.intro ((empty streams).transcript streams upToCheck)
    (.seen (.offer .login (.checkId 4 1 1) false) :: List.replicate d .tick)
    (.seen (.sent (.checkId 4 1 1)) :: (List.replicate w .tick ++ [.seen (.turn 0), .seen (.turn 0)]))
    [.seen (.sent (.reserveId 1))] 0 (.checkId 4 1 1) (.reserveId 1) (by simp) (by decide) (by simp)
    (by decide) (by decide)
  simpa [Occurrence.ticks, Occurrence.isTick, List.countP_replicate] using hreservation

theorem respects_lateCheck (s : Interface) (d w : Nat) :
    s.Respects streams KeepsTime (lateCheck d w) := by
  refine respects_of_forall fun req hreq s => ?_
  simp only [lateCheck, upToCheck, List.mem_append, List.mem_cons, List.mem_replicate, List.not_mem_nil,
    or_false] at hreq
  rcases hreq with (rfl | ⟨-, rfl⟩) | (rfl | rfl) | ⟨-, rfl⟩ | rfl | ⟨-, rfl⟩ | ⟨-, rfl⟩ <;> trivial

/-- **Reservation.** Whatever is asked, and whatever the driver accepts, there are at least three ticks
between the turn that sends the last check of an alias and the claim of it.  How many of them pass
before the driver accepts the check makes no difference: any number may. -/
theorem reservation_iff (streams : Bool) (d w : Nat) :
    (∃ reqs, (empty streams).Respects streams KeepsTime reqs ∧
      Reservation ((empty streams).transcript streams reqs) d w) ↔ Limits.loginWait ≤ d + w :=
  ⟨fun ⟨_, hreqs, h⟩ => loginWait_le_of_reservation hreqs h,
    fun h => ⟨_, respects_lateCheck _ d w, reservation_lateCheck streams h⟩⟩

/-- When the driver has refused the check for three ticks, there is no wait after it. -/
theorem reserves_at_once :
    (empty false).Respects false KeepsTime (lateCheck 3 0) ∧
      Reservation ((empty false).transcript false (lateCheck 3 0)) 3 0 ∧ ¬ Limits.loginWait ≤ 0 :=
  ⟨respects_lateCheck _ 3 0, reservation_lateCheck false (by decide), by decide⟩

end Interface

end LayoutBus
