import LayoutBus.Proofs.Interface.Concord

/-!
# Aliases are given up

The main loop gives up the aliases that another node has been seen with, one after the other, and changes
the table that it searches as it goes.  What all of it comes to can be said at once.

* `AliasTable.marked` : the aliases that are to be given up.
* `Interface.GivesUp` : an interface after a set of aliases has been given up.
* `Interface.resolveConflicts_givesUp` : the loop gives up the marked aliases.
-/

namespace LayoutBus

namespace AliasTable

variable {t u : AliasTable} {m : Mapping} {a : Nat}

/-- Another node has been seen with the alias. -/
def marked (t : AliasTable) (a : Nat) : Bool := t.mappings.any fun m => m.duplicate && m.aliasId == a

theorem marked_iff : t.marked a = true ↔ ∃ m ∈ t.mappings, m.duplicate = true ∧ m.aliasId = a := by
  simp [marked]

theorem marked_of_mem (hm : m ∈ t.mappings) (hd : m.duplicate = true) : t.marked m.aliasId = true :=
  marked_iff.2 ⟨m, hm, hd, rfl⟩

/-- Zero is nobody's alias. -/
theorem Proper.marked_zero (h : t.Proper) : t.marked 0 = false := by
  rw [← Bool.not_eq_true, marked_iff]
  rintro ⟨m, hm, -, hzero⟩
  exact Nat.ne_of_gt (h.valid m hm).1 hzero

/-- A mapping is marked when its alias is. -/
theorem Proper.marked_aliasId (h : t.Proper) (hm : m ∈ t.mappings) :
    t.marked m.aliasId = m.duplicate := by
  rw [Bool.eq_iff_iff, marked_iff]
  constructor
  · rintro ⟨x, hx, hd, ha⟩
    rwa [← h.eq_of_aliasId hx hm ha]
  · exact fun hd => ⟨m, hm, hd, rfl⟩

theorem marked_eq_false (h : t.nextDuplicate? = none) (a : Nat) : t.marked a = false := by
  rw [← Bool.not_eq_true, marked_iff]
  rintro ⟨m, hm, hd, ha⟩
  exact nextDuplicate?_eq_none_iff.1 h a ⟨m, hm, ha, hd⟩

/-- The alias that is given up next, and those that are left. -/
theorem marked_unregister (h : t.Proper) (hm : t.nextDuplicate? = some m) (a : Nat) :
    t.marked a = (a == m.aliasId || (t.unregister m.aliasId).marked a) := by
  have hp := unregister_perm (a := m.aliasId) h
  rw [Bool.eq_iff_iff, Bool.or_eq_true, beq_iff_eq, marked_iff, marked_iff]
  constructor
  · rintro ⟨x, hx, hd, rfl⟩
    refine or_iff_not_imp_left.2 fun hne => ⟨x, hp.mem_iff.2 ?_, hd, rfl⟩
    exact List.mem_filter.2 ⟨hx, decide_eq_true hne⟩
  · rintro (rfl | ⟨x, hx, hd, ha⟩)
    · exact ⟨m, List.mem_of_find?_eq_some hm, List.find?_some hm, rfl⟩
    · exact ⟨x, (List.mem_filter.1 (hp.subset hx)).1, hd, ha⟩

end AliasTable

namespace Interface

variable {s t u : Interface} {p q : Nat → Bool} {m : Mapping}

/-- The interface `s` after the aliases that satisfy `p` have been given up. -/
structure GivesUp (p : Nat → Bool) (s t : Interface) : Prop where
  /-- The nodes start over. -/
  nodes : t.nodes.nodes = s.nodes.nodes.map fun n => if p n.aliasId then n.restart else n
  login : t.loginFrame = s.loginFrame.filter fun f => !p f.source
  /-- What the nodes have kept is free. -/
  message : ∀ h, t.message? h =
    if ∃ n ∈ s.nodes.nodes, p n.aliasId = true ∧ n.retained = some h then none else s.message? h
  mappings : t.resources.aliases.mappings.Perm
    (s.resources.aliases.mappings.filter fun m => !p m.aliasId)

namespace GivesUp

theorem refl (s : Interface) : GivesUp (fun _ => false) s s where
  nodes := by simp
  login := by cases h : s.loginFrame <;> rfl
  message h := by simp
  mappings := by simp

theorem of_eq (h : GivesUp p s t) (heq : ∀ a, q a = p a) : GivesUp q s t := by
  obtain rfl : q = p := funext heq
  exact h

/-- Nodes that have started over have no alias to give up. -/
theorem trans (hst : GivesUp p s t) (htu : GivesUp q t u) (hq : q 0 = false) :
    GivesUp (fun a => p a || q a) s u where
  nodes := by
    rw [htu.nodes, hst.nodes, List.map_map]
    refine List.map_congr_left fun n _ => ?_
    by_cases hp : p n.aliasId = true
    · simp [hp, Node.restart, hq]
    · simp [hp]
  login := by
    rw [htu.login, hst.login, Option.filter_filter]
    refine congrArg (s.loginFrame.filter ·) (funext fun f => ?_)
    cases p f.source <;> simp
  message h := by
    rw [htu.message, hst.message, hst.nodes]
    have hiff : (∃ n ∈ s.nodes.nodes.map fun n => if p n.aliasId then n.restart else n,
        q n.aliasId = true ∧ n.retained = some h) ↔
        ∃ n ∈ s.nodes.nodes, p n.aliasId = false ∧ q n.aliasId = true ∧ n.retained = some h := by
      simp only [List.mem_map, exists_exists_and_eq_and]
      refine exists_congr fun n => and_congr_right fun _ => ?_
      by_cases hp : p n.aliasId = true
      · simp [hp, Node.restart, hq]
      · simp [hp]
    have hall : (∃ n ∈ s.nodes.nodes, (p n.aliasId || q n.aliasId) = true ∧ n.retained = some h) ↔
        (∃ n ∈ s.nodes.nodes, p n.aliasId = false ∧ q n.aliasId = true ∧ n.retained = some h) ∨
          ∃ n ∈ s.nodes.nodes, p n.aliasId = true ∧ n.retained = some h := by
      rw [← exists_or]
      refine exists_congr fun n => ?_
      rw [← and_or_left]
      refine and_congr_right fun _ => ?_
      cases p n.aliasId <;> simp
    rw [if_congr hiff rfl rfl, if_congr hall rfl rfl, ite_or]
  mappings := by
    refine htu.mappings.trans ((hst.mappings.filter _).trans (List.Perm.of_eq ?_))
    rw [List.filter_filter]
    refine List.filter_congr fun m _ => ?_
    cases p m.aliasId <;> simp

/-- A node that has an alias afterwards has not given it up. -/
theorem kept {n : Node} (h : GivesUp p s t) (hn : n ∈ t.nodes.nodes) (hne : n.aliasId ≠ 0) :
    n ∈ s.nodes.nodes ∧ p n.aliasId = false := by
  rw [h.nodes] at hn
  obtain ⟨x, hx, rfl⟩ := List.mem_map.1 hn
  split at hne
  · exact absurd rfl hne
  · rename_i hp
    rw [if_neg hp]
    exact ⟨hx, Bool.not_eq_true _ ▸ hp⟩

end GivesUp

/-- One alias is given up. -/
theorem Concord.giveUp_givesUp (h : s.Concord) (hm : m ∈ s.resources.aliases.mappings) :
    GivesUp (· == m.aliasId) s (s.giveUp m.aliasId) := by
  obtain ⟨i, n, hget, hclaim, hholder⟩ := h.exists_holder hm
  have hn := List.mem_of_getElem? hget
  have halias := Node.aliasId_eq_of_claim? hclaim
  have hne : m.aliasId ≠ 0 := Nat.ne_of_gt (h.proper.valid m hm).1
  have hunique : ∀ x ∈ s.nodes.nodes, x.aliasId = m.aliasId → x = n := fun x hx hxa =>
    h.eq_of_aliasId hn hx (halias.symm ▸ hne) (hxa.trans halias.symm)
  refine ⟨?_, ?_, fun k => ?_, ?_⟩
  · have hi : (s.nodes.nodes.findIdx? fun x => x.aliasId = m.aliasId) = some i := by
      rw [Registry.findAnyAlias?, if_neg hne] at hholder
      exact hholder
    have hmodify := modify_eq_map_of_unique (f := Node.aliasId) Node.restart h.ids.of_map
      (fun x hx y hy hxa hya => (hunique x hx hxa).trans (hunique y hy hya).symm) hi
    rw [Interface.giveUp, hholder]
    simp only [beq_iff_eq]
    exact hmodify
  · rw [Interface.giveUp]
    refine congrArg (s.loginFrame.filter ·) (funext fun f => ?_)
    by_cases hf : f.source = m.aliasId <;> simp [hf]
  · have hiff : (∃ x ∈ s.nodes.nodes, (x.aliasId == m.aliasId) = true ∧ x.retained = some k) ↔
        n.retained = some k := by
      constructor
      · rintro ⟨x, hx, hxa, hk⟩
        rwa [← hunique x hx (beq_iff_eq.1 hxa)]
      · exact fun hk => ⟨n, hn, beq_iff_eq.2 halias, hk⟩
    rw [if_congr hiff rfl rfl, Interface.giveUp, hholder]
    have hretained : ((some i).bind s.nodes.get?).bind Node.retained = n.retained := by
      rw [Option.bind_some, hget, Option.bind_some]
    simp only [hretained, message?]
    cases n.retained with
    | none => rfl
    | some x =>
      simp only [MessageStore.get?_free, Option.some.injEq]
      exact if_congr eq_comm rfl rfl
  · refine (AliasTable.unregister_perm h.proper).trans (List.Perm.of_eq ?_)
    refine List.filter_congr fun x _ => ?_
    by_cases hx : x.aliasId = m.aliasId <;> simp [hx]

/-- The loop gives up the marked aliases. -/
theorem Concord.giveUpAll_givesUp (h : s.Concord) {k : Nat}
    (hk : s.resources.aliases.mappings.length ≤ k) :
    GivesUp s.resources.aliases.marked s (Interface.giveUpAll k s) := by
  induction k generalizing s with
  | zero =>
    have hnil := List.eq_nil_of_length_eq_zero (Nat.le_zero.1 hk)
    refine (GivesUp.refl s).of_eq fun a => ?_
    rw [AliasTable.marked, hnil]
    rfl
  | succ k ih =>
    rw [Interface.giveUpAll]
    split
    · rename_i m hm
      have hmem := List.mem_of_find?_eq_some hm
      have hlt := AliasTable.length_unregister_lt h.proper (AliasTable.doubts_of_nextDuplicate? hm)
      have hrest := h.giveUp hmem
      have hall := ih hrest (Nat.le_of_lt_succ (Nat.lt_of_lt_of_le hlt hk))
      exact ((h.giveUp_givesUp hmem).trans hall hrest.proper.marked_zero).of_eq
        fun a => AliasTable.marked_unregister h.proper hm a
    · rename_i hnone
      exact (GivesUp.refl s).of_eq fun a => AliasTable.marked_eq_false hnone a

/-- The rest of the interface is left alone. -/
theorem giveUpAll_extent (k : Nat) (s : Interface) :
    ∃ ns f ms al, giveUpAll k s =
      { s with
        nodes := { s.nodes with nodes := ns }
        loginFrame := f
        resources := { s.resources with messages := ms, aliases := al } } := by
  induction k generalizing s with
  | zero => exact ⟨s.nodes.nodes, s.loginFrame, s.resources.messages, s.resources.aliases, rfl⟩
  | succ k ih =>
    rw [giveUpAll]
    split
    · rename_i m _
      obtain ⟨ns, f, ms, al, heq⟩ := ih (s.giveUp m.aliasId)
      refine ⟨ns, f, ms, al, heq.trans ?_⟩
      rw [giveUp]
      cases s.nodes.findAnyAlias? m.aliasId <;> rfl
    · exact ⟨s.nodes.nodes, s.loginFrame, s.resources.messages, s.resources.aliases, rfl⟩

theorem Concord.resolveConflicts_givesUp (h : s.Concord) :
    GivesUp s.resources.aliases.marked s s.resolveConflicts.interface := by
  obtain ⟨hnodes, hlogin, hmessage, hmappings⟩ := h.giveUpAll_givesUp (Nat.le_refl _)
  exact ⟨hnodes, hlogin, hmessage, hmappings⟩

end Interface

end LayoutBus
