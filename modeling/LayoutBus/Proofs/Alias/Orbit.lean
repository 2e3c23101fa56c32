import LayoutBus.Node.Login
import Mathlib.Data.Nat.ModEq
import Mathlib.Dynamics.PeriodicPts.Lemmas
import Mathlib.Tactic.NormNum.GCD

/-!
# The orbits of the seeds

The step from seed to seed loses nothing: it is a multiplication by an odd number after an exchange
of halves.  So every seed comes back, and what a sequence proposes once it proposes for ever.

* `Seed.Proposes`, `Seed.ProposesMany` : the aliases of an orbit, and how many there are.
* `Seed.find?_isSome_iff` : the walk of `Seed.find?` is long enough.
* `Seed.selection_ends_iff` : **when a selection ends.**  The candidates of a node never run out if
  and only if its orbit proposes two aliases, and a node finds an alias whatever the others hold if
  and only if its orbit proposes five.
* `Seed.next_eq_self_iff` : two seeds are their own successors.
* `Seed.selection_stalls` : one of them is a node id whose only alias can be lost.

The multiplication alone would reach every seed from every other.  With the exchange it does not.
-/

namespace LayoutBus

namespace Seed

variable {seed a k : Nat} {usable : Nat → Bool}

/-! ### One step -/

theorem bound_pos : 0 < bound := by rw [bound]; omega

theorem first_lt (seed : Nat) : first seed < 0x1000000 := Nat.mod_lt _ (by omega)

theorem second_lt (seed : Nat) : second seed < 0x1000000 := Nat.mod_lt _ (by omega)

theorem second_first (h : seed < bound) : second seed * 0x1000000 + first seed = seed := by
  rw [second, first, bound] at *
  omega

theorem swap_lt (seed : Nat) : swap seed < bound := by
  have hfirst := first_lt seed
  have hsecond := second_lt seed
  rw [swap, bound]
  omega

theorem next_lt (seed : Nat) : next seed < bound := Nat.mod_lt _ bound_pos

theorem firstSum_lt (seed : Nat) : firstSum seed < 2 ^ 32 := by
  have := first_lt seed
  rw [firstSum]
  omega

theorem secondSum_lt (seed : Nat) : secondSum seed < 2 ^ 32 := by
  have := second_lt seed
  rw [secondSum]
  omega

theorem firstSum_eq (seed : Nat) :
    firstSum seed + (first seed * 0x200 + second seed / 0x8000) / 0x1000000 * 0x1000000 =
      513 * first seed + second seed / 0x8000 + 0x1B0CA3 := by
  rw [firstSum]
  omega

theorem secondSum_eq (seed : Nat) :
    secondSum seed + second seed / 0x8000 * 0x1000000 = 513 * second seed + 0x7A4BA9 := by
  rw [secondSum]
  omega

/-- Two sums side by side: the carry of the lower goes into the upper, whose own carry is cut
off. -/
theorem carry_eq (s t : Nat) :
    (s % 0x1000000 + t / 0x1000000) * 0x1000000 + t % 0x1000000 + bound * (s / 0x1000000) =
      s * 0x1000000 + t := by
  rw [bound]
  omega

theorem next_eq_affine (seed : Nat) : next seed = affine seed := by
  have hfirst := firstSum_eq seed
  have hsecond := secondSum_eq seed
  have hsum : 513 * swap seed + 0x1B0CA37A4BA9 =
      (firstSum seed % 0x1000000 + secondSum seed / 0x1000000) * 0x1000000 +
          secondSum seed % 0x1000000 +
        bound * (firstSum seed / 0x1000000 +
          (first seed * 0x200 + second seed / 0x8000) / 0x1000000) := by
    rw [Nat.mul_add, ← Nat.add_assoc, carry_eq]
    rw [swap, bound]
    omega
  rw [affine, hsum, Nat.add_mul_mod_self_left]
  rfl

/-- No two seeds have the same successor. -/
theorem next_injective {s t : Nat} (hs : s < bound) (ht : t < bound) (h : next s = next t) :
    s = t := by
  rw [next_eq_affine, next_eq_affine] at h
  have hmul : Nat.ModEq bound (513 * swap s) (513 * swap t) := Nat.ModEq.add_right_cancel' _ h
  have hodd : bound.gcd 513 = 1 := by rw [bound]; norm_num
  have hswap : swap s = swap t :=
    (Nat.ModEq.cancel_left_of_coprime hodd hmul).eq_of_lt_of_lt (swap_lt s) (swap_lt t)
  have hs' := second_first hs
  have ht' := second_first ht
  have := second_lt s
  have := second_lt t
  unfold swap at hswap
  omega

theorem next_mapsTo : Set.MapsTo next (Set.Iio bound) (Set.Iio bound) := fun seed _ => next_lt seed

theorem next_injOn : Set.InjOn next (Set.Iio bound) := fun _ hs _ ht => next_injective hs ht

/-- The registers of a seed that is its own successor. -/
theorem registers_of_fixed {x y : Nat} (hx : x < 0x1000000) (hy : y < 0x1000000)
    (h : (513 * (x * 0x1000000 + y) + 0x1B0CA37A4BA9) % 0x1000000000000 = y * 0x1000000 + x) :
    y * 0x1000000 + x = 0xD95FD513557E ∨ y * 0x1000000 + x = 0xD99FD593957E := by
  obtain ⟨p, hp⟩ : ∃ p, 513 * (x * 0x1000000 + y) + 0x1B0CA37A4BA9 =
      y * 0x1000000 + x + 0x1000000000000 * p :=
    ⟨_, by rw [← h, Nat.mod_add_div]⟩
  clear h
  -- the lower half fixes `x` up to the carry `q`, and the upper half then fixes the carry
  obtain ⟨q, hq⟩ : ∃ q, 513 * y + 0x7A4BA9 = x + 0x1000000 * q :=
    ⟨(513 * y + 0x7A4BA9) / 0x1000000, by omega⟩
  have hle : q ≤ 513 := by omega
  have hupper : 263168 * y + 4113345100 + q = 0x1000000 * (p + 513 * q) := by omega
  obtain rfl : q = 436 := by omega
  have hmod : y % 0x4000 = 0x1FD5 := by omega
  omega

/-- Two seeds are their own successors. -/
theorem next_eq_self_iff (h : seed < bound) :
    next seed = seed ↔ seed = 0xD95FD513557E ∨ seed = 0xD99FD593957E := by
  rw [next_eq_affine]
  constructor
  · intro hself
    rw [← second_first h] at hself ⊢
    refine registers_of_fixed (first_lt seed) (second_lt seed) ?_
    have hreg := second_first h
    rw [hreg] at hself ⊢
    exact hself
  · rintro (rfl | rfl) <;> rfl

/-! ### Orbits -/

@[simp] theorem after_zero (seed : Nat) : after seed 0 = seed := rfl

theorem after_succ (seed n : Nat) : after seed (n + 1) = after (next seed) n := by
  delta after
  rfl

theorem after_eq_iterate (seed n : Nat) : after seed n = next^[n] seed := by
  induction n generalizing seed with
  | zero => rfl
  | succ n ih => rw [after_succ, ih, Function.iterate_succ_apply]

theorem after_add (seed m n : Nat) : after seed (m + n) = after (after seed m) n := by
  induction m generalizing seed with
  | zero => rw [Nat.zero_add, after_zero]
  | succ m ih => rw [Nat.succ_add, after_succ, after_succ, ih]

theorem after_lt (h : seed < bound) (k : Nat) : after seed k < bound := by
  induction k generalizing seed with
  | zero => exact h
  | succ k ih => rw [after_succ]; exact ih (next_lt seed)

/-- Every seed comes back, before there are no seeds left. -/
theorem exists_period (h : seed < bound) : ∃ p, 0 < p ∧ p ≤ bound ∧ after seed p = seed := by
  have hinj : Function.Injective next_mapsTo.restrict := next_mapsTo.restrict_inj.2 next_injOn
  refine ⟨Function.minimalPeriod next_mapsTo.restrict ⟨seed, h⟩, ?_, ?_, ?_⟩
  · exact Function.minimalPeriod_pos_of_mem_periodicPts (hinj.mem_periodicPts _)
  · exact Function.minimalPeriod_le_card.trans_eq (by simp)
  · have hcycle := congrArg Subtype.val
      (Function.iterate_minimalPeriod (f := next_mapsTo.restrict) (x := ⟨seed, h⟩))
    rw [next_mapsTo.iterate_restrict] at hcycle
    rw [after_eq_iterate]
    exact hcycle

theorem after_mul_of_period {p : Nat} (hp : after seed p = seed) (n : Nat) :
    after seed (p * n) = seed := by
  induction n with
  | zero => rfl
  | succ n ih => rw [Nat.mul_succ, after_add, ih, hp]

/-- The orbit of the seed proposes the alias. -/
def Proposes (seed a : Nat) : Prop := ∃ k, aliasOf (after seed k) = a

/-- The orbit of the seed proposes `k` aliases; zero is none. -/
def ProposesMany (k seed : Nat) : Prop :=
  ∃ as : Finset Nat, as.card = k ∧ ∀ a ∈ as, a ≠ 0 ∧ Proposes seed a

/-- What is proposed once is proposed again, however far the sequence has gone. -/
theorem proposes_after (h : seed < bound) (k a : Nat) :
    Proposes (after seed k) a ↔ Proposes seed a := by
  constructor
  · rintro ⟨j, hj⟩
    exact ⟨k + j, by rw [after_add, hj]⟩
  · rintro ⟨j, hj⟩
    obtain ⟨p, hpos, -, hp⟩ := exists_period h
    have hle : k ≤ p * k := Nat.le_mul_of_pos_left k hpos
    refine ⟨p * k - k + j, ?_⟩
    rw [← after_add, ← Nat.add_assoc, Nat.add_sub_cancel' hle, after_add,
      after_mul_of_period hp, hj]

theorem proposesMany_after (h : seed < bound) (j : Nat) :
    ProposesMany k (after seed j) ↔ ProposesMany k seed := by
  simp only [ProposesMany, proposes_after h]

/-- Among enough proposed aliases there is one outside a given set. -/
theorem ProposesMany.exists_notMem (h : ProposesMany k seed) {s : Finset Nat} (hs : s.card < k) :
    ∃ a, a ≠ 0 ∧ a ∉ s ∧ Proposes seed a := by
  obtain ⟨as, hcard, has⟩ := h
  obtain ⟨a, ha, hnot⟩ := Finset.exists_mem_notMem_of_card_lt_card (hcard ▸ hs)
  exact ⟨a, (has a ha).1, hnot, (has a ha).2⟩

/-! ### The walk to a usable alias -/

theorem search_isSome_iff (n : Nat) :
    (search usable n seed).isSome ↔ ∃ k < n, usable (aliasOf (after seed k)) := by
  induction n generalizing seed with
  | zero => simp [search]
  | succ n ih =>
    rw [search]
    split
    · rename_i h
      exact iff_of_true rfl ⟨0, Nat.succ_pos n, by rwa [after_zero]⟩
    · rename_i h
      rw [ih]
      constructor
      · rintro ⟨k, hk, hu⟩
        exact ⟨k + 1, Nat.succ_lt_succ hk, by rwa [after_succ]⟩
      · rintro ⟨k | k, hk, hu⟩
        · exact absurd hu h
        · exact ⟨k, Nat.lt_of_succ_lt_succ hk, by rwa [after_succ] at hu⟩

theorem search_eq_some {s : Nat} {n : Nat} (h : search usable n seed = some s) :
    usable (aliasOf s) ∧ ∃ k, s = after seed k := by
  induction n generalizing seed with
  | zero => cases h
  | succ n ih =>
    rw [search] at h
    split at h
    · cases h
      exact ⟨‹_›, 0, (after_zero _).symm⟩
    · obtain ⟨hu, k, rfl⟩ := ih h
      exact ⟨hu, k + 1, (after_succ _ _).symm⟩

theorem find?_of_usable (h : usable (aliasOf seed)) : find? usable seed = some seed := by
  rw [find?, walk, search, if_pos h]

/-- The walk finds a usable alias if the orbit has one: all seeds that can be met are met before
the walk ends. -/
theorem find?_isSome_iff (h : seed < bound) :
    (find? usable seed).isSome ↔ ∃ a, usable a ∧ Proposes seed a := by
  rw [find?, search_isSome_iff]
  constructor
  · rintro ⟨k, -, hu⟩
    exact ⟨_, hu, k, rfl⟩
  · rintro ⟨_, hu, k, rfl⟩
    obtain ⟨p, hpos, hle, hp⟩ := exists_period h
    refine ⟨k % p, ?_, ?_⟩
    · have := Nat.mod_lt k hpos
      rw [walk]
      omega
    · rw [← Nat.div_add_mod k p, after_add, after_mul_of_period hp] at hu
      exact hu

theorem aliasOf_lt (seed : Nat) : aliasOf seed < 0x1000 := by
  have h : (0x1000 : Nat) = 2 ^ 12 := rfl
  rw [aliasOf, h]
  refine Nat.xor_lt_two_pow (Nat.xor_lt_two_pow (Nat.xor_lt_two_pow ?_ ?_) ?_) ?_ <;>
    exact Nat.mod_lt _ (by omega)

/-- An orbit that does not propose `k` aliases proposes fewer. -/
theorem exists_aliases_of_not_proposesMany (h : ¬ ProposesMany (k + 1) seed) :
    ∃ as : Finset Nat, as.card ≤ k ∧ ∀ j, aliasOf (after seed j) ≠ 0 → aliasOf (after seed j) ∈ as := by
  classical
  let as := (Finset.range 0x1000).filter fun a => a ≠ 0 ∧ Proposes seed a
  have has : ∀ a ∈ as, a ≠ 0 ∧ Proposes seed a := fun a ha => (Finset.mem_filter.1 ha).2
  refine ⟨as, Nat.lt_succ_iff.1 (Nat.lt_of_not_le fun hle => h ?_), fun j hj => ?_⟩
  · obtain ⟨bs, hbs, hcard⟩ := Finset.exists_subset_card_eq hle
    exact ⟨bs, hcard, fun a ha => has a (hbs ha)⟩
  · exact Finset.mem_filter.2 ⟨Finset.mem_range.2 (aliasOf_lt _), hj, j, rfl⟩

end Seed

/-! ### Candidates -/

namespace Candidates

open Seed

variable {c : Candidates}

theorem next?_isSome_iff (h : c.seed < bound) :
    c.next?.isSome ↔ ∃ a, a ≠ 0 ∧ a ≠ c.last ∧ Proposes c.seed a := by
  have hfind := @find?_isSome_iff c.seed (fun a => a ≠ 0 ∧ a ≠ c.last) h
  simp only [decide_eq_true_eq, and_assoc] at hfind
  rw [← hfind]
  rw [next?]
  split
  · rename_i s hs
    rw [hs]
    rfl
  · rename_i hs
    rw [hs]
    rfl

/-- A candidate is proposed by the orbit, and the rest of the sequence goes on along it. -/
theorem next?_spec {a : Nat} {d : Candidates} (h : c.next? = some (a, d)) :
    a ≠ 0 ∧ a ≠ c.last ∧ d.last = a ∧ ∃ k, aliasOf (after c.seed k) = a ∧
      d.seed = after c.seed (k + 1) := by
  rw [next?] at h
  split at h
  · rename_i s hs
    cases h
    obtain ⟨hu, k, rfl⟩ := search_eq_some hs
    obtain ⟨hzero, hlast⟩ := of_decide_eq_true hu
    exact ⟨hzero, hlast, rfl, k, rfl, by rw [after_add, after_succ, after_zero]⟩
  · cases h

/-- An orbit with two aliases never runs out of candidates. -/
theorem take_length (h : c.seed < bound) (hmany : ProposesMany 2 c.seed) (n : Nat) :
    (c.take n).length = n := by
  induction n generalizing c with
  | zero => rfl
  | succ n ih =>
    obtain ⟨a, hzero, hlast, hprop⟩ :=
      hmany.exists_notMem (s := {c.last}) (by rw [Finset.card_singleton]; omega)
    rw [Finset.mem_singleton] at hlast
    obtain ⟨⟨b, d⟩, hd⟩ := Option.isSome_iff_exists.1
      ((next?_isSome_iff h).2 ⟨a, hzero, hlast, hprop⟩)
    obtain ⟨-, -, -, k, -, hseed⟩ := next?_spec hd
    have hd' : d.seed < bound := hseed ▸ after_lt h _
    have hmany' : ProposesMany 2 d.seed := hseed ▸ (proposesMany_after h _).2 hmany
    simp only [take, hd, List.length_cons, ih hd' hmany']

theorem proposesMany_of_take (h : c.seed < bound) (ht : (c.take 2).length = 2) :
    ProposesMany 2 c.seed := by
  cases hc : c.next? with
  | none => simp [take, hc] at ht
  | some p =>
    obtain ⟨a, d⟩ := p
    cases hd : d.next? with
    | none => simp [take, hc, hd] at ht
    | some q =>
      obtain ⟨b, e⟩ := q
      obtain ⟨hazero, -, hlast, k, ha, hseed⟩ := next?_spec hc
      obtain ⟨hbzero, hne, -, j, hb, -⟩ := next?_spec hd
      refine ⟨{a, b}, Finset.card_pair (fun hab => hne (hlast ▸ hab.symm)), fun x hx => ?_⟩
      rcases Finset.mem_insert.1 hx with rfl | hx
      · exact ⟨hazero, k, ha⟩
      · obtain rfl := Finset.mem_singleton.1 hx
        have hprop : Proposes (after c.seed (k + 1)) x := hseed ▸ ⟨j, hb⟩
        exact ⟨hbzero, (proposes_after h _ _).1 hprop⟩

end Candidates

/-! ### Aliases that the others leave -/

namespace AliasTable

/-- The mappings of the other nodes. -/
def others (t : AliasTable) (nodeId : Nat) : List Mapping :=
  t.mappings.filter fun m => m.nodeId ≠ nodeId

theorem mayTake_iff {n : Node} {t : AliasTable} {a : Nat} :
    n.mayTake t a = true ↔
      a ≠ 0 ∧ a ≠ n.previousAlias ∧ ∀ m, t.find? a = some m → m.nodeId = n.id := by
  rw [Node.mayTake]
  cases t.find? a <;> simp [and_assoc]

theorem mayTake_of_others {n : Node} {t : AliasTable} {a : Nat} (hzero : a ≠ 0)
    (hprev : a ≠ n.previousAlias) (h : a ∉ (t.others n.id).map Mapping.aliasId) :
    n.mayTake t a = true := by
  refine mayTake_iff.2 ⟨hzero, hprev, fun m hm => ?_⟩
  rw [find?] at hm
  rw [if_neg hzero] at hm
  have ha : m.aliasId = a := by simpa using List.find?_some hm
  by_contra hne
  exact h (List.mem_map.2
    ⟨m, List.mem_filter.2 ⟨List.mem_of_find?_eq_some hm, decide_eq_true hne⟩, ha⟩)

/-- A table in which other nodes than the first hold the aliases. -/
def taken (as : List Nat) : AliasTable := ⟨as.map fun a => ⟨a, a + 2, true, false⟩, false⟩

theorem notMem_of_mayTake_taken {n : Node} {as : List Nat} {a : Nat} (hid : n.id = 1)
    (h : n.mayTake (taken as) a = true) : a ∉ as := by
  obtain ⟨hzero, -, hown⟩ := mayTake_iff.1 h
  intro ha
  have hsome : ((taken as).find? a).isSome := by
    rw [find?, taken, if_neg hzero, List.find?_isSome]
    exact ⟨_, List.mem_map.2 ⟨a, ha, rfl⟩, by simp⟩
  obtain ⟨m, hm⟩ := Option.isSome_iff_exists.1 hsome
  have hid' := hown m hm
  rw [find?] at hm
  rw [if_neg hzero] at hm
  obtain ⟨b, -, rfl⟩ := List.mem_map.1 (List.mem_of_find?_eq_some hm)
  rw [hid] at hid'
  simp at hid'

end AliasTable

namespace Seed

variable {seed : Nat}

/-- Whatever alias was lost and whatever three the others hold, the sequence proposes another. -/
def Unblocked (seed : Nat) : Prop :=
  ∀ (lost : Nat) (held : Finset Nat), held.card ≤ 3 →
    ∃ k, aliasOf (after seed k) ≠ 0 ∧ aliasOf (after seed k) ≠ lost ∧
      aliasOf (after seed k) ∉ held

/-- Four aliases cannot block an orbit with five. -/
theorem find?_isSome_of_others (h : seed < bound) (hmany : ProposesMany 5 seed) {n : Node}
    {t : AliasTable} (ht : (t.others n.id).length ≤ 3) : (find? (n.mayTake t) seed).isSome := by
  have hcard : (insert n.previousAlias
      ((t.others n.id).map Mapping.aliasId).toFinset).card < 5 := by
    have hheld := List.toFinset_card_le ((t.others n.id).map Mapping.aliasId)
    have hins := Finset.card_insert_le n.previousAlias
      ((t.others n.id).map Mapping.aliasId).toFinset
    rw [List.length_map] at hheld
    omega
  obtain ⟨a, hzero, hnot, hprop⟩ := hmany.exists_notMem hcard
  rw [Finset.mem_insert, List.mem_toFinset, not_or] at hnot
  exact (find?_isSome_iff h).2 ⟨a, AliasTable.mayTake_of_others hzero hnot.1 hnot.2, hprop⟩

/-- What blocks the sequence can be held by three nodes of an interface. -/
theorem unblocked_of_find? (h : seed < bound)
    (hfind : ∀ (n : Node) (t : AliasTable), n.seed = seed → (t.others n.id).length ≤ 3 →
      (find? (n.mayTake t) n.seed).isSome) : Unblocked seed := by
  intro lost held hheld
  let n : Node := { id := 1, params := .ofSupport 0, seed, previousAlias := lost }
  have hlen : ((AliasTable.taken held.toList).others n.id).length ≤ 3 :=
    (List.length_filter_le _ _).trans (by simpa [AliasTable.taken] using hheld)
  obtain ⟨_, hmay, k, rfl⟩ := (find?_isSome_iff h).1 (hfind n _ rfl hlen)
  obtain ⟨hzero, hlost, -⟩ := AliasTable.mayTake_iff.1 hmay
  have hnot := AliasTable.notMem_of_mayTake_taken rfl hmay
  exact ⟨k, hzero, hlost, fun hmem => hnot (Finset.mem_toList.2 hmem)⟩

/-- One alias that was lost and three that are held block an orbit with four. -/
theorem proposesMany_of_unblocked (h : Unblocked seed) : ProposesMany 5 seed := by
  by_contra hnot
  obtain ⟨as, hcard, has⟩ := exists_aliases_of_not_proposesMany hnot
  rcases as.eq_empty_or_nonempty with rfl | ⟨lost, hlost⟩
  · obtain ⟨k, hzero, -⟩ := h 0 ∅ (Nat.zero_le _)
    exact Finset.notMem_empty _ (has k hzero)
  · obtain ⟨k, hzero, hne, hheld⟩ := h lost (as.erase lost) (by
      rw [Finset.card_erase_of_mem hlost]
      omega)
    exact hheld (Finset.mem_erase.2 ⟨hne, has k hzero⟩)

/-- **When a selection ends.**  The candidates of a node never run out if and only if its orbit
proposes two aliases.  The search for an alias that is not zero, not the one just lost and not one
of up to three others ends in every case if and only if the orbit proposes five. -/
theorem selection_ends_iff (h : seed < bound) :
    ((∀ n, ((Candidates.ofNodeId seed).take n).length = n) ↔ ProposesMany 2 seed) ∧
    ((∀ (n : Node) (t : AliasTable), n.seed = seed → (t.others n.id).length ≤ 3 →
        (find? (n.mayTake t) n.seed).isSome) ↔ ProposesMany 5 seed) ∧
    (Unblocked seed ↔ ProposesMany 5 seed) := by
  have hstart : (Candidates.ofNodeId seed).seed = seed := Nat.mod_eq_of_lt h
  have hfind : ProposesMany 5 seed → ∀ (n : Node) (t : AliasTable), n.seed = seed →
      (t.others n.id).length ≤ 3 → (find? (n.mayTake t) n.seed).isSome := by
    rintro hmany n t rfl ht
    exact find?_isSome_of_others h hmany ht
  refine ⟨⟨fun ht => ?_, fun hmany n => ?_⟩, ⟨fun hall => ?_, hfind⟩,
    ⟨proposesMany_of_unblocked, fun hmany => unblocked_of_find? h (hfind hmany)⟩⟩
  · rw [← hstart]
    exact Candidates.proposesMany_of_take (hstart.symm ▸ h) (ht 2)
  · exact Candidates.take_length (hstart.symm ▸ h) (hstart.symm ▸ hmany) n
  · exact proposesMany_of_unblocked (unblocked_of_find? h hall)

theorem proposesMany_of_iterates (seed n : Nat) :
    ProposesMany (((Finset.range n).image fun j => aliasOf (after seed j)).erase 0).card seed := by
  refine ⟨_, rfl, fun a ha => ?_⟩
  obtain ⟨hzero, ha⟩ := Finset.mem_erase.1 ha
  obtain ⟨j, -, rfl⟩ := Finset.mem_image.1 ha
  exact ⟨hzero, j, rfl⟩

/-- The node id of an ordinary node, whose first five candidates differ. -/
theorem selection_ends_ordinary :
    0x010203040506 < bound ∧
      (∀ n, ((Candidates.ofNodeId 0x010203040506).take n).length = n) ∧
      (∀ (n : Node) (t : AliasTable), n.seed = 0x010203040506 → (t.others n.id).length ≤ 3 →
        (find? (n.mayTake t) n.seed).isSome) ∧
      Unblocked 0x010203040506 := by
  have hseed : 0x010203040506 < bound := by rw [bound]; omega
  have hcard : ∀ n ∈ [2, 5], (((Finset.range n).image fun j =>
      aliasOf (after 0x010203040506 j)).erase 0).card = n := by decide +kernel
  have htwo : ProposesMany 2 0x010203040506 :=
    hcard 2 (by simp) ▸ proposesMany_of_iterates 0x010203040506 2
  have hfive : ProposesMany 5 0x010203040506 :=
    hcard 5 (by simp) ▸ proposesMany_of_iterates 0x010203040506 5
  have h := selection_ends_iff hseed
  exact ⟨hseed, h.1.2 htwo, h.2.1.2 hfive, h.2.2.2 hfive⟩

/-! ### Seeds that are their own successors -/

theorem after_of_fixed (h : next seed = seed) (k : Nat) : after seed k = seed := by
  induction k with
  | zero => rfl
  | succ k ih => rw [after_succ, h, ih]

theorem proposes_of_fixed (h : next seed = seed) {a : Nat} (ha : Proposes seed a) :
    a = aliasOf seed := by
  obtain ⟨k, rfl⟩ := ha
  rw [after_of_fixed h]

theorem find?_of_fixed (hs : seed < bound) (h : next seed = seed) {usable : Nat → Bool}
    (hu : ¬ usable (aliasOf seed)) : find? usable seed = none := by
  rw [← Option.not_isSome_iff_eq_none, find?_isSome_iff hs]
  rintro ⟨a, ha, hprop⟩
  exact hu (proposes_of_fixed h hprop ▸ ha)

/-- A sequence that stands still has one candidate. -/
theorem take_of_fixed (hs : seed < bound) (h : next seed = seed) (hzero : aliasOf seed ≠ 0)
    (n : Nat) : (Candidates.ofNodeId seed).take (n + 1) = [aliasOf seed] := by
  have hstart : Candidates.ofNodeId seed = ⟨seed, 0⟩ := by
    rw [Candidates.ofNodeId, Nat.mod_eq_of_lt hs]
  have hfirst : (⟨seed, 0⟩ : Candidates).next? = some (aliasOf seed, ⟨seed, aliasOf seed⟩) := by
    rw [Candidates.next?]
    simp only
    rw [find?_of_usable (decide_eq_true ⟨hzero, hzero⟩)]
    simp only [h]
  have hsecond : (⟨seed, aliasOf seed⟩ : Candidates).next? = none := by
    rw [Candidates.next?]
    simp only
    rw [find?_of_fixed hs h (by simp)]
  rw [hstart]
  cases n with
  | zero => simp only [Candidates.take, hfirst]
  | succ n => simp only [Candidates.take, hfirst, hsecond]

theorem not_unblocked_of_fixed (h : next seed = seed) : ¬ Unblocked seed := by
  intro hfree
  obtain ⟨k, -, hne, -⟩ := hfree (aliasOf seed) ∅ (Nat.zero_le _)
  exact hne (by rw [after_of_fixed h])

/-- The node with the id `0xD95FD513557E` has one candidate.  When it has lost that alias, no search
for another ends. -/
theorem selection_stalls :
    NodeId.Valid 0xD95FD513557E ∧
      (∀ n, (Candidates.ofNodeId 0xD95FD513557E).take (n + 1) = [0x60B]) ∧
      (∀ (n : Node) (t : AliasTable), n.seed = 0xD95FD513557E → n.previousAlias = 0x60B →
        find? (n.mayTake t) n.seed = none) ∧
      ¬ Unblocked 0xD95FD513557E := by
  have hseed : 0xD95FD513557E < bound := by rw [bound]; omega
  have hfixed : next 0xD95FD513557E = 0xD95FD513557E := (next_eq_self_iff hseed).2 (.inl rfl)
  have hnext : aliasOf 0xD95FD513557E = 0x60B := by decide +kernel
  refine ⟨by decide, ?_, ?_, not_unblocked_of_fixed hfixed⟩
  · intro n
    rw [take_of_fixed hseed hfixed (by rw [hnext]; omega), hnext]
  · rintro n t hn hlost
    rw [hn]
    refine find?_of_fixed hseed hfixed fun hmay => ?_
    exact (AliasTable.mayTake_iff.1 hmay).2.1 (by rw [hnext, hlost])

end Seed

end LayoutBus
