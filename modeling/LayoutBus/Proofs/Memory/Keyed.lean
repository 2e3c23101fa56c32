import LayoutBus.Memory.Removal
import Mathlib.Data.List.Perm.Basic
import Mathlib.Data.List.Nodup

/-!
# Unordered lists with keys

A table is a list whose entries have distinct keys, and whose order does not matter.  An entry is
looked up by its key, so the removal of the entry found is the removal of all entries with that
key, and the change of the entry found is a change of the entries with that key.

* `find?_key_eq_some_iff`, `toList_find?_key` : look-up.
* `moveLastTo_perm_filter` : removal.
* `modify_eq_map` : change, also when only one key is distinct (`modify_eq_map_of_unique`).
-/

namespace LayoutBus

section Keyed

variable {α β : Type} [DecidableEq β] {f : α → β} {b : β}

theorem find?_key_eq_some_iff {xs : List α} {x : α} (h : (xs.map f).Nodup) :
    (xs.find? fun y => f y = b) = some x ↔ x ∈ xs ∧ f x = b := by
  constructor
  · intro hx
    exact ⟨List.mem_of_find?_eq_some hx, by simpa using List.find?_some hx⟩
  · rintro ⟨hx, rfl⟩
    cases hy : xs.find? fun y => f y = f x with
    | none => simpa using List.find?_eq_none.1 hy x hx
    | some y =>
      have hkey : f y = f x := by simpa using List.find?_some hy
      rw [List.inj_on_of_nodup_map h (List.mem_of_find?_eq_some hy) hx hkey]

theorem toList_find?_key {xs : List α} (h : (xs.map f).Nodup) :
    (xs.find? fun y => f y = b).toList = xs.filter fun y => f y = b := by
  induction xs with
  | nil => rfl
  | cons x xs ih =>
    rw [List.map_cons, List.nodup_cons] at h
    by_cases hx : f x = b
    · have hrest : ∀ y ∈ xs, ¬ decide (f y = b) = true := by
        intro y hy hyb
        exact h.1 (hx.trans (of_decide_eq_true hyb).symm ▸ List.mem_map_of_mem hy)
      rw [List.find?_cons_of_pos (by simpa using hx), List.filter_cons_of_pos (by simpa using hx),
        List.filter_eq_nil_iff.2 hrest]
      rfl
    · rw [List.find?_cons_of_neg (by simpa using hx), List.filter_cons_of_neg (by simpa using hx),
        ih h.2]

theorem eraseP_eq_filter {xs : List α} (h : (xs.map f).Nodup) :
    (xs.eraseP fun x => f x = b) = xs.filter fun x => f x ≠ b := by
  induction xs with
  | nil => rfl
  | cons x xs ih =>
    rw [List.map_cons, List.nodup_cons] at h
    by_cases hx : f x = b
    · have hrest : ∀ y ∈ xs, decide (f y ≠ b) = true := by
        intro y hy
        have : f y ≠ b := fun hyb => h.1 (hx ▸ hyb ▸ List.mem_map_of_mem hy)
        simpa using this
      rw [List.eraseP_cons_of_pos (by simpa using hx), List.filter_cons_of_neg (by simpa using hx),
        List.filter_eq_self.2 hrest]
    · rw [List.eraseP_cons_of_neg (by simpa using hx), List.filter_cons_of_pos (by simpa using hx),
        ih h.2]

theorem eraseIdx_eq_filter {xs : List α} {i : Nat} (h : (xs.map f).Nodup)
    (hi : (xs.findIdx? fun x => f x = b) = some i) :
    xs.eraseIdx i = xs.filter fun x => f x ≠ b := by
  rw [← eraseP_eq_filter h, List.eraseP_eq_eraseIdx, hi]

theorem moveLastTo_perm_filter {xs : List α} {i : Nat} (h : (xs.map f).Nodup)
    (hi : (xs.findIdx? fun x => f x = b) = some i) :
    (moveLastTo xs i).Perm (xs.filter fun x => f x ≠ b) := by
  rw [← eraseIdx_eq_filter h hi]
  exact moveLastTo_perm xs i

theorem perm_cons_filter {xs : List α} {x : α} (h : (xs.map f).Nodup) (hx : x ∈ xs) :
    xs.Perm (x :: xs.filter fun y => f y ≠ f x) := by
  cases hi : xs.findIdx? fun y => f y = f x with
  | none => simpa using List.findIdx?_eq_none_iff.1 hi x hx
  | some i =>
    obtain ⟨hlt, hfi, -⟩ := List.findIdx?_eq_some_iff_getElem.1 hi
    have heq : xs[i] = x :=
      List.inj_on_of_nodup_map h (List.getElem_mem hlt) hx (of_decide_eq_true hfi)
    have hperm := List.getElem_cons_eraseIdx_perm hlt
    rw [heq, eraseIdx_eq_filter h hi] at hperm
    exact hperm.symm

theorem filter_eq_self_of_findIdx? {xs : List α}
    (hi : (xs.findIdx? fun x => f x = b) = none) : (xs.filter fun x => f x ≠ b) = xs := by
  rw [List.filter_eq_self]
  intro x hx
  simpa using List.findIdx?_eq_none_iff.1 hi x hx

theorem lt_of_findIdx? {p : α → Bool} {xs : List α} {i : Nat} (hi : xs.findIdx? p = some i) :
    i < xs.length :=
  (List.findIdx?_eq_some_iff_getElem.1 hi).1

theorem map_ite_eq_self {xs : List α} {g : α → α} (h : ∀ x ∈ xs, f x ≠ b) :
    (xs.map fun x => if f x = b then g x else x) = xs := by
  conv_rhs => rw [← List.map_id xs]
  exact List.map_congr_left fun x hx => if_neg (h x hx)

/-- Only one entry has the key, whatever the keys of the others. -/
theorem modify_eq_map_of_unique {xs : List α} {i : Nat} (g : α → α) (hn : xs.Nodup)
    (hu : ∀ x ∈ xs, ∀ y ∈ xs, f x = b → f y = b → x = y)
    (hi : (xs.findIdx? fun x => f x = b) = some i) :
    xs.modify i g = xs.map fun x => if f x = b then g x else x := by
  obtain ⟨hlt, hfi, -⟩ := List.findIdx?_eq_some_iff_getElem.1 hi
  apply List.ext_getElem
  · simp
  · intro j hj _
    rw [List.length_modify] at hj
    rw [List.getElem_modify, List.getElem_map]
    by_cases hij : i = j
    · subst hij
      simp [of_decide_eq_true hfi]
    · have hne : f xs[j] ≠ b := fun hb => hij ((List.Nodup.getElem_inj_iff hn).1
        (hu _ (List.getElem_mem hlt) _ (List.getElem_mem hj) (of_decide_eq_true hfi) hb))
      simp [hij, hne]

theorem modify_eq_map {xs : List α} {i : Nat} (g : α → α) (h : (xs.map f).Nodup)
    (hi : (xs.findIdx? fun x => f x = b) = some i) :
    xs.modify i g = xs.map fun x => if f x = b then g x else x :=
  modify_eq_map_of_unique g h.of_map
    (fun _ hx _ hy hxb hyb => List.inj_on_of_nodup_map h hx hy (hxb.trans hyb.symm)) hi

end Keyed

/-! ### Changing one entry -/

section Change

variable {α β : Type} {f : α → α} {g : α → Option β} {x : α}

theorem filterMap_modify_perm {xs : List α} {i : Nat} (hx : xs[i]? = some x) :
    ((xs.modify i f).filterMap g ++ (g x).toList).Perm (xs.filterMap g ++ (g (f x)).toList) := by
  simp only [List.filterMap_eq_flatMap_toList]
  induction xs generalizing i with
  | nil => cases hx
  | cons y ys ih =>
    cases i with
    | zero =>
      obtain rfl : y = x := Option.some.inj hx
      simp only [List.modify_zero_cons, List.flatMap_cons, List.append_assoc]
      refine List.perm_append_comm.trans ?_
      rw [← List.append_assoc (g y).toList]
      exact List.perm_append_comm.append_right _
    | succ i =>
      simp only [List.modify_succ_cons, List.flatMap_cons, List.append_assoc]
      exact List.Perm.append_left _ (ih hx)

theorem filterMap_modify {xs : List α} {i : Nat} (hx : ∀ x, xs[i]? = some x → g (f x) = g x) :
    (xs.modify i f).filterMap g = xs.filterMap g := by
  simp only [List.filterMap_eq_flatMap_toList]
  induction xs generalizing i with
  | nil => rw [List.modify_nil]
  | cons y ys ih =>
    cases i with
    | zero => rw [List.modify_zero_cons, List.flatMap_cons, List.flatMap_cons, hx y rfl]
    | succ i => rw [List.modify_succ_cons, List.flatMap_cons, List.flatMap_cons, ih hx]

theorem map_modify {γ : Type} {g : α → γ} {xs : List α} {i : Nat}
    (hx : ∀ x, xs[i]? = some x → g (f x) = g x) : (xs.modify i f).map g = xs.map g := by
  have h := filterMap_modify (g := some ∘ g) fun x hi => congrArg some (hx x hi)
  rwa [List.filterMap_eq_map] at h

theorem mem_modify {xs : List α} {i : Nat} {y : α} (hy : y ∈ xs.modify i f) :
    y ∈ xs ∨ ∃ x, xs[i]? = some x ∧ y = f x := by
  obtain ⟨j, hj⟩ := List.mem_iff_getElem?.1 hy
  rw [List.getElem?_modify, Option.map_eq_map, Option.map_eq_some_iff] at hj
  obtain ⟨x, hx, rfl⟩ := hj
  split
  · rename_i hij
    subst hij
    exact .inr ⟨x, hx, rfl⟩
  · exact .inl (List.mem_of_getElem? hx)

theorem mem_modify_self {xs : List α} {i : Nat} {x : α} (hx : xs[i]? = some x) :
    f x ∈ xs.modify i f := by
  refine List.mem_of_getElem? (i := i) ?_
  rw [List.getElem?_modify_eq, hx]
  rfl

theorem mem_modify_of_ne {xs : List α} {i : Nat} {x : α} (hx : x ∈ xs) (hne : xs[i]? ≠ some x) :
    x ∈ xs.modify i f := by
  obtain ⟨j, hj⟩ := List.mem_iff_getElem?.1 hx
  have hij : i ≠ j := by
    rintro rfl
    exact hne hj
  refine List.mem_of_getElem? (i := j) ?_
  rw [List.getElem?_modify, hj]
  simp [hij]

end Change

end LayoutBus
