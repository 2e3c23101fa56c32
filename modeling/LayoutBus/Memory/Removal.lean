/-!
# Removal from an unordered list

A list whose order does not matter gives up an entry by moving its last entry into the hole.

* `moveLastTo_perm`: up to its order, the list loses just the entry at that place.
-/

namespace LayoutBus

/-- The list without the entry at `i`, whose place the last entry takes; the list itself if there
is no such entry. -/
def moveLastTo {α : Type} (xs : List α) (i : Nat) : List α :=
  match xs.getLast? with
  | some last => if i < xs.length then (xs.set i last).dropLast else xs
  | none => xs

theorem moveLastTo_perm {α : Type} (xs : List α) (i : Nat) :
    (moveLastTo xs i).Perm (xs.eraseIdx i) := by
  unfold moveLastTo
  split
  · rename_i last hlast
    obtain ⟨ys, rfl⟩ := List.getLast?_eq_some_iff.1 hlast
    split
    · rename_i hi
      rcases Nat.lt_or_ge i ys.length with hlt | hge
      · rw [List.set_append_left _ _ hlt, List.dropLast_concat,
          List.eraseIdx_append_of_lt_length hlt, List.set_eq_take_append_cons_drop, if_pos hlt,
          List.eraseIdx_eq_take_drop_succ, List.append_assoc]
        exact List.Perm.append_left _ (@List.perm_append_comm _ [last] _)
      · obtain rfl : i = ys.length := by simp at hi; omega
        rw [List.set_append_right _ _ hge, List.eraseIdx_append_of_length_le hge]
        simp
    · rename_i hi
      rw [List.eraseIdx_of_length_le (Nat.le_of_not_lt hi)]
  · rename_i hnone
    rw [List.getLast?_eq_none_iff.1 hnone]
    rfl

end LayoutBus
