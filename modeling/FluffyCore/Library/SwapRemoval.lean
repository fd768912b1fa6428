import Mathlib.Data.List.Perm.Basic

/-!
# Removal by swapping

An element of a list is removed by writing the last element over it and cutting the
list by one. The order of the rest changes, but no element is lost or doubled.
-/

namespace FluffyCore.Library.SwapRemoval

universe u
variable {α : Type u}

/-- Write the last element over a position, then drop the last place. -/
def swapRemove (s : List α) (index : Fin s.length) : List α :=
  (s.set index (s.getLast (List.ne_nil_of_length_pos index.pos))).dropLast

/-- Swapping the last element in removes what erasing the position removes. -/
theorem swapRemove_perm (s : List α) (index : Fin s.length) :
    (swapRemove s index).Perm (s.eraseIdx index) := by
  obtain ⟨before, x, after, rfl, here⟩ : ∃ before x after, s = before ++ x :: after ∧
      index.val = before.length :=
    ⟨s.take index, s.get index, s.drop (index + 1), by simp, by simp [Nat.le_of_lt index.isLt]⟩
  have erased : (before ++ x :: after).eraseIdx index = before ++ after := by
    rw [here, List.eraseIdx_append_of_length_le (Nat.le_refl _), Nat.sub_self]
    rfl
  rw [erased]
  unfold swapRemove
  rcases List.eq_nil_or_concat' after with rfl | ⟨rest, last, rfl⟩
  · simp [here]
  · have written : (before ++ x :: (rest ++ [last])).set index last =
        (before ++ last :: rest) ++ [last] := by
      rw [here, List.set_append_right _ _ (Nat.le_refl _), Nat.sub_self]
      simp
    have final : (before ++ x :: (rest ++ [last])).getLast
        (List.ne_nil_of_length_pos index.pos) = last := by
      simp
    rw [final, written, List.dropLast_concat]
    exact (List.perm_append_singleton last rest).symm.append_left before

end FluffyCore.Library.SwapRemoval
