import Mathlib.Data.List.Basic

/-!
# Compacting a slice into its own cells

A loop keeps the elements of a slice that pass a test by appending them to a
second slice of length zero that shares the first one's cells. Every append then
overwrites a cell of the slice that is still being read. The write index never
passes the read index, so each element is read before its cell is overwritten,
and the kept cells are exactly the filtered elements in their original order.
-/

namespace FluffyCore.Library.Compaction

universe u
variable {α : Type u}

/-- One iteration: read the cell at the loop index from the current cells and,
when it is kept, write it at the write index and advance that index. -/
def iteration (keep : α → Bool) (state : List α × Nat) (index : Nat) : List α × Nat :=
  match state.1[index]? with
  | some element =>
      if keep element then (state.1.set state.2 element, state.2 + 1) else state
  | none => state

/-- Run the loop over every index and return the cells before the write index. -/
def compact (keep : α → Bool) (cells : List α) : List α :=
  let final := (List.range cells.length).foldl (iteration keep) (cells, 0)
  final.1.take final.2

/-- What holds after a number of iterations: no cell from the read index on has
changed, and the cells before the write index are the kept part of what was read. -/
structure Progress (keep : α → Bool) (cells : List α) (count : Nat) (state : List α × Nat) :
    Prop where
  width : state.1.length = cells.length
  behind : state.2 ≤ count
  unread : state.1.drop count = cells.drop count
  kept : state.1.take state.2 = (cells.take count).filter keep

/-- A kept element goes to a cell that has already been read. The write extends
the kept prefix by it and leaves the unread cells alone. -/
theorem iteration_progress (keep : α → Bool) (cells : List α) (count : Nat)
    (state : List α × Nat) (inside : count < cells.length)
    (progress : Progress keep cells count state) :
    Progress keep cells (count + 1) (iteration keep state count) := by
  obtain ⟨width, behind, unread, kept⟩ := progress
  have stored : count < state.1.length := by omega
  have read : state.1[count]? = some cells[count] := by
    have same := congrArg (fun rest => rest[0]?) unread
    simpa [List.getElem?_drop, List.getElem?_eq_getElem inside] using same
  have unreadTail : state.1.drop (count + 1) = cells.drop (count + 1) := by
    have same := congrArg (List.drop 1) unread
    simpa only [List.drop_drop] using same
  have grown : (cells.take (count + 1)).filter keep =
      (cells.take count).filter keep ++ [cells[count]].filter keep := by
    rw [List.take_succ_eq_append_getElem inside, List.filter_append]
  by_cases keeps : keep cells[count] = true
  · simp only [iteration, read, keeps, if_true]
    refine ⟨by simp [width], by simpa using behind, ?_, ?_⟩
    · rw [List.drop_set_of_lt (by omega)]
      exact unreadTail
    · rw [grown, ← kept, List.take_succ_eq_append_getElem (by simp; omega)]
      simp [List.take_set_of_le, keeps]
  · have same : iteration keep state count = state := by simp [iteration, read, keeps]
    rw [same]
    refine ⟨width, by omega, unreadTail, ?_⟩
    rw [grown, ← kept]
    simp [keeps]

/-- The loop invariant after any number of iterations within the slice. -/
theorem loop_progress (keep : α → Bool) (cells : List α) (count : Nat)
    (inside : count ≤ cells.length) :
    Progress keep cells count ((List.range count).foldl (iteration keep) (cells, 0)) := by
  induction count with
  | zero => exact ⟨rfl, Nat.le_refl 0, rfl, by simp⟩
  | succ count inductionHypothesis =>
    rw [List.range_succ, List.foldl_append]
    exact iteration_progress keep cells count _ inside (inductionHypothesis (by omega))

/-- Compacting in place returns the filtered elements, although the loop writes
into the cells it reads. -/
theorem compact_eq_filter (keep : α → Bool) (cells : List α) :
    compact keep cells = cells.filter keep := by
  have finished := loop_progress keep cells cells.length (Nat.le_refl _)
  simpa only [compact, List.take_length] using finished.kept

end FluffyCore.Library.Compaction
