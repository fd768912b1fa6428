import Mathlib.Data.List.Induction
import Mathlib.Data.List.Perm.Basic

/-!
# The last write of each key

A list of keyed elements in the order they were written splits into the last element
of each key and the ones that a later element of the same key has overwritten. A map
from keys to elements keeps the first part, a list that is only appended to keeps both.
-/

namespace FluffyCore.Library.LastWrites

universe u v
variable {α : Type u} {κ : Type v} [DecidableEq κ] (key : α → κ)

/-- The elements without a later element of the same key. -/
def lastWrites : List α → List α
  | [] => []
  | x :: rest => if rest.any (key · = key x) then lastWrites rest else x :: lastWrites rest

/-- The elements with a later element of the same key. -/
def overwritten : List α → List α
  | [] => []
  | x :: rest => if rest.any (key · = key x) then x :: overwritten rest else overwritten rest

/-- Every element is in one of the two parts. -/
theorem perm_append_overwritten (writes : List α) :
    writes.Perm (lastWrites key writes ++ overwritten key writes) := by
  induction writes with
  | nil => exact .nil
  | cons x rest inductionHypothesis =>
    by_cases later : rest.any (key · = key x)
    · rw [lastWrites, overwritten, if_pos later, if_pos later]
      exact (inductionHypothesis.cons x).trans List.perm_middle.symm
    · rw [lastWrites, overwritten, if_neg later, if_neg later]
      exact inductionHypothesis.cons x

/-- A write overwrites what its key held. -/
theorem lastWrites_append_singleton (writes : List α) (x : α) :
    lastWrites key (writes ++ [x]) =
      (lastWrites key writes).filter (fun y => key y ≠ key x) ++ [x] := by
  induction writes with
  | nil => simp [lastWrites]
  | cons y rest inductionHypothesis =>
    rw [List.cons_append, lastWrites, lastWrites, inductionHypothesis, List.any_append]
    by_cases later : rest.any (key · = key y)
    · simp [later]
    · by_cases same : key x = key y
      · simp [later, same]
      · simp [later, same, Ne.symm same]

/-- What one more write overwrites: the last write of its key, with what was overwritten
before. -/
theorem mem_overwritten_append_singleton (writes : List α) (x y : α) :
    y ∈ overwritten key (writes ++ [x]) ↔
      y ∈ overwritten key writes ∨ y ∈ lastWrites key writes ∧ key y = key x := by
  induction writes with
  | nil => simp [overwritten, lastWrites]
  | cons w rest inductionHypothesis =>
    rw [List.cons_append, overwritten, overwritten, lastWrites, List.any_append]
    by_cases later : rest.any (key · = key w)
    · simp [later, inductionHypothesis, or_assoc]
    · by_cases same : key x = key w
      · have again : (rest.any (key · = key w) || [x].any (key · = key w)) = true := by simp [same]
        rw [if_pos again, if_neg later, if_neg later, List.mem_cons, List.mem_cons,
          inductionHypothesis, same]
        constructor
        · rintro (rfl | before | ⟨last, again⟩)
          · exact Or.inr ⟨Or.inl rfl, rfl⟩
          · exact Or.inl before
          · exact Or.inr ⟨Or.inr last, again⟩
        · rintro (before | ⟨rfl | last, again⟩)
          · exact Or.inr (Or.inl before)
          · exact Or.inl rfl
          · exact Or.inr (Or.inr ⟨last, again⟩)
      · have never : ¬ (rest.any (key · = key w) || [x].any (key · = key w)) = true := by
          simpa [same] using later
        rw [if_neg never, if_neg later, if_neg later, List.mem_cons, inductionHypothesis]
        constructor
        · rintro (before | ⟨last, again⟩)
          · exact Or.inl before
          · exact Or.inr ⟨Or.inr last, again⟩
        · rintro (before | ⟨rfl | last, again⟩)
          · exact Or.inl before
          · exact absurd again.symm same
          · exact Or.inr ⟨last, again⟩

/-- Whether a key is written again is not changed by forgetting other keys. -/
theorem any_filter_key (keep : κ → Bool) (writes : List α) (x : α) (kept : keep (key x) = true) :
    (writes.filter fun y => keep (key y)).any (key · = key x) = writes.any (key · = key x) := by
  rw [List.any_filter]
  congr 1
  funext y
  by_cases equal : key y = key x <;> simp [equal, kept]

/-- Forgetting some keys commutes with keeping the last writes. -/
theorem lastWrites_filter (keep : κ → Bool) (writes : List α) :
    lastWrites key (writes.filter fun x => keep (key x)) =
      (lastWrites key writes).filter fun x => keep (key x) := by
  induction writes with
  | nil => rfl
  | cons x rest inductionHypothesis =>
    by_cases kept : keep (key x) = true
    · simp only [List.filter_cons, kept, if_true, lastWrites, any_filter_key key keep rest x kept,
        inductionHypothesis]
      split <;> simp [kept]
    · simp only [List.filter_cons, kept, Bool.false_eq_true, if_false, inductionHypothesis,
        lastWrites]
      split <;> simp [kept]

/-- Forgetting some keys commutes with collecting what was overwritten. -/
theorem overwritten_filter (keep : κ → Bool) (writes : List α) :
    overwritten key (writes.filter fun x => keep (key x)) =
      (overwritten key writes).filter fun x => keep (key x) := by
  induction writes with
  | nil => rfl
  | cons x rest inductionHypothesis =>
    by_cases kept : keep (key x) = true
    · simp only [List.filter_cons, kept, if_true, overwritten, any_filter_key key keep rest x kept,
        inductionHypothesis]
      split <;> simp [kept]
    · simp only [List.filter_cons, kept, Bool.false_eq_true, if_false, inductionHypothesis,
        overwritten]
      split <;> simp [kept]

/-- No two last writes share a key. -/
theorem nodup_keys_lastWrites (writes : List α) : ((lastWrites key writes).map key).Nodup := by
  induction writes using List.reverseRecOn with
  | nil => exact List.nodup_nil
  | append_singleton before x inductionHypothesis =>
    rw [lastWrites_append_singleton, List.map_append, List.nodup_append]
    refine ⟨inductionHypothesis.sublist (List.filter_sublist.map _), by simp, ?_⟩
    rintro k inside k' isLast rfl
    obtain ⟨y, kept, rfl⟩ := List.mem_map.1 inside
    have other : key y ≠ key x := by simpa using (List.mem_filter.1 kept).2
    have same : key y = key x := by simpa using isLast
    exact other same

/-- Where an element stands in a list that one more element ends. -/
theorem append_singleton_eq_append_cons_iff (elements before after : List α) (last x : α) :
    elements ++ [last] = before ++ x :: after ↔
      (elements = before ∧ last = x ∧ after = []) ∨
        ∃ earlier, elements = before ++ x :: earlier ∧ after = earlier ++ [last] := by
  constructor
  · intro split
    rcases List.eq_nil_or_concat' after with rfl | ⟨earlier, final, rfl⟩
    · obtain ⟨rfl, same⟩ := List.append_inj' split rfl
      exact Or.inl ⟨rfl, by simpa using same, rfl⟩
    · rw [← List.cons_append, ← List.append_assoc] at split
      obtain ⟨same, sameLast⟩ := List.append_inj' split rfl
      obtain rfl : last = final := by simpa using sameLast
      exact Or.inr ⟨earlier, same, rfl⟩
  · rintro (⟨rfl, rfl, rfl⟩ | ⟨earlier, rfl, rfl⟩)
    · rfl
    · simp

end FluffyCore.Library.LastWrites
