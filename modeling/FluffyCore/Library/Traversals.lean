import Mathlib.Data.List.Forall2

/-!
# Traversals that may fail

A function that may fail is applied to each element of a list. The traversal succeeds when the
function does on every element.
-/

namespace FluffyCore.Library.Traversals

universe u v
variable {α : Type u} {β : Type v}

/-- The traversal gives the results element by element. -/
theorem mapM_eq_some_iff (f : α → Option β) (xs : List α) (ys : List β) :
    xs.mapM f = some ys ↔ List.Forall₂ (fun x y => f x = some y) xs ys := by
  induction xs generalizing ys with
  | nil => simp [eq_comm]
  | cons x xs inductionHypothesis =>
    simp only [List.mapM_cons, Option.bind_eq_bind, Option.bind_eq_some_iff,
      inductionHypothesis, Option.pure_def, Option.some.injEq]
    constructor
    · rintro ⟨y, first, more, rest, rfl⟩
      exact List.Forall₂.cons first rest
    · rintro (_ | ⟨first, rest⟩)
      exact ⟨_, first, _, rest, rfl⟩

/-- One failure makes the traversal fail. -/
theorem mapM_eq_none (f : α → Option β) {xs : List α} {x : α} (inside : x ∈ xs)
    (fails : f x = none) : xs.mapM f = none := by
  rw [Option.eq_none_iff_forall_ne_some]
  intro ys succeeded
  have results := (mapM_eq_some_iff f xs ys).1 succeeded
  clear succeeded
  induction results with
  | nil => cases inside
  | cons first _ inductionHypothesis =>
    rcases List.mem_cons.1 inside with rfl | later
    · rw [fails] at first
      cases first
    · exact inductionHypothesis later

end FluffyCore.Library.Traversals
