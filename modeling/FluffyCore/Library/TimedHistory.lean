import Mathlib.Data.List.Induction
import Mathlib.Order.Basic

/-!
# Histories of timed calls

A state is changed by calls at times that do not decrease. A property of the state and the
time holds after every history if it holds at the start, is kept while time passes, and is
kept by a call at the time of the call.
-/

namespace FluffyCore.Library.TimedHistory

universe u v w
variable {σ : Type u} {γ : Type v} {τ : Type w} [Preorder τ]

/-- The invariant rule for timed histories. -/
theorem invariant (apply : σ → γ × τ → σ) (holds : σ → τ → Prop) (start : σ)
    (begins : ∀ now, holds start now)
    (waits : ∀ s now after, holds s now → now ≤ after → holds s after)
    (kept : ∀ s call, holds s call.2 → holds (apply s call) call.2)
    (history : List (γ × τ)) (ordered : history.Pairwise fun c d => c.2 ≤ d.2)
    (now : τ) (past : ∀ call ∈ history, call.2 ≤ now) :
    holds (history.foldl apply start) now := by
  induction history using List.reverseRecOn generalizing now with
  | nil => exact begins now
  | append_singleton before call inductionHypothesis =>
    obtain ⟨earlierOrdered, _, lastOrdered⟩ := List.pairwise_append.1 ordered
    have atCall := inductionHypothesis earlierOrdered call.2
      (fun other inside => lastOrdered other inside call List.mem_cons_self)
    rw [List.foldl_append, List.foldl_cons, List.foldl_nil]
    exact waits _ _ _ (kept _ call atCall) (past call (by simp))

end FluffyCore.Library.TimedHistory
