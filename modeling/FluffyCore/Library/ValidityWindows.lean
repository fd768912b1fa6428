import Mathlib.Order.Lattice

/-!
# Windows of time and their boundaries

Whether an instant lies in an open window changes only at the window's ends. A stretch
of time is quiet when no boundary lies inside it; over a quiet stretch a window that is
open stays open, and what was computed from the open windows at its start is right at
every instant that is not a boundary itself.
-/

namespace FluffyCore.Library.ValidityWindows

universe u
variable {τ : Type u} [LinearOrder τ]

/-- An instant strictly between the ends of a window. -/
def Open (opens closes : τ) (now : τ) : Prop := opens < now ∧ now < closes

instance (opens closes now : τ) : Decidable (Open opens closes now) :=
  inferInstanceAs (Decidable (_ ∧ _))

/-- No boundary lies at the start or between it and the stop. -/
def Quiet (boundaries : List τ) (start stop : τ) : Prop :=
  ∀ boundary ∈ boundaries, start ≤ boundary → stop ≤ boundary

/-- A window that is open at the start of a quiet stretch has opened, and does not close
before its stop. -/
theorem Open.during {boundaries : List τ} {start stop now opens closes : τ}
    (isOpen : Open opens closes start) (quiet : Quiet boundaries start stop)
    (listed : closes ∈ boundaries) (later : start ≤ now) (within : now ≤ stop) :
    opens < now ∧ now ≤ closes :=
  ⟨isOpen.1.trans_le later, within.trans (quiet closes listed isOpen.2.le)⟩

/-- At an instant of a quiet stretch that is no boundary the open windows are those that
were open at its start. -/
theorem Quiet.open_iff {boundaries : List τ} {start stop now opens closes : τ}
    (quiet : Quiet boundaries start stop) (opensListed : opens ∈ boundaries)
    (closesListed : closes ∈ boundaries) (later : start ≤ now) (within : now ≤ stop)
    (apart : now ∉ boundaries) : Open opens closes now ↔ Open opens closes start := by
  have notOpens : opens ≠ now := fun same => apart (same ▸ opensListed)
  have notCloses : closes ≠ now := fun same => apart (same ▸ closesListed)
  constructor
  · rintro ⟨opened, notClosed⟩
    refine ⟨lt_of_not_ge fun notYet => ?_, later.trans_lt notClosed⟩
    exact absurd (within.trans (quiet opens opensListed notYet)) (not_le.2 opened)
  · intro isOpen
    obtain ⟨opened, notClosed⟩ := isOpen.during quiet closesListed later within
    exact ⟨opened, lt_of_le_of_ne notClosed notCloses.symm⟩

/-- The earliest boundary that is not before an instant, if it is before the limit. -/
def earliest (now limit : τ) (boundaries : List τ) : τ :=
  boundaries.foldl (fun next boundary => if ¬ boundary < now ∧ boundary < next then boundary
    else next) limit

/-- Nothing lies between an instant and the earliest boundary after it. -/
theorem earliest_le (now limit : τ) (boundaries : List τ) :
    earliest now limit boundaries ≤ limit ∧
      Quiet boundaries now (earliest now limit boundaries) := by
  induction boundaries generalizing limit with
  | nil => exact ⟨le_rfl, fun boundary inside => absurd inside List.not_mem_nil⟩
  | cons first rest inductionHypothesis =>
    rw [earliest, List.foldl_cons]
    split
    · next taken =>
      obtain ⟨below, quiet⟩ := inductionHypothesis first
      refine ⟨below.trans taken.2.le, fun boundary inside notBefore => ?_⟩
      rcases List.mem_cons.1 inside with rfl | later
      · exact below
      · exact quiet boundary later notBefore
    · next passed =>
      obtain ⟨below, quiet⟩ := inductionHypothesis limit
      refine ⟨below, fun boundary inside notBefore => ?_⟩
      rcases List.mem_cons.1 inside with rfl | later
      · have notSmaller : ¬ boundary < limit := fun smaller =>
          passed ⟨not_lt.2 notBefore, smaller⟩
        exact below.trans (not_lt.1 notSmaller)
      · exact quiet boundary later notBefore

end FluffyCore.Library.ValidityWindows
