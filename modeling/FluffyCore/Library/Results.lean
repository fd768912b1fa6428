/-!
# Results of fallible steps

A sequence of steps that may fail succeeds when all of them do. The lemmas here take such a
sequence apart, step by step.
-/

namespace FluffyCore.Library.Results

variable {ε ε' α β : Type}

/-- Two steps in a row succeed when the first does and the second does on its result. -/
theorem bind_eq_ok_iff (first : Except ε α) (second : α → Except ε β) (result : β) :
    (first >>= second) = .ok result ↔ ∃ x, first = .ok x ∧ second x = .ok result := by
  cases first <;> simp [bind, Except.bind]

/-- Wrapping an error does not make a step succeed. -/
theorem mapError_eq_ok_iff (wrap : ε → ε') (step : Except ε α) (result : α) :
    step.mapError wrap = .ok result ↔ step = .ok result := by
  cases step with
  | error err => constructor <;> intro impossible <;> cases impossible
  | ok value =>
    constructor
    · intro same
      cases same
      rfl
    · intro same
      cases same
      rfl

end FluffyCore.Library.Results
