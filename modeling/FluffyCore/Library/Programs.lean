import Mathlib.Data.List.Basic

/-!
# Programs that change a state and may stop

A program reads and changes a state. It ends with a result, or it stops with a reason; what it
has done to the state until then remains. The weakest precondition of a program for a
postcondition holds in the states from which the program ends in the postcondition. It takes a
sequence of programs apart from the front.
-/

namespace FluffyCore.Library

universe u v w

/-- A program with states `σ` that ends with an `α` or stops with an `ε`. -/
def Program (σ : Type u) (ε : Type v) (α : Type w) := σ → Except ε α × σ

namespace Program

variable {σ : Type u} {ε : Type v} {α β : Type w}

instance : Monad (Program σ ε) where
  pure a := fun s => (.ok a, s)
  bind m f := fun s =>
    match m s with
    | (.ok a, s') => f a s'
    | (.error e, s') => (.error e, s')

def stop (reason : ε) : Program σ ε α := fun s => (.error reason, s)

/-- Change the state. -/
def update (change : σ → σ) : Program σ ε PUnit := fun s => (.ok ⟨⟩, change s)

/-- Go on in a way that depends on the state. -/
def reading (next : σ → Program σ ε α) : Program σ ε α := fun s => next s s

/-- Run a program and then change the state, also when it has stopped. -/
def ensuring (m : Program σ ε α) (cleanup : σ → σ) : Program σ ε α := fun s =>
  ((m s).1, cleanup (m s).2)

/-- Run a program on the elements of a list, in order, until it stops. -/
def each (f : α → Program σ ε β) : List α → Program σ ε (List β)
  | [] => pure []
  | x :: rest => do
      let y ← f x
      let more ← each f rest
      pure (y :: more)

/-- The program ends in the postcondition. -/
def wp (m : Program σ ε α) (post : Except ε α → σ → Prop) (s : σ) : Prop :=
  post (m s).1 (m s).2

variable {post : Except ε α → σ → Prop} {s : σ}

/-- The postcondition may be weakened. -/
theorem wp_mono {m : Program σ ε α} {weaker : Except ε α → σ → Prop} (holds : m.wp post s)
    (weakens : ∀ r s', post r s' → weaker r s') : m.wp weaker s :=
  weakens _ _ holds

/-- A value is returned in the state at the start. -/
theorem wp_pure (a : α) (holds : post (.ok a) s) : (pure a : Program σ ε α).wp post s :=
  holds

/-- A program that stops leaves the state as it is. -/
theorem wp_stop (reason : ε) (holds : post (.error reason) s) :
    (stop reason : Program σ ε α).wp post s :=
  holds

/-- A change of the state that is followed by a program. -/
theorem wp_update_bind {change : σ → σ} {f : PUnit → Program σ ε α}
    (holds : (f ⟨⟩).wp post (change s)) : (update change >>= f).wp post s :=
  holds

/-- A program that reads the state goes on with the one at the start. -/
theorem wp_reading {next : σ → Program σ ε α} (holds : (next s).wp post s) :
    (reading next).wp post s :=
  holds

/-- The cleanup runs after the program, whether it has stopped or not. -/
theorem wp_ensuring {m : Program σ ε α} {cleanup : σ → σ}
    (holds : m.wp (fun r s' => post r (cleanup s')) s) : (m.ensuring cleanup).wp post s :=
  holds

/-- A sequence meets a postcondition when the second program does from where the first one
ends, and when the first one does if it stops. -/
theorem wp_bind {m : Program σ ε α} {f : α → Program σ ε β} {post : Except ε β → σ → Prop}
    {middle : Except ε α → σ → Prop} (first : m.wp middle s)
    (second : ∀ a s', middle (.ok a) s' → (f a).wp post s')
    (stopped : ∀ e s', middle (.error e) s' → post (.error e) s') : (m >>= f).wp post s := by
  unfold wp at first ⊢
  simp only [bind]
  cases ended : m s with
  | mk r s' =>
    rw [ended] at first
    cases r with
    | ok a => exact second a s' first
    | error e => exact stopped e s' first

/-- The rule for a run over a list. The invariant speaks of the results so far and of the
elements that are left. -/
theorem wp_each {f : α → Program σ ε β} {elements : List α}
    (invariant : List β → List α → σ → Prop) (stopped : ε → σ → Prop)
    (initially : invariant [] elements s)
    (step : ∀ results x rest s', x ∈ elements → invariant results (x :: rest) s' →
      (f x).wp (fun r s'' => match r with
        | .ok y => invariant (results ++ [y]) rest s''
        | .error e => stopped e s'') s') :
    (each f elements).wp (fun r s' => match r with
      | .ok results => invariant results [] s'
      | .error e => stopped e s') s := by
  have loop : ∀ (rest : List α) (results : List β) (s' : σ), (∀ x ∈ rest, x ∈ elements) →
      invariant results rest s' →
      (each f rest).wp (fun r s'' => match r with
        | .ok more => invariant (results ++ more) [] s''
        | .error e => stopped e s'') s' := by
    intro rest
    induction rest with
    | nil =>
      intro results s' _ holds
      exact wp_pure [] (by simpa using holds)
    | cons x rest inductionHypothesis =>
      intro results s' inside holds
      refine wp_bind (step results x rest s' (inside x List.mem_cons_self) holds) ?_ ?_
      · intro y s'' later
        have remaining := inductionHypothesis (results ++ [y]) s''
          (fun z member => inside z (List.mem_cons_of_mem x member)) later
        refine wp_bind remaining ?_ ?_
        · intro more s''' done
          exact wp_pure (y :: more) (by simpa using done)
        · intro e s''' failed
          exact failed
      · intro e s'' failed
        exact failed
  simpa using loop elements [] s (fun _ member => member) initially

end Program

end FluffyCore.Library
