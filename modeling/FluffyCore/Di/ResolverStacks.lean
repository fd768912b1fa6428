import FluffyCore.Di.ResolverSteps
import Mathlib.Data.List.Pairwise

/-!
# The stack of a resolution

Each activation on the stack of a call is a visit of a part of the call site of the activation
below it, in the context that this activation hands on. From that follows how call sites nest on
a stack, and when the mutex of a scope is held: never below the visit of a singleton, and exactly
once around the visits of scoped services.
-/

namespace FluffyCore.Di

open Library Library.Interleaving Relation

/-- A call site is a part of another one, at any depth. -/
def Below : CallSite → CallSite → Prop :=
  TransGen fun part whole => part ∈ whole.callSites

/-- A part is smaller than the whole. -/
theorem Below.sizeOf_lt {part whole : CallSite} (below : Below part whole) :
    sizeOf part < sizeOf whole := by
  induction below with
  | single inside => exact CallSite.sizeOf_lt inside
  | tail _ inside inductionHypothesis =>
    exact Nat.lt_trans inductionHypothesis (CallSite.sizeOf_lt inside)

/-- A call site is not a part of itself. -/
theorem Below.ne {part whole : CallSite} (below : Below part whole) : part ≠ whole := by
  rintro rfl
  exact Nat.lt_irrefl _ below.sizeOf_lt

/-- The mutexes that the activations of a stack hold. -/
def held (stack : List Activation) : List Mutex :=
  stack.filterMap Activation.mutex

section Stacks

variable (origin : CallSite) (scope : Nat)

/-- A stack waits for the visit of a call site in a context. At the bottom is the visit that the
call began with; every other visit is that of the next part of the activation below it. -/
inductive Awaited : List Activation → CallSite → ResolverContext → Prop where
  | origin : Awaited [] origin ⟨scope, false⟩
  | part {a : Activation} {rest : List Activation} {cs : CallSite} {todo : List CallSite}
      (outer : Awaited rest a.callSite a.ctx)
      (parts : a.visited.map (·.1) ++ a.todo = a.callSite.callSites)
      (next : a.todo = cs :: todo) : Awaited (a :: rest) cs a.inner

/-- The top activation of a stack is a visit that the others wait for. -/
def Entered : List Activation → Prop
  | [] => False
  | a :: rest => Awaited origin scope rest a.callSite a.ctx ∧
      a.visited.map (·.1) ++ a.todo = a.callSite.callSites

variable {origin scope} {stack : List Activation} {cs : CallSite} {ctx : ResolverContext}

/-- What is visited is a part of everything on the stack. -/
theorem Awaited.part_of (awaited : Awaited origin scope stack cs ctx) :
    ∀ a ∈ stack, Below cs a.callSite := by
  induction awaited with
  | origin => simp
  | @part a rest cs todo _ parts next inductionHypothesis =>
    have inside : cs ∈ a.callSite.callSites := by simp [← parts, next]
    intro other member
    rcases List.mem_cons.1 member with rfl | member
    · exact .single inside
    · exact TransGen.head inside (inductionHypothesis other member)

/-- It is the call site that the call began with, or a part of it. -/
theorem Awaited.origin_or_below (awaited : Awaited origin scope stack cs ctx) :
    cs = origin ∨ Below cs origin := by
  induction awaited with
  | origin => exact .inl rfl
  | @part a rest cs todo _ parts next inductionHypothesis =>
    have inside : cs ∈ a.callSite.callSites := by simp [← parts, next]
    rcases inductionHypothesis with same | below
    · exact .inr (.single (same ▸ inside))
    · exact .inr (TransGen.head inside below)

/-- Every activation on the stack is awaited by those below it. -/
theorem Awaited.suffix (awaited : Awaited origin scope stack cs ctx) {a : Activation}
    {rest : List Activation} (inside : a :: rest <:+ stack) : Entered origin scope (a :: rest) := by
  induction awaited with
  | origin => simp at inside
  | part outer parts next inductionHypothesis =>
    rcases List.suffix_cons_iff.1 inside with same | deeper
    · obtain ⟨rfl, rfl⟩ := List.cons.inj same
      exact ⟨outer, parts⟩
    · exact inductionHypothesis deeper

/-- The parts of an activation are visited in the root scope, or in its own scope if it is not a
singleton's. -/
theorem Activation.inner_scope (a : Activation) : a.inner.scope = 0 ∨
    (a.inner.scope = a.ctx.scope ∧ a.handling ≠ .rootCache) := by
  unfold Activation.inner
  cases isHandling : a.handling <;> simp

/-- A visit outside the root scope is in the scope of the call, and no singleton is being made
below it. -/
theorem Awaited.scope_eq (awaited : Awaited origin scope stack cs ctx) (inScope : ctx.scope ≠ 0) :
    ctx.scope = scope ∧ ∀ a ∈ stack, a.handling ≠ .rootCache := by
  induction awaited with
  | origin => simp
  | @part a _ _ _ _ _ _ inductionHypothesis =>
    rcases a.inner_scope with root | ⟨same, unrooted⟩
    · exact absurd root inScope
    · obtain ⟨isScope, others⟩ := inductionHypothesis (same ▸ inScope)
      exact ⟨same.trans isScope, List.forall_mem_cons.2 ⟨unrooted, others⟩⟩

/-- Outside the root scope, the stack holds the mutex of the scope if the context says so, and no
mutex otherwise. -/
theorem Awaited.held_eq (awaited : Awaited origin scope stack cs ctx) (inScope : ctx.scope ≠ 0) :
    held stack = if ctx.scopeLocked then [.scope scope] else [] := by
  induction awaited with
  | origin => rfl
  | @part a rest _ _ outer _ _ inductionHypothesis =>
    rcases a.inner_scope with root | ⟨same, unrooted⟩
    · exact absurd root inScope
    · have outside : a.ctx.scope ≠ 0 := same ▸ inScope
      have earlier := inductionHypothesis outside
      have isScope := (outer.scope_eq outside).1
      unfold held at earlier ⊢
      rw [List.filterMap_cons, earlier]
      unfold Activation.mutex Activation.inner
      cases isHandling : a.handling with
      | rootCache => exact absurd isHandling unrooted
      | scopeCache key => cases a.ctx.scopeLocked <;> simp [isScope]
      | disposeCache => rfl
      | noCache => rfl

end Stacks

section Fitting

variable (admits : CallSite → Nat → Bool)

/-- The request was admitted in the scope it was made in. -/
def Admitted (r : Resolution) : Prop :=
  ∃ scope, admits r.callSite scope = true ∧ r.scope = home r.callSite scope

/-- The control of a call fits its stack. -/
def Fits (r : Resolution) : Prop :=
  match r.control with
  | .checkScope scope | .checkContainer scope => r.stack = [] ∧ r.scope = home r.callSite scope
  | .refused _ => r.stack = []
  | .resolve => Admitted admits r ∧ r.stack = []
  | .visit cs ctx | .returned cs ctx _ =>
      Admitted admits r ∧ Awaited r.callSite r.scope r.stack cs ctx
  | .lockSite cs ctx =>
      Admitted admits r ∧ Awaited r.callSite r.scope r.stack cs ctx ∧ handling cs ctx = .rootCache
  | .lockScope cs ctx key _ =>
      Admitted admits r ∧ Awaited r.callSite r.scope r.stack cs ctx ∧
        handling cs ctx = .scopeCache key
  | .main | .user | .capture _ | .settle _ =>
      Admitted admits r ∧ Entered r.callSite r.scope r.stack

variable {admits} {s s' : Engine} {r r' : Resolution} {id : Nat}

/-- A step that only looks keeps the control fitting the stack. -/
theorem Fits.looks (fits : Fits admits r) {control : Control}
    (looks : Looks admits s r control) : Fits admits (r.goto control) := by
  unfold Fits at fits
  cases looks with
  | checked scope here =>
    rw [here] at fits
    exact fits
  | refused scope failure here =>
    rcases here with here | here
    all_goals
      rw [here] at fits
      exact fits.1
  | admitted scope here admitted =>
    rw [here] at fits
    exact ⟨⟨scope, admitted, fits.2⟩, fits.1⟩
  | cached v here root known =>
    rw [here] at fits
    refine ⟨fits.1, ?_⟩
    simp only [Resolution.goto, fits.2]
    exact .origin
  | starts here =>
    rw [here] at fits
    refine ⟨fits.1, ?_⟩
    simp only [Resolution.goto, fits.2]
    exact .origin
  | rootKnown cs ctx v here known =>
    rcases here with ⟨here, _⟩ | here
    · rw [here] at fits
      exact fits
    · rw [here] at fits
      exact ⟨fits.1, fits.2.1⟩
  | rootUnknown cs ctx here root =>
    rw [here] at fits
    exact ⟨fits.1, fits.2, root⟩
  | scopeVisited cs ctx key here inScope =>
    rw [here] at fits
    exact ⟨fits.1, fits.2, inScope⟩
  | scopeKnown cs ctx key v here known =>
    rw [here] at fits
    exact ⟨fits.1, fits.2.1⟩
  | part a rest cs todo here top next =>
    rw [here] at fits
    obtain ⟨admitted, entered⟩ := fits
    rw [top] at entered
    refine ⟨admitted, ?_⟩
    simp only [Resolution.goto, top]
    exact .part entered.1 entered.2 next
  | userCode a rest here top =>
    rw [here] at fits
    exact fits
  | made a rest v here top builtIn =>
    rw [here] at fits
    exact fits
  | userFailed failure here =>
    rw [here] at fits
    exact fits
  | uncaptured a rest v here top plain =>
    rw [here] at fits
    exact fits
  | partFailed a rest cs ctx result failure here top =>
    rw [here] at fits
    obtain ⟨admitted, awaited⟩ := fits
    rw [top] at awaited
    refine ⟨admitted, ?_⟩
    simp only [Resolution.goto, top]
    exact awaited.suffix List.suffix_rfl

/-- A visit that the stack waits for may become its top activation. -/
theorem Fits.enter {cs : CallSite} {ctx : ResolverContext} (admitted : Admitted admits r)
    (awaited : Awaited r.callSite r.scope r.stack cs ctx) (nilMap : Bool) :
    Fits admits (r.enter cs ctx nilMap) :=
  ⟨admitted, awaited, by simp⟩

/-- A step keeps the control fitting the stack. -/
theorem Fits.step (fits : Fits admits r) (step : GetStep admits s r id s' r') : Fits admits r' := by
  cases step with
  | looks control looks => exact fits.looks looks
  | enters cs ctx here plain =>
    unfold Fits at fits
    rw [here] at fits
    exact .enter fits.1 fits.2 false
  | entersRoot cs ctx here free unknown =>
    unfold Fits at fits
    rw [here] at fits
    exact .enter fits.1 fits.2.1 false
  | entersScope cs ctx key nilMap here unknown free =>
    unfold Fits at fits
    rw [here] at fits
    exact .enter fits.1 fits.2.1 nilMap
  | creates a rest v here top =>
    unfold Fits at fits
    rw [here] at fits
    exact fits
  | refuses a rest v d here top captured isDisposable free closed =>
    unfold Fits at fits
    rw [here] at fits
    exact fits
  | accepts a rest v d here top captured isDisposable free unclosed =>
    unfold Fits at fits
    rw [here] at fits
    exact fits
  | settles a rest result here top =>
    unfold Fits at fits
    rw [here, top] at fits
    exact ⟨fits.1, fits.2.1⟩
  | receives a rest cs ctx v here top =>
    unfold Fits at fits
    rw [here, top] at fits
    obtain ⟨admitted, awaited⟩ := fits
    cases awaited with
    | part outer parts next =>
      refine ⟨admitted, outer, ?_⟩
      simp [← parts, next]

/-- The stack of a call that is at some visit. -/
theorem Fits.entered (fits : Fits admits r) {a : Activation} {rest : List Activation}
    (top : r.stack = a :: rest) :
    Admitted admits r ∧ Entered r.callSite r.scope (a :: rest) := by
  have awaited {cs : CallSite} {ctx : ResolverContext}
      (waits : Awaited r.callSite r.scope r.stack cs ctx) :
      Entered r.callSite r.scope (a :: rest) :=
    waits.suffix (top ▸ List.suffix_rfl)
  unfold Fits at fits
  cases isControl : r.control <;> rw [isControl] at fits
  case checkScope => simp [top] at fits
  case checkContainer => simp [top] at fits
  case refused => simp [top] at fits
  case resolve => simp [top] at fits
  case visit => exact ⟨fits.1, awaited fits.2⟩
  case returned => exact ⟨fits.1, awaited fits.2⟩
  case lockSite => exact ⟨fits.1, awaited fits.2.1⟩
  case lockScope => exact ⟨fits.1, awaited fits.2.1⟩
  all_goals exact ⟨fits.1, top ▸ fits.2⟩

end Fitting

end FluffyCore.Di
