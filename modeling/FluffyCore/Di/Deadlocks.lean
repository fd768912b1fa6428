import FluffyCore.Di.ResolverStacks
import Mathlib.Order.WithBot

/-!
# When resolutions block each other

Calls take mutexes in an order: first that of a scope, then those of call sites, a part after the
call site it is a part of. So the resolver alone never makes calls wait for each other in a circle.
User code can: a constructor, a factory or a `Dispose` method that makes a call on the container
goes on when that call has returned, and the mutexes of its own call are held until then.

A call can also wait for itself: the mutex of a scope is not reentrant, and a transient service
that has to be disposed is handed to its scope under that mutex even if it is made for a scoped
service, while the visit of that service holds the mutex.

The call sites are given here. The mutexes under which the factory makes them are given back
before a service is resolved.
-/

namespace FluffyCore.Di

open Library Library.Interleaving Relation

section Owners

variable {admits : CallSite → Nat → Bool} {s s' : Engine} {r r' : Resolution} {id : Nat}

def Call.held : Call → List Mutex
  | .get r => Di.held r.stack
  | .dispose _ => []

def Call.Fits (admits : CallSite → Nat → Bool) : Call → Prop
  | .get r => Di.Fits admits r
  | .dispose _ => True

/-- Keeping a value takes and releases no mutex. -/
theorem lockers_store (s : Engine) (a : Activation) (result : Resolved) :
    (store s a result).1.lockers = s.lockers := by
  unfold store
  split
  · rfl
  · split
    · split <;> rfl
    · split <;> rfl
    · rfl
    · rfl

/-- A stack holds the mutex of its top activation and those of the rest. -/
theorem held_cons (a : Activation) (rest : List Activation) :
    held (a :: rest) = a.mutex.toList ++ held rest := by
  unfold held
  cases mutex : a.mutex <;> simp [mutex]

/-- A step takes at most one mutex, which is free, or gives back the one taken last. -/
theorem GetStep.mutexes (fits : Fits admits r) (step : GetStep admits s r id s' r') :
    Mutexes.Step id s.lockers (held r.stack) s'.lockers (held r'.stack) := by
  cases step with
  | looks control looks => exact .keep
  | enters cs ctx here plain =>
    have unheld : (⟨cs, ctx, false, [], cs.callSites⟩ : Activation).mutex = none := by
      rcases plain with plain | plain <;> simp [Activation.mutex, Activation.handling, plain]
    rw [Resolution.enter, held_cons, unheld]
    exact .keep
  | entersRoot cs ctx here free unknown =>
    unfold Fits at fits
    rw [here] at fits
    have takes : (⟨cs, ctx, false, [], cs.callSites⟩ : Activation).mutex =
        some (.callSite cs) := by
      simp [Activation.mutex, Activation.handling, fits.2.2]
    rw [Resolution.enter, held_cons, takes]
    exact .acquire _ free
  | entersScope cs ctx key nilMap here unknown free =>
    unfold Fits at fits
    rw [here] at fits
    rw [Resolution.enter, held_cons, Activation.mutex, Activation.handling, fits.2.2]
    cases locked : ctx.scopeLocked with
    | true => exact .keep
    | false => exact .acquire _ (free locked)
  | creates a rest v here top => exact .keep
  | refuses a rest v d here top captured isDisposable free closed => exact .keep
  | accepts a rest v d here top captured isDisposable free unclosed => exact .keep
  | settles a rest result here top =>
    rw [top, held_cons, Resolution.leave]
    cases mutex : a.mutex with
    | none =>
      rw [Engine.unlock, lockers_store]
      exact .keep
    | some m =>
      simp only [Engine.unlock, lockers_store]
      exact .release m _ rfl
  | receives a rest cs ctx v here top =>
    rw [top, Resolution.receive, held_cons, held_cons]
    exact .keep

/-- The mutex of the root scope is never held from one step to the next. -/
theorem GetStep.rootMutex (fits : Fits admits r) (step : GetStep admits s r id s' r')
    (free : s.lockers (.scope 0) = none) : s'.lockers (.scope 0) = none := by
  cases step with
  | looks | enters | creates | refuses | accepts | receives => exact free
  | entersRoot cs ctx here unlocked unknown => simpa [Engine.lock] using free
  | entersScope cs ctx key nilMap here unknown unlocked =>
    unfold Fits at fits
    rw [here] at fits
    have inScope : ctx.scope ≠ 0 := by
      intro root
      have scoping := fits.2.2
      unfold handling at scoping
      cases isCache : cs.cache <;> simp [isCache, root] at scoping
    split
    · exact free
    · simp only [Engine.lock]
      rw [Function.update_of_ne (by simpa using Ne.symm inScope), free]
  | settles a rest result here top =>
    cases mutex : a.mutex with
    | none => simpa [Engine.unlock, lockers_store] using free
    | some m =>
      simp only [Engine.unlock, lockers_store]
      by_cases same : Mutex.scope 0 = m
      · simp [same]
      · rw [Function.update_of_ne same, free]

/-- A step of `Dispose` leaves the owners of all mutexes as they are. -/
theorem DisposeStep.lockers {d d' : Disposal} (step : DisposeStep s id d s' d') :
    s'.lockers = s.lockers := by
  cases step <;> rfl

/-- What holds of the mutexes in every schedule. -/
structure MutexTable (count : Nat) (s : Engine) : Prop where
  owners : ∀ m owner, s.lockers m = some owner → owner < count
  root : s.lockers (.scope 0) = none

/-- What holds of a call in every schedule: its control fits its stack, and it owns the mutexes
that the activations on the stack hold. -/
structure Holding (admits : CallSite → Nat → Bool) (id : Nat) (s : Engine) (call : Call) :
    Prop where
  fits : call.Fits admits
  owns : Mutexes.Owns s.lockers id call.held

/-- Every step of a call takes one free mutex, releases one of its own, or leaves the mutexes
alone. -/
theorem Call.mutexes {choice : Choice} {call call' : Call} (fits : call.Fits admits)
    (moved : call.move admits choice id s = some (s', call')) :
    Mutexes.Step id s.lockers call.held s'.lockers call'.held := by
  rcases Call.move_step moved with ⟨r, r', rfl, rfl, step⟩ | ⟨d, d', rfl, rfl, step⟩
  · exact step.mutexes fits
  · simp only [Call.held, step.lockers]
    exact .keep

/-- Every step of a call keeps its control fitting its stack. -/
theorem Call.fits_move {choice : Choice} {call call' : Call} (fits : call.Fits admits)
    (moved : call.move admits choice id s = some (s', call')) : call'.Fits admits := by
  rcases Call.move_step moved with ⟨r, r', rfl, rfl, step⟩ | ⟨d, d', rfl, rfl, step⟩
  · exact Di.Fits.step fits step
  · trivial

/-- The mutex of the root scope stays free, whoever takes a step. -/
theorem Call.rootMutex {choice : Choice} {call call' : Call} (fits : call.Fits admits)
    (moved : call.move admits choice id s = some (s', call'))
    (free : s.lockers (.scope 0) = none) : s'.lockers (.scope 0) = none := by
  rcases Call.move_step moved with ⟨r, r', rfl, rfl, step⟩ | ⟨d, d', rfl, rfl, step⟩
  · exact step.rootMutex fits free
  · rw [step.lockers, free]

/-- A call begins with a control that fits its empty stack. -/
theorem Operation.begin_fits (operation : Operation) : operation.begin.Fits admits := by
  cases operation with
  | scopeGet cs scope => exact ⟨rfl, rfl⟩
  | containerGet cs => exact ⟨rfl, by simp [home]⟩
  | scopeDispose scope => trivial
  | containerDispose => trivial

/-- A call begins without mutexes. -/
theorem Operation.begin_held (operation : Operation) : operation.begin.held = [] := by
  cases operation <;> rfl

/-- The table of owners and the stacks of the calls agree in every schedule. -/
theorem mutex_invariant (admits : CallSite → Nat → Bool) :
    (containerSystem admits).Invariant MutexTable (Holding admits) where
  initially := ⟨fun m owner owned => by simp [containerSystem] at owned, rfl⟩
  begins operation count s table := by
    refine ⟨⟨fun m owner owned => Nat.lt_succ_of_lt (table.owners m owner owned), table.root⟩,
      operation.begin_fits, ?_⟩
    refine ⟨fun m => ?_, ?_⟩
    · rw [show ((containerSystem admits).begin operation).held = [] from operation.begin_held]
      refine iff_of_false (fun owned => ?_) List.not_mem_nil
      exact Nat.lt_irrefl _ (table.owners m count owned)
    · rw [show ((containerSystem admits).begin operation).held = [] from operation.begin_held]
      exact List.nodup_nil
  moves choice count id s call s' call' made table holding moved := by
    have step := Call.mutexes holding.fits moved
    exact ⟨⟨step.owner made table.owners, Call.rootMutex holding.fits moved table.root⟩,
      Call.fits_move holding.fits moved, holding.owns.step step⟩
  interferes choice count id s call s' call' other bystander different table holding theirs moved :=
    ⟨theirs.fits, holding.owns.bystander theirs.owns different (Call.mutexes holding.fits moved)⟩
  events event := event.elim

end Owners

section Waiting

/-- A call that has returned. -/
def Call.Finished : Call → Prop
  | .get r => r.stack = [] ∧
      ((∃ cs ctx result, r.control = .returned cs ctx result) ∨
        ∃ failure, r.control = .refused failure)
  | .dispose d => d = .finished

/-- The mutex that the next step of a call takes. -/
def Call.waitsFor : Call → Option Mutex
  | .get r =>
      match r.control, r.stack with
      | .lockSite cs _, _ => some (.callSite cs)
      | .lockScope _ ctx _ _, _ => if ctx.scopeLocked then none else some (.scope ctx.scope)
      | .capture v, a :: _ => (disposable v).bind fun _ => a.captureMutex
      | _, _ => none
  | .dispose (.take scope) => some (.scope scope)
  | .dispose _ => none

/-- A call waits for itself: it has made a transient service that has to be disposed, for a
scoped service whose visit holds the mutex of the scope. -/
def SelfBlocked (r : Resolution) : Prop :=
  ∃ a rest v, r.stack = a :: rest ∧ r.control = .capture v ∧ (disposable v).isSome ∧
    a.handling = .disposeCache ∧ a.ctx.scope ≠ 0 ∧ a.ctx.scopeLocked = true

variable {admits : CallSite → Nat → Bool} {s s' : Engine} {r : Resolution} {id : Nat}

/-- The next step is possible as soon as the mutex that it takes is free. -/
theorem Resolution.exists_move (id : Nat) (fits : Fits admits r)
    (unfinished : ¬ (Call.get r).Finished)
    (free : ∀ m, (Call.get r).waitsFor = some m → s.lockers m = none) :
    ∃ choice, (r.move admits choice id s).isSome := by
  have placed := fits
  unfold Fits at placed
  unfold Call.waitsFor at free
  cases isControl : r.control <;> simp only [isControl] at placed free
  case checkScope => exact ⟨.proceed, by simp [Resolution.move, isControl]⟩
  case checkContainer => exact ⟨.proceed, by simp [Resolution.move, isControl]⟩
  case resolve =>
    refine ⟨.proceed, ?_⟩
    simp only [Resolution.move, isControl]
    split <;> rfl
  case visit => exact ⟨.proceed, by simp [Resolution.move, isControl]⟩
  case lockSite cs ctx =>
    refine ⟨.proceed, ?_⟩
    simp only [Resolution.move, isControl, visitRootCache, free _ rfl]
    split <;> rfl
  case lockScope cs ctx key nilMap =>
    have unblocked : (!ctx.scopeLocked && (s.lockers (.scope ctx.scope)).isSome) = false := by
      cases locked : ctx.scopeLocked with
      | true => rfl
      | false => simp [free (.scope ctx.scope) (by simp [locked])]
    refine ⟨.proceed, ?_⟩
    simp only [Resolution.move, isControl, visitScopeCache, unblocked, Bool.false_eq_true, if_false]
    split <;> rfl
  case refused failure => exact absurd ⟨placed, .inr ⟨failure, isControl⟩⟩ unfinished
  case returned cs ctx result =>
    cases top : r.stack with
    | nil => exact absurd ⟨top, .inl ⟨cs, ctx, result, isControl⟩⟩ unfinished
    | cons a rest => exact ⟨.proceed, by simp [Resolution.move, isControl, top]⟩
  all_goals
    cases top : r.stack with
    | nil => simp [top, Entered] at placed
    | cons a rest => ?_
  case main => exact ⟨.proceed, by simp [Resolution.move, isControl, top]⟩
  case user => exact ⟨.finish (.ok none), by simp [Resolution.move, isControl, top]⟩
  case settle => exact ⟨.proceed, by simp [Resolution.move, isControl, top]⟩
  case capture v =>
    refine ⟨.proceed, ?_⟩
    simp only [Resolution.move, isControl, top, capture]
    split
    · rfl
    · rfl
    case h_3 d isDisposable captured =>
      have unblocked : (a.captureMutex.any fun m => (s.lockers m).isSome) = false := by
        cases takes : a.captureMutex with
        | none => rfl
        | some m => simp [free m (by simp [top, isDisposable, takes])]
      simp only [captureDisposable, unblocked, Bool.false_eq_true, if_false]
      split <;> rfl

/-- A call that has not returned can take a step when the mutex that step takes is free. -/
theorem Call.exists_move (id : Nat) {call : Call} (fits : call.Fits admits)
    (unfinished : ¬ call.Finished)
    (free : ∀ m, call.waitsFor = some m → s.lockers m = none) :
    ∃ choice, (call.move admits choice id s).isSome := by
  cases call with
  | get r =>
    obtain ⟨choice, possible⟩ := Resolution.exists_move id fits unfinished free
    exact ⟨choice, by simpa [Call.move] using possible⟩
  | dispose d =>
    refine ⟨.proceed, ?_⟩
    cases d with
    | finished => exact absurd rfl unfinished
    | container | mark => rfl
    | swap scope =>
      simp only [Call.move, Disposal.move, Option.isSome_map]
      split <;> rfl
    | take scope => simp [Call.move, Disposal.move, free (.scope scope) rfl]
    | close scope pending => cases pending <;> rfl

/-- Mutexes of scopes come first, then those of call sites, large ones before small ones. -/
noncomputable def Mutex.rank : Mutex → WithTop Nat
  | .callSite cs => WithTop.some (sizeOf cs)
  | .scope _ => ⊤

/-- A call that waits for a mutex that is taken waits for itself, or for a mutex that comes after
all those it holds. -/
theorem Resolution.rank_lt (fits : Fits admits r) (root : s.lockers (.scope 0) = none) {m : Mutex}
    (waits : (Call.get r).waitsFor = some m) (taken : s.lockers m ≠ none) :
    SelfBlocked r ∨ ∀ other ∈ held r.stack, m.rank < other.rank := by
  have placed := fits
  unfold Fits at placed
  unfold Call.waitsFor at waits
  cases isControl : r.control <;> simp only [isControl, reduceCtorEq] at placed waits
  case lockSite cs ctx =>
    obtain rfl := Option.some.inj waits
    refine .inr fun other holds => ?_
    obtain ⟨a, inside, takes⟩ := List.mem_filterMap.1 holds
    unfold Activation.mutex at takes
    split at takes
    · obtain rfl := Option.some.inj takes
      exact WithTop.coe_lt_coe.2 (placed.2.1.part_of a inside).sizeOf_lt
    · split at takes
      · cases takes
      · obtain rfl := Option.some.inj takes
        exact WithTop.coe_lt_top _
    · cases takes
    · cases takes
  case lockScope cs ctx key nilMap =>
    cases locked : ctx.scopeLocked with
    | true => simp [locked] at waits
    | false =>
      obtain rfl : Mutex.scope ctx.scope = m := by simpa [locked] using waits
      have inScope : ctx.scope ≠ 0 := fun isRoot => taken (isRoot ▸ root)
      refine .inr ?_
      simp [placed.2.1.held_eq inScope, locked]
  case capture v =>
    cases top : r.stack with
    | nil => simp [top] at waits
    | cons a rest =>
      rw [top] at waits placed
      obtain ⟨d, isDisposable, takes⟩ := Option.bind_eq_some_iff.1 waits
      unfold Activation.captureMutex at takes
      cases isHandling : a.handling <;>
        simp only [isHandling, reduceCtorEq, Option.some.injEq] at takes
      case rootCache =>
        subst takes
        simp [Activation.inner, isHandling, root] at taken
      case disposeCache =>
        have inner : a.inner = a.ctx := by simp [Activation.inner, isHandling]
        rw [inner] at takes
        subst takes
        have inScope : a.ctx.scope ≠ 0 := fun isRoot => taken (isRoot ▸ root)
        cases locked : a.ctx.scopeLocked with
        | true =>
          exact .inl ⟨a, rest, v, top, isControl, by simp [isDisposable], isHandling, inScope,
            locked⟩
        | false =>
          refine .inr ?_
          have unheld : a.mutex = none := by simp [Activation.mutex, isHandling]
          simp [held_cons, unheld, placed.2.1.held_eq inScope, locked]

/-- A call that holds a mutex has not returned. -/
theorem Call.unfinished_of_held {call : Call} (holds : call.held ≠ []) : ¬ call.Finished := by
  cases call with
  | get r =>
    rintro ⟨empty, _⟩
    exact holds (by simp [Call.held, empty, Di.held])
  | dispose d => exact absurd rfl holds

end Waiting

section Progress

/-- A call that has been made and has not returned. -/
def Unfinished (config : Config Engine Call) (id : Nat) : Prop :=
  ∃ call, config.calls[id]? = some call ∧ ¬ call.Finished

/-- What a call waits for: the call that owns the mutex which its next step takes, or the call
that its user code has made. User code is a constructor, a factory or a `Dispose` method; `inner`
says which call on the container it is waiting for, if it is. -/
def Waits (config : Config Engine Call) (inner : Nat → Option Nat) : Nat → Nat → Prop :=
  Mutexes.WaitsFor config.shared.lockers (fun id => (config.calls[id]?).bind Call.waitsFor) inner
    (Unfinished config)

/-- Resolutions block each other through user code only: in every schedule, as long as a call has
not returned, some call that does not wait for a call of its own user code can take a step, unless
there is a call that waits for itself, or there is a circle of calls that wait for each other in
which user code waits for a call that it has made. -/
theorem exists_move_or_circle (admits : CallSite → Nat → Bool) (inner : Nat → Option Nat)
    (schedule : List (Action Operation Choice Empty))
    (config : Config Engine Call) (ran : (containerSystem admits).run schedule = some config)
    (id : Nat) (unfinished : Unfinished config id) :
    (∃ other choice, (∀ child, inner other = some child → ¬ Unfinished config child) ∧
      ((containerSystem admits).step config (.move other choice)).isSome) ∨
    (∃ (other : Nat) (r : Resolution), config.calls[other]? = some (.get r) ∧ SelfBlocked r) ∨
    ∃ parent child, inner parent = some child ∧ Unfinished config child ∧
      ReflTransGen (Waits config inner) child parent := by
  obtain ⟨table, holding⟩ := (mutex_invariant admits).run schedule config ran
  let holds (i : Nat) : List Mutex := (config.calls[i]?).elim [] Call.held
  have owned (m : Mutex) (owner : Nat) (isOwner : config.shared.lockers m = some owner) :
      m ∈ holds owner := by
    obtain ⟨c, found⟩ : ∃ c, config.calls[owner]? = some c :=
      ⟨_, List.getElem?_eq_getElem (table.owners m owner isOwner)⟩
    simp only [holds, found, Option.elim_some]
    exact ((holding owner c found).owns.iff m).1 isOwner
  have holders (i : Nat) (isHolder : holds i ≠ []) : Unfinished config i := by
    cases found : config.calls[i]? with
    | none => simp [holds, found] at isHolder
    | some c =>
      exact ⟨c, found, Call.unfinished_of_held (by simpa [holds, found] using isHolder)⟩
  by_cases blocked : ∃ (other : Nat) (r : Resolution),
      config.calls[other]? = some (.get r) ∧ SelfBlocked r
  · exact .inr (.inl blocked)
  have ordered (i : Nat) (m : Mutex) (waiting : (config.calls[i]?).bind Call.waitsFor = some m)
      (taken : config.shared.lockers m ≠ none) :
      ∀ other ∈ holds i, m.rank < other.rank := by
    intro other isHeld
    obtain ⟨c, found, waiting⟩ := Option.bind_eq_some_iff.1 waiting
    simp only [holds, found, Option.elim_some] at isHeld
    cases c with
    | dispose d => simp [Call.held] at isHeld
    | get r =>
      rcases Resolution.rank_lt (holding i _ found).fits table.root waiting taken with
        self | below
      · exact absurd ⟨i, r, found, self⟩ blocked
      · exact below other isHeld
  have bounded (i : Nat) (undone : Unfinished config i) : i < config.calls.length := by
    obtain ⟨c, found, _⟩ := undone
    exact (List.getElem?_eq_some_iff.1 found).1
  rcases Mutexes.exists_unblocked_or_circle (InvImage.wf Mutex.rank wellFounded_lt) owned ordered
    bounded holders id unfinished with ⟨other, ⟨c, found, undone⟩, alone, free⟩ | circle
  · obtain ⟨choice, possible⟩ := Call.exists_move other (holding other c found).fits undone
      fun m waiting => free m (by simp [found, waiting])
    refine .inl ⟨other, choice, alone, ?_⟩
    simpa [System.step, found, containerSystem] using possible
  · exact .inr (.inr circle)

/-- The call site of a singleton without parameters. -/
def clockCallSite : CallSite :=
  .node 3 (.factory (.root ⟨.named "Clock", 0⟩) (.named "Clock") 0) []

/-- Scoped services that are made by factories. -/
def cartCallSite : CallSite :=
  .node 4 (.factory (.scope ⟨.named "Cart", 0⟩) (.named "Cart") 1) []

def userCallSite : CallSite :=
  .node 5 (.factory (.scope ⟨.named "User", 0⟩) (.named "User") 2) []

/-- The factory of the cart asks its own scope for the user, and waits. Another call asks for the
clock meanwhile. -/
def cartSchedule : List (Action Operation Choice Empty) :=
  [.call (.scopeGet cartCallSite 1), .call (.scopeGet userCallSite 1),
      .call (.containerGet clockCallSite)] ++
    List.replicate 6 (.move 0 .proceed) ++ List.replicate 4 (.move 1 .proceed)

/-- While the factory of the cart waits for the user, and the user's call for the mutex of the
scope, the call for the clock is one that can go on. -/
theorem cart_exists_move_or_circle :
    ∃ config, (containerSystem fun _ _ => true).run cartSchedule = some config ∧
      Unfinished config 1 ∧ Waits config (fun id => if id = 0 then some 1 else none) 1 0 ∧
      ((∃ other choice, (∀ child, (if other = 0 then some 1 else none) = some child →
          ¬ Unfinished config child) ∧
          ((containerSystem fun _ _ => true).step config (.move other choice)).isSome) ∨
        (∃ (other : Nat) (r : Resolution), config.calls[other]? = some (.get r) ∧
          SelfBlocked r) ∨
        ∃ parent child, (if parent = 0 then some 1 else none) = some child ∧
          Unfinished config child ∧
          ReflTransGen (Waits config fun id => if id = 0 then some 1 else none) child parent) := by
  refine ⟨_, rfl, ?unfinished, .mutex (.scope 1) rfl rfl,
    exists_move_or_circle _ (fun id => if id = 0 then some 1 else none) cartSchedule _ rfl 1
      ?unfinished⟩
  refine ⟨_, rfl, ?_⟩
  rintro ⟨_, ⟨_, _, _, returned⟩ | ⟨_, refused⟩⟩
  · cases returned
  · cases refused

end Progress

section SelfBlocking

variable {admits : CallSite → Nat → Bool} {s s' : Engine} {r r' : Resolution} {id : Nat}

/-- A call that waits for itself has no next step. -/
theorem SelfBlocked.no_step (blocked : SelfBlocked r) (fits : Fits admits r)
    (owns : Mutexes.Owns s.lockers id (held r.stack)) : ¬ GetStep admits s r id s' r' := by
  obtain ⟨a, rest, v, top, here, isDisposable, isHandling, inScope, locked⟩ := blocked
  have captures : a.captureMutex = some (.scope a.ctx.scope) := by
    simp [Activation.captureMutex, Activation.inner, isHandling]
  have taken : s.lockers (.scope a.ctx.scope) = some id := by
    have outer := (fits.entered top).2.1
    rw [owns.iff, top, held_cons, List.mem_append, outer.held_eq inScope, locked]
    simp [(outer.scope_eq inScope).1]
  -- whatever the call does next, it first has to take the mutex of its own scope
  have stuck {other : Activation} {others : List Activation} (isTop : r.stack = other :: others)
      (free : ∀ m, other.captureMutex = some m → s.lockers m = none) : False := by
    obtain ⟨rfl, rfl⟩ := List.cons.inj (top.symm.trans isTop)
    rw [free _ captures] at taken
    cases taken
  intro step
  cases step with
  | refuses other others _ _ _ isTop _ _ free _ => exact stuck isTop free
  | accepts other others _ _ _ isTop _ _ free _ => exact stuck isTop free
  | looks control looks =>
    cases looks with
    | uncaptured other others w isHere isTop plain =>
      obtain ⟨rfl, rfl⟩ := List.cons.inj (top.symm.trans isTop)
      obtain rfl : v = w := by simpa [here] using isHere
      rcases plain with plain | plain
      · simp [isHandling] at plain
      · simp [plain] at isDisposable
    | _ => simp_all
  | _ => simp_all

/-- A call has made a transient service that has to be disposed while it held the mutex of the
scope. -/
def MadeUnderMutex (id : Nat) (log : List Event) : Prop :=
  ∃ cs ctx parameters d, .created id cs ctx parameters (some d) ∈ log ∧ d.disposable = true ∧
    handling cs ctx = .disposeCache ∧ ctx.scope ≠ 0 ∧ ctx.scopeLocked = true

/-- An event that makes no service under a mutex for a call has no part in whether it made one. -/
theorem MadeUnderMutex.append {log : List Event} {event : Event} {other : Nat}
    (made : MadeUnderMutex other (log ++ [event]))
    (different : ∀ cs ctx parameters d, event ≠ .created other cs ctx parameters (some d)) :
    MadeUnderMutex other log := by
  obtain ⟨cs, ctx, parameters, d, member, rest⟩ := made
  refine ⟨cs, ctx, parameters, d, ?_, rest⟩
  rcases List.mem_append.1 member with earlier | last
  · exact earlier
  · exact absurd (List.mem_singleton.1 last).symm (different cs ctx parameters d)

/-- The context in which a transient service is made is that of its visit. -/
theorem Activation.inner_of_dispose {a : Activation}
    (transient : Di.handling a.callSite a.inner = .disposeCache) :
    a.handling = .disposeCache ∧ a.inner = a.ctx := by
  have isHandling : a.handling = .disposeCache := by
    unfold Activation.handling Di.handling at *
    cases isCache : a.callSite.cache <;> simp only [isCache] at transient ⊢
    all_goals
      first
        | cases transient
        | (split at transient <;> cases transient)
  exact ⟨isHandling, by simp [Activation.inner, isHandling]⟩

/-- A call that makes such a service waits for itself from then on. -/
theorem GetStep.selfBlocked (step : GetStep admits s r id s' r') {other : Nat}
    (made : MadeUnderMutex other s'.log) :
    MadeUnderMutex other s.log ∨ other = id ∧ SelfBlocked r' := by
  cases step with
  | looks | enters | receives => exact .inl made
  | entersRoot => exact .inl made
  | entersScope cs ctx key nilMap here unknown free =>
    split at made <;> exact .inl made
  | settles a rest result here top => exact .inl (by simpa using made)
  | refuses => exact .inl (made.append (by simp))
  | accepts => exact .inl (made.append (by simp))
  | creates a rest v here top =>
    by_cases earlier : MadeUnderMutex other s.log
    · exact .inl earlier
    · obtain ⟨cs, ctx, parameters, d, member, isDisposable, transient, inScope, locked⟩ := made
      rcases List.mem_append.1 member with before | last
      · exact absurd ⟨cs, ctx, parameters, d, before, isDisposable, transient, inScope, locked⟩
          earlier
      · simp only [List.mem_singleton, Event.created.injEq] at last
        obtain ⟨rfl, rfl, rfl, rfl, rfl⟩ := last
        obtain ⟨isHandling, inner⟩ := Activation.inner_of_dispose transient
        rw [inner] at inScope locked
        exact .inr ⟨rfl, a, rest, _, top, rfl, by simp [disposable, isDisposable], isHandling,
          inScope, locked⟩

/-- A step of `Dispose` makes nothing. -/
theorem DisposeStep.madeUnderMutex {d d' : Disposal} (step : DisposeStep s id d s' d') {other : Nat}
    (made : MadeUnderMutex other s'.log) : MadeUnderMutex other s.log := by
  cases step with
  | container | late | marks | takes | ends => exact made
  | swaps => exact made.append (by simp)
  | closes => exact made.append (by simp)

/-- A call that has made such a service waits for itself from then on, in every schedule. -/
theorem self_blocking (admits : CallSite → Nat → Bool) :
    (containerSystem admits).InvariantGiven MutexTable (Holding admits)
      (fun count s => ∀ id, MadeUnderMutex id s.log → id < count)
      (fun id s call => MadeUnderMutex id s.log → ∃ r, call = .get r ∧ SelfBlocked r) where
  initially id made := by
    obtain ⟨_, _, _, _, member, _⟩ := made
    cases member
  begins operation count s table makers :=
    ⟨fun id made => Nat.lt_succ_of_lt (makers id made),
      fun made => absurd (makers count made) (Nat.lt_irrefl _)⟩
  moves choice count id s call s' call' isCall table holding makers mine moved := by
    rcases Call.move_step moved with ⟨r, r', rfl, rfl, step⟩ | ⟨d, d', rfl, rfl, step⟩
    · constructor
      · intro other made
        rcases step.selfBlocked made with earlier | ⟨rfl, _⟩
        · exact makers other earlier
        · exact isCall
      · intro made
        rcases step.selfBlocked made with earlier | ⟨_, blocked⟩
        · obtain ⟨_, same, blocked⟩ := mine earlier
          obtain rfl := Call.get.inj same
          exact absurd step (blocked.no_step holding.fits holding.owns)
        · exact ⟨r', rfl, blocked⟩
    · exact ⟨fun other made => makers other (step.madeUnderMutex made), fun made => by
        obtain ⟨_, same, _⟩ := mine (step.madeUnderMutex made)
        cases same⟩
  interferes choice count id s call s' call' other bystander different table holding theirs makers
      mine kept moved made := by
    rcases Call.move_step moved with ⟨r, r', rfl, rfl, step⟩ | ⟨d, d', rfl, rfl, step⟩
    · rcases step.selfBlocked made with earlier | ⟨same, _⟩
      · exact kept earlier
      · exact absurd same different
    · exact kept (step.madeUnderMutex made)
  events event := event.elim

/-- A call that makes a transient service that has to be disposed, for a scoped service of a scope
other than the root, never returns and never takes another step, in whatever way the schedule
goes on. -/
theorem never_returns (admits : CallSite → Nat → Bool)
    (schedule : List (Action Operation Choice Empty))
    (config : Config Engine Call) (ran : (containerSystem admits).run schedule = some config)
    (id : Nat) (call : Call) (isCall : config.calls[id]? = some call)
    (made : MadeUnderMutex id config.shared.log) :
    ¬ call.Finished ∧ ∀ choice, (containerSystem admits).step config (.move id choice) = none := by
  obtain ⟨_, own⟩ := ((mutex_invariant admits).and (self_blocking admits)).run schedule config ran
  obtain ⟨holding, waits⟩ := own id call isCall
  obtain ⟨r, rfl, blocked⟩ := waits made
  constructor
  · rintro ⟨empty, _⟩
    obtain ⟨a, rest, _, top, _⟩ := blocked
    rw [empty] at top
    cases top
  · intro choice
    rw [Option.eq_none_iff_forall_ne_some]
    intro after taken
    obtain ⟨state, found, moved⟩ := Option.bind_eq_some_iff.1 taken
    obtain rfl := Option.some.inj (isCall.symm.trans found)
    obtain ⟨⟨s', call'⟩, isMove, _⟩ := Option.map_eq_some_iff.1 moved
    have isMove : (Call.get r).move admits choice id config.shared = some (s', call') := isMove
    rcases Call.move_step isMove with ⟨_, r', same, _, step⟩ | ⟨_, _, same, _⟩
    · obtain rfl := Call.get.inj same
      exact blocked.no_step holding.fits holding.owns step
    · cases same

/-- A scoped handler that needs a transient connection. -/
def handlerCallSite : CallSite :=
  .node 4 (.constructor (.scope ⟨.named "Handler", 0⟩) (.named "Handler")
      ⟨1, [.named "Connection"]⟩)
    [.node 3 (.factory (.dispose ⟨.named "Connection", 0⟩) (.named "Connection") 0) []]

/-- The handler is requested in a scope, and its connection is one to dispose. -/
def handlerSchedule : List (Action Operation Choice Empty) :=
  .call (.scopeGet handlerCallSite 1) ::
    (List.replicate 8 (.move 0 .proceed) ++ [.move 0 (.finish (.ok (some ⟨7, true⟩)))])

/-- The request for the handler is such a call. -/
theorem handler_never_returns :
    ∃ config call, (containerSystem fun _ _ => true).run handlerSchedule = some config ∧
      config.calls[0]? = some call ∧ MadeUnderMutex 0 config.shared.log ∧ ¬ call.Finished := by
  refine ⟨_, _, rfl, rfl, ?made,
    (never_returns (fun _ _ => true) handlerSchedule _ rfl 0 _ rfl ?made).1⟩
  exact ⟨_, _, _, ⟨7, true⟩, List.mem_singleton_self _, rfl, rfl, by decide, rfl⟩

end SelfBlocking

end FluffyCore.Di
