import FluffyCore.Di.Resolver
import FluffyCore.Library.Mutexes
import Mathlib.Logic.Relation

/-!
# What a step of the resolver can do

All that a step of a call of `Get` can do, said once: it looks at the shared state and decides
how to go on, or it begins to make a service, records one, hands it to a scope, keeps it, or
passes it to the visit that waits for it.
-/

namespace FluffyCore.Di

open Library Library.Interleaving

section Steps

variable (admits : CallSite → Nat → Bool) (s : Engine) (r : Resolution)

/-- The steps that change only the control of the call, with what they have seen. -/
inductive Looks : Control → Prop where
  | checked (scope : Nat) (here : r.control = .checkScope scope) : Looks (.checkContainer scope)
  | refused (scope : Nat) (failure : Failure)
      (here : r.control = .checkScope scope ∨ r.control = .checkContainer scope) :
      Looks (.refused failure)
  | admitted (scope : Nat) (here : r.control = .checkContainer scope)
      (admitted : admits r.callSite scope = true) : Looks .resolve
  | cached (v : Value) (here : r.control = .resolve) (root : r.scope = 0)
      (known : s.values r.callSite = some v) :
      Looks (.returned r.callSite ⟨r.scope, false⟩ (.ok (some v)))
  | starts (here : r.control = .resolve) : Looks (.visit r.callSite ⟨r.scope, false⟩)
  | rootKnown (cs : CallSite) (ctx : ResolverContext) (v : Value)
      (here : (r.control = .visit cs ctx ∧ handling cs ctx = .rootCache) ∨
        r.control = .lockSite cs ctx)
      (known : s.values cs = some v) : Looks (.returned cs ctx (.ok (some v)))
  | rootUnknown (cs : CallSite) (ctx : ResolverContext) (here : r.control = .visit cs ctx)
      (root : handling cs ctx = .rootCache) : Looks (.lockSite cs ctx)
  | scopeVisited (cs : CallSite) (ctx : ResolverContext) (key : ServiceCacheKey)
      (here : r.control = .visit cs ctx) (inScope : handling cs ctx = .scopeCache key) :
      Looks (.lockScope cs ctx key (s.scopes ctx.scope).cleared)
  | scopeKnown (cs : CallSite) (ctx : ResolverContext) (key : ServiceCacheKey) (v : Option Value)
      (here : r.control = .lockScope cs ctx key false)
      (known : (s.scopes ctx.scope).resolvedServices key = some v) :
      Looks (.returned cs ctx (.ok v))
  | part (a : Activation) (rest : List Activation) (cs : CallSite) (todo : List CallSite)
      (here : r.control = .main) (top : r.stack = a :: rest) (next : a.todo = cs :: todo) :
      Looks (.visit cs a.inner)
  | userCode (a : Activation) (rest : List Activation) (here : r.control = .main)
      (top : r.stack = a :: rest) : Looks .user
  | made (a : Activation) (rest : List Activation) (v : Option Value) (here : r.control = .main)
      (top : r.stack = a :: rest) (builtIn : a.handling = .noCache ∨ disposable v = none) :
      Looks (.capture v)
  | userFailed (failure : Failure) (here : r.control = .user) : Looks (.settle (.error failure))
  | uncaptured (a : Activation) (rest : List Activation) (v : Option Value)
      (here : r.control = .capture v) (top : r.stack = a :: rest)
      (plain : a.handling = .noCache ∨ disposable v = none) : Looks (.settle (.ok v))
  | partFailed (a : Activation) (rest : List Activation) (cs : CallSite) (ctx : ResolverContext)
      (result : Resolved) (failure : Failure) (here : r.control = .returned cs ctx result)
      (top : r.stack = a :: rest) : Looks (.settle (.error failure))

/-- A step of a call of `Get`. -/
inductive GetStep (id : Nat) : Engine → Resolution → Prop where
  | looks (control : Control) (looks : Looks admits s r control) : GetStep id s (r.goto control)
  | enters (cs : CallSite) (ctx : ResolverContext) (here : r.control = .visit cs ctx)
      (plain : handling cs ctx = .disposeCache ∨ handling cs ctx = .noCache) :
      GetStep id s (r.enter cs ctx false)
  | entersRoot (cs : CallSite) (ctx : ResolverContext) (here : r.control = .lockSite cs ctx)
      (free : s.lockers (.callSite cs) = none) (unknown : s.values cs = none) :
      GetStep id (s.lock id (.callSite cs)) (r.enter cs ctx false)
  | entersScope (cs : CallSite) (ctx : ResolverContext) (key : ServiceCacheKey) (nilMap : Bool)
      (here : r.control = .lockScope cs ctx key nilMap)
      (unknown : nilMap = false → (s.scopes ctx.scope).resolvedServices key = none)
      (free : ctx.scopeLocked = false → s.lockers (.scope ctx.scope) = none) :
      GetStep id (if ctx.scopeLocked then s else s.lock id (.scope ctx.scope))
        (r.enter cs ctx nilMap)
  | creates (a : Activation) (rest : List Activation) (v : Option Instance)
      (here : r.control = .user) (top : r.stack = a :: rest) :
      GetStep id (s.record (.created id a.callSite a.inner a.visited v))
        (r.goto (.capture (v.map .object)))
  | refuses (a : Activation) (rest : List Activation) (v : Option Value) (d : Instance)
      (here : r.control = .capture v) (top : r.stack = a :: rest)
      (captured : a.handling ≠ .noCache) (isDisposable : disposable v = some d)
      (free : ∀ m, a.captureMutex = some m → s.lockers m = none)
      (closed : (s.scopes a.inner.scope).disposed = true) :
      GetStep id (s.record (.refused id a.inner.scope d))
        (r.goto (.settle (.error (.scopeDisposed d))))
  | accepts (a : Activation) (rest : List Activation) (v : Option Value) (d : Instance)
      (here : r.control = .capture v) (top : r.stack = a :: rest)
      (captured : a.handling ≠ .noCache) (isDisposable : disposable v = some d)
      (free : ∀ m, a.captureMutex = some m → s.lockers m = none)
      (unclosed : (s.scopes a.inner.scope).disposed = false) :
      GetStep id (s.accept id a.inner.scope d) (r.goto (.settle (.ok v)))
  | settles (a : Activation) (rest : List Activation) (result : Resolved)
      (here : r.control = .settle result) (top : r.stack = a :: rest) :
      GetStep id ((store s a result).1.unlock a.mutex) (r.leave a rest (store s a result).2)
  | receives (a : Activation) (rest : List Activation) (cs : CallSite) (ctx : ResolverContext)
      (v : Option Value) (here : r.control = .returned cs ctx (.ok v)) (top : r.stack = a :: rest) :
      GetStep id s (r.receive a rest cs v)

variable {admits s r} {id : Nat} {s' : Engine} {r' : Resolution}

/-- The dispatch on the lifetime of a call site is a step of `Get`. -/
theorem visitCallSite_step {cs : CallSite} {ctx : ResolverContext}
    (here : r.control = .visit cs ctx) : GetStep admits s r id s (visitCallSite s r cs ctx) := by
  unfold visitCallSite
  cases isHandling : handling cs ctx with
  | rootCache =>
    cases known : s.values cs with
    | some v => exact .looks _ (.rootKnown cs ctx v (.inl ⟨here, isHandling⟩) known)
    | none => exact .looks _ (.rootUnknown cs ctx here isHandling)
  | scopeCache key => exact .looks _ (.scopeVisited cs ctx key here isHandling)
  | disposeCache => exact .enters cs ctx here (.inl isHandling)
  | noCache => exact .enters cs ctx here (.inr isHandling)

/-- The second look at a singleton under its mutex is a step of `Get`. -/
theorem visitRootCache_step {cs : CallSite} {ctx : ResolverContext}
    (here : r.control = .lockSite cs ctx) (moved : visitRootCache id s r cs ctx = some (s', r')) :
    GetStep admits s r id s' r' := by
  unfold visitRootCache at moved
  cases owner : s.lockers (.callSite cs) with
  | some _ => simp [owner] at moved
  | none =>
    cases known : s.values cs with
    | some v =>
      simp only [owner, known, Option.some.injEq, Prod.mk.injEq] at moved
      obtain ⟨rfl, rfl⟩ := moved
      exact .looks _ (.rootKnown cs ctx v (.inr here) known)
    | none =>
      simp only [owner, known, Option.some.injEq, Prod.mk.injEq] at moved
      obtain ⟨rfl, rfl⟩ := moved
      exact .entersRoot cs ctx here owner known

/-- The look into the map of a scope, with its mutex or under it, is a step of `Get`. -/
theorem visitScopeCache_step {cs : CallSite} {ctx : ResolverContext} {key : ServiceCacheKey}
    {nilMap : Bool} (here : r.control = .lockScope cs ctx key nilMap)
    (moved : visitScopeCache id s r cs ctx key nilMap = some (s', r')) :
    GetStep admits s r id s' r' := by
  unfold visitScopeCache at moved
  split at moved
  case isTrue => cases moved
  case isFalse unblocked =>
    have free : ctx.scopeLocked = false → s.lockers (.scope ctx.scope) = none := by
      intro unlocked
      simpa [unlocked] using unblocked
    split at moved
    case h_1 v known =>
      obtain ⟨rfl, rfl⟩ := Prod.mk.inj (Option.some.inj moved)
      cases nilMap with
      | true => cases known
      | false => exact .looks _ (.scopeKnown cs ctx key v here known)
    case h_2 missing =>
      obtain ⟨rfl, rfl⟩ := Prod.mk.inj (Option.some.inj moved)
      refine .entersScope cs ctx key nilMap here ?_ free
      rintro rfl
      exact missing

/-- The dispatch on the kind of a call site is a step of `Get`. -/
theorem visitCallSiteMain_step {a : Activation} {rest : List Activation}
    (here : r.control = .main) (top : r.stack = a :: rest) :
    GetStep admits s r id s (visitCallSiteMain r a) := by
  unfold visitCallSiteMain
  cases isSite : a.callSite.site with
  | constant t defaultValue =>
    refine .looks _ (.made a rest _ here top (.inl ?_))
    simp [Activation.handling, handling, CallSite.cache, isSite, Site.cache]
  | container =>
    refine .looks _ (.made a rest _ here top (.inl ?_))
    simp [Activation.handling, handling, CallSite.cache, isSite, Site.cache]
  | factory cache t factory => exact .looks _ (.userCode a rest here top)
  | constructor cache t ctor =>
    cases todo : a.todo with
    | nil => exact .looks _ (.userCode a rest here top)
    | cons cs others => exact .looks _ (.part a rest cs others here top todo)
  | slice cache elem =>
    cases todo : a.todo with
    | nil => exact .looks _ (.made a rest _ here top (.inr rfl))
    | cons cs others => exact .looks _ (.part a rest cs others here top todo)

/-- Handing a service with a `Dispose` method to a scope is a step of `Get`. -/
theorem captureDisposable_step {a : Activation} {rest : List Activation} {v : Option Value}
    {d : Instance} (here : r.control = .capture v) (top : r.stack = a :: rest)
    (captured : a.handling ≠ .noCache) (isDisposable : disposable v = some d)
    (moved : captureDisposable id s r a v d = some (s', r')) : GetStep admits s r id s' r' := by
  unfold captureDisposable at moved
  dsimp only at moved
  split at moved
  case isTrue => cases moved
  case isFalse unheld =>
    have free (m : Mutex) (takes : a.captureMutex = some m) : s.lockers m = none := by
      simpa [takes] using unheld
    split at moved
    case isTrue closed =>
      obtain ⟨rfl, rfl⟩ := Prod.mk.inj (Option.some.inj moved)
      exact .refuses a rest v d here top captured isDisposable free closed
    case isFalse unclosed =>
      obtain ⟨rfl, rfl⟩ := Prod.mk.inj (Option.some.inj moved)
      exact .accepts a rest v d here top captured isDisposable free (by simpa using unclosed)

/-- Handing any value to a scope is a step of `Get`. -/
theorem capture_step {a : Activation} {rest : List Activation} {v : Option Value}
    (here : r.control = .capture v) (top : r.stack = a :: rest)
    (moved : capture id s r a v = some (s', r')) : GetStep admits s r id s' r' := by
  unfold capture at moved
  split at moved
  case h_1 plain =>
    obtain ⟨rfl, rfl⟩ := Prod.mk.inj (Option.some.inj moved)
    exact .looks _ (.uncaptured a rest v here top (.inl plain))
  case h_2 plain _ =>
    obtain ⟨rfl, rfl⟩ := Prod.mk.inj (Option.some.inj moved)
    exact .looks _ (.uncaptured a rest _ here top (.inr plain))
  case h_3 d isDisposable captured =>
    exact captureDisposable_step here top captured isDisposable moved

/-- Passing a result to the activation below is a step of `Get`. -/
theorem deliver_step {a : Activation} {rest : List Activation} {cs : CallSite}
    {ctx : ResolverContext} {result : Resolved} (here : r.control = .returned cs ctx result)
    (top : r.stack = a :: rest) : GetStep admits s r id s (deliver r a rest cs result) := by
  cases result with
  | error failure => exact .looks _ (.partFailed a rest cs ctx _ failure here top)
  | ok v =>
    unfold deliver
    dsimp only
    split
    · exact .looks _ (.partFailed a rest cs ctx _ _ here top)
    · exact .receives a rest cs ctx _ here top

/-- Every step of a call of `Get` is one of those listed. -/
theorem Resolution.move_step {choice : Choice} (moved : r.move admits choice id s = some (s', r')) :
    GetStep admits s r id s' r' := by
  unfold Resolution.move at moved
  split at moved
  case h_1 scope here =>
    obtain ⟨rfl, rfl⟩ := Prod.mk.inj (Option.some.inj moved)
    split
    · exact .looks _ (.refused scope _ (.inl here))
    · exact .looks _ (.checked scope here)
  case h_2 scope here =>
    obtain ⟨rfl, rfl⟩ := Prod.mk.inj (Option.some.inj moved)
    split
    · exact .looks _ (.refused scope _ (.inr here))
    · split
      case isTrue admitted => exact .looks _ (.admitted scope here admitted)
      case isFalse => exact .looks _ (.refused scope _ (.inr here))
  case h_3 here =>
    split at moved
    case h_1 v known =>
      obtain ⟨rfl, rfl⟩ := Prod.mk.inj (Option.some.inj moved)
      split at known
      case isTrue root => exact .looks _ (.cached v here root known)
      case isFalse => cases known
    case h_2 =>
      obtain ⟨rfl, rfl⟩ := Prod.mk.inj (Option.some.inj moved)
      exact .looks _ (.starts here)
  case h_4 cs ctx here =>
    obtain ⟨rfl, rfl⟩ := Prod.mk.inj (Option.some.inj moved)
    exact visitCallSite_step here
  case h_5 cs ctx here => exact visitRootCache_step here moved
  case h_6 cs ctx key nilMap here => exact visitScopeCache_step here moved
  case h_7 a rest here top =>
    obtain ⟨rfl, rfl⟩ := Prod.mk.inj (Option.some.inj moved)
    exact visitCallSiteMain_step here top
  case h_8 outcome a rest here top =>
    cases outcome with
    | ok v =>
      obtain ⟨rfl, rfl⟩ := Prod.mk.inj (Option.some.inj moved)
      exact .creates a rest v here top
    | error message =>
      obtain ⟨rfl, rfl⟩ := Prod.mk.inj (Option.some.inj moved)
      exact .looks _ (.userFailed _ here)
  case h_9 v a rest here top => exact capture_step here top moved
  case h_10 result a rest here top =>
    obtain ⟨rfl, rfl⟩ := Prod.mk.inj (Option.some.inj moved)
    exact .settles a rest result here top
  case h_11 cs ctx result a rest here top =>
    obtain ⟨rfl, rfl⟩ := Prod.mk.inj (Option.some.inj moved)
    exact deliver_step here top
  case h_12 => cases moved

/-- Taking a mutex is not noted. -/
@[simp] theorem log_lock (m : Mutex) : (s.lock id m).log = s.log := rfl

/-- A recorded event is the last one of the log. -/
@[simp] theorem log_record (event : Event) : (s.record event).log = s.log ++ [event] := rfl

/-- A captured service is noted with its scope. -/
@[simp] theorem log_accept (scope : Nat) (d : Instance) :
    (s.accept id scope d).log = s.log ++ [.captured id scope d] := rfl

/-- The call that marks a scope as disposed is noted. -/
@[simp] theorem log_setDisposed (scope : Nat) :
    (s.setDisposed id scope).log = s.log ++ [.swapped id scope] := rfl

/-- Taking the disposables of a scope is not noted. -/
@[simp] theorem log_clear (scope : Nat) : (s.clear scope).log = s.log := rfl

/-- Releasing a mutex is not noted. -/
@[simp] theorem log_unlock (m : Option Mutex) : (s.unlock m).log = s.log := by
  cases m <;> rfl

/-- Keeping a value is not noted. -/
@[simp] theorem log_store (a : Activation) (result : Resolved) :
    (store s a result).1.log = s.log := by
  unfold store
  split
  · rfl
  · split
    · split <;> rfl
    · split <;> rfl
    · rfl
    · rfl

end Steps

section Calls

variable {admits : CallSite → Nat → Bool} {s s' : Engine} {id : Nat}

/-- A step of a call of `Dispose`. -/
inductive DisposeStep (s : Engine) (id : Nat) : Disposal → Engine → Disposal → Prop where
  | container : DisposeStep s id .container { s with disposed := true } (.swap 0)
  | late (scope : Nat) (disposed : (s.scopes scope).disposed = true) :
      DisposeStep s id (.swap scope) s .finished
  | swaps (scope : Nat) (next : Disposal) (undisposed : (s.scopes scope).disposed = false)
      (isNext : next = .take scope ∨ next = .mark ∧ scope = 0) :
      DisposeStep s id (.swap scope) (s.setDisposed id scope) next
  | marks : DisposeStep s id .mark { s with disposed := true } (.take 0)
  | takes (scope : Nat) (free : s.lockers (.scope scope) = none) :
      DisposeStep s id (.take scope) (s.clear scope)
        (.close scope (s.scopes scope).disposables.reverse)
  | closes (scope : Nat) (d : Instance) (pending : List Instance) :
      DisposeStep s id (.close scope (d :: pending)) (s.record (.closed scope d))
        (.close scope pending)
  | ends (scope : Nat) : DisposeStep s id (.close scope []) s .finished

/-- Every step of a call of `Dispose` is one of those listed. -/
theorem Disposal.move_step {d d' : Disposal} (moved : d.move id s = some (s', d')) :
    DisposeStep s id d s' d' := by
  unfold Disposal.move at moved
  split at moved
  case h_1 =>
    obtain ⟨rfl, rfl⟩ := Prod.mk.inj (Option.some.inj moved)
    exact .container
  case h_2 scope =>
    split at moved
    case isTrue disposed =>
      obtain ⟨rfl, rfl⟩ := Prod.mk.inj (Option.some.inj moved)
      exact .late scope disposed
    case isFalse undisposed =>
      obtain ⟨rfl, rfl⟩ := Prod.mk.inj (Option.some.inj moved)
      refine .swaps scope _ (by simpa using undisposed) ?_
      split
      case isTrue root => exact .inr ⟨rfl, root⟩
      case isFalse => exact .inl rfl
  case h_3 =>
    obtain ⟨rfl, rfl⟩ := Prod.mk.inj (Option.some.inj moved)
    exact .marks
  case h_4 scope =>
    split at moved
    case isTrue => cases moved
    case isFalse free =>
      obtain ⟨rfl, rfl⟩ := Prod.mk.inj (Option.some.inj moved)
      exact .takes scope (by simpa using free)
  case h_5 scope d pending =>
    obtain ⟨rfl, rfl⟩ := Prod.mk.inj (Option.some.inj moved)
    exact .closes scope d pending
  case h_6 scope =>
    obtain ⟨rfl, rfl⟩ := Prod.mk.inj (Option.some.inj moved)
    exact .ends scope
  case h_7 => cases moved

/-- A step of a call is one of `Get` or one of `Dispose`. -/
theorem Call.move_step {choice : Choice} {call call' : Call}
    (moved : call.move admits choice id s = some (s', call')) :
    (∃ r r', call = .get r ∧ call' = .get r' ∧ GetStep admits s r id s' r') ∨
    ∃ d d', call = .dispose d ∧ call' = .dispose d' ∧ DisposeStep s id d s' d' := by
  cases call with
  | get r =>
    obtain ⟨⟨_, r'⟩, isMove, same⟩ := Option.map_eq_some_iff.1 moved
    obtain ⟨rfl, rfl⟩ := Prod.mk.inj same
    exact .inl ⟨r, r', rfl, rfl, Resolution.move_step isMove⟩
  | dispose d =>
    cases choice with
    | finish _ => cases moved
    | proceed =>
      obtain ⟨⟨_, d'⟩, isMove, same⟩ := Option.map_eq_some_iff.1 moved
      obtain ⟨rfl, rfl⟩ := Prod.mk.inj same
      exact .inr ⟨d, d', rfl, rfl, Disposal.move_step isMove⟩

end Calls

end FluffyCore.Di
