import FluffyCore.Di.CallSiteFactory
import FluffyCore.Library.Interleaving

/-!
# The resolver and the scopes

A call of `Get` visits a call site: it looks for a value that is kept already, takes a mutex,
visits the call sites of the parameters, runs the constructor, hands a disposable result to a
scope and keeps the result where its lifetime says. Any number of calls do this at the same time,
and others dispose scopes meanwhile.

A call is a stack of activations of `visitCallSite`, with a control that says what the top one
does next. A step has at most one access to what the calls share, or is a section under a mutex
that no other call can see into. User code, which is a constructor or a factory, is one step with
an arbitrary outcome. User code that asks the container for a service itself makes another call
and does not return before it; mutexes have no owner in Go, so nothing distinguishes that call
from one of another goroutine. A panic is an error here: `GetWithScope` recovers from it, and the
deferred functions give the mutexes back on the way.

Scope 0 is the root scope.
-/

namespace FluffyCore.Di

open Library.Interleaving

section Comparison

mutual

/-- Call sites are compared by their addresses and all that they hold. -/
def CallSite.decEq : (a b : CallSite) → Decidable (a = b)
  | .node address site callSites, .node address' site' callSites' =>
      match decEqAll callSites callSites' with
      | isTrue same =>
          if both : address = address' ∧ site = site' then
            isTrue (by rw [both.1, both.2, same])
          else
            isFalse fun equal => by
              injection equal with one two _
              exact both ⟨one, two⟩
      | isFalse different => isFalse fun equal => by
          injection equal with _ _ three
          exact different three

def decEqAll : (xs ys : List CallSite) → Decidable (xs = ys)
  | [], [] => isTrue rfl
  | [], _ :: _ => isFalse (List.cons_ne_nil _ _).symm
  | _ :: _, [] => isFalse (List.cons_ne_nil _ _)
  | x :: xs, y :: ys =>
      match CallSite.decEq x y, decEqAll xs ys with
      | isTrue first, isTrue rest => isTrue (by rw [first, rest])
      | isFalse different, _ => isFalse fun equal => different (List.cons.inj equal).1
      | _, isFalse different => isFalse fun equal => different (List.cons.inj equal).2

end

instance : DecidableEq CallSite := CallSite.decEq

end Comparison

/-- What user code and the container hand out. User code makes objects. A missing value, `nil`,
is no value of this type. -/
inductive Value where
  | object (value : Instance)
  | scope (id : Nat)
  | callSiteFactory
  | slice (elements : List Value)

def Constant.value : Constant → Value
  | .registered value => .object value
  | .rootScope => .scope 0
  | .callSiteFactory => .callSiteFactory

/-- The value as something to dispose. Of what is handed to `CaptureDisposable`, only objects
can have a `Dispose` method. -/
def disposable : Option Value → Option Instance
  | some (.object value) => if value.disposable then some value else none
  | _ => none

/-- The errors of `Get`, recovered panics included. -/
inductive Failure where
  | objectDisposed
  | containerDisposed
  | rejected
  | scopeDisposed (d : Instance)
  | nilElement
  | nilValue
  | nilMap
  | user (message : String)

abbrev Resolved := Except Failure (Option Value)

/-- The scope that is visited, and whether this call holds its mutex. The source notes a second
bit that it never reads. -/
structure ResolverContext where
  scope : Nat
  scopeLocked : Bool
deriving DecidableEq

/-- The function that serves a call site: in the root scope, scoped services are singletons. -/
inductive Handling where
  | rootCache
  | scopeCache (key : ServiceCacheKey)
  | disposeCache
  | noCache
deriving DecidableEq

def handling (cs : CallSite) (ctx : ResolverContext) : Handling :=
  match cs.cache with
  | .root _ => .rootCache
  | .scope key => if ctx.scope = 0 then .rootCache else .scopeCache key
  | .dispose _ => .disposeCache
  | .none => .noCache

/-- The mutexes of the resolver: each call site has one, and each scope. -/
inductive Mutex where
  | callSite (cs : CallSite)
  | scope (id : Nat)
deriving DecidableEq

/-- A visit of a call site that has begun to make the service: its two arguments, whether it
found the scope's map gone, the parts visited so far with their values, and those to visit. -/
structure Activation where
  callSite : CallSite
  ctx : ResolverContext
  nilMap : Bool
  visited : List (CallSite × Option Value)
  todo : List CallSite

namespace Activation

def handling (a : Activation) : Handling := Di.handling a.callSite a.ctx

/-- The context in which the parts are visited. -/
def inner (a : Activation) : ResolverContext :=
  match a.handling with
  | .rootCache => { a.ctx with scope := 0 }
  | .scopeCache _ => { a.ctx with scopeLocked := true }
  | .disposeCache | .noCache => a.ctx

/-- The mutex that is given back when the visit ends. -/
def mutex (a : Activation) : Option Mutex :=
  match a.handling with
  | .rootCache => some (.callSite a.callSite)
  | .scopeCache _ => if a.ctx.scopeLocked then none else some (.scope a.ctx.scope)
  | .disposeCache | .noCache => none

/-- The mutex that capturing the result takes for a moment. The visit of a scoped service is
under that mutex already and does not take it. -/
def captureMutex (a : Activation) : Option Mutex :=
  match a.handling with
  | .rootCache | .disposeCache => some (.scope a.inner.scope)
  | .scopeCache _ | .noCache => none

end Activation

/-- What happened, for the record: a service was made, a scope took a disposable or refused one
and disposed it at once, a call was the first to dispose a scope, and a scope disposed what it
had taken. -/
inductive Event where
  | created (id : Nat) (cs : CallSite) (ctx : ResolverContext)
      (parameters : List (CallSite × Option Value)) (result : Option Instance)
  | captured (id scope : Nat) (d : Instance)
  | refused (id scope : Nat) (d : Instance)
  | swapped (id scope : Nat)
  | closed (scope : Nat) (d : Instance)

/-- A scope. Its map is gone when it is cleared, but a visit that read the field before still
has the map. -/
structure ContainerEngineScope where
  resolvedServices : ServiceCacheKey → Option (Option Value) := fun _ => none
  cleared : Bool := false
  disposed : Bool := false
  disposables : List Instance := []

/-- What the calls share: the values of call sites, the scopes, whether the container is
disposed, the owners of the mutexes, and the record. -/
structure Engine where
  values : CallSite → Option Value := fun _ => none
  scopes : Nat → ContainerEngineScope := fun _ => {}
  disposed : Bool := false
  lockers : Mutex → Option Nat := fun _ => none
  log : List Event := []

namespace Engine

def record (s : Engine) (event : Event) : Engine := { s with log := s.log ++ [event] }

def lock (s : Engine) (id : Nat) (m : Mutex) : Engine :=
  { s with lockers := Function.update s.lockers m (some id) }

def unlock (s : Engine) : Option Mutex → Engine
  | some m => { s with lockers := Function.update s.lockers m none }
  | none => s

def setScope (s : Engine) (scope : Nat) (state : ContainerEngineScope) : Engine :=
  { s with scopes := Function.update s.scopes scope state }

def setValue (s : Engine) (cs : CallSite) (v : Value) : Engine :=
  { s with values := Function.update s.values cs (some v) }

/-- Keep a result in the map of a scope. -/
def keep (s : Engine) (scope : Nat) (key : ServiceCacheKey) (v : Option Value) : Engine :=
  let state := s.scopes scope
  s.setScope scope
    { state with resolvedServices := Function.update state.resolvedServices key (some v) }

/-- Take a disposable into the list of a scope. -/
def accept (s : Engine) (id scope : Nat) (d : Instance) : Engine :=
  let state := s.scopes scope
  (s.setScope scope { state with disposables := state.disposables ++ [d] }).record
    (.captured id scope d)

def setDisposed (s : Engine) (id scope : Nat) : Engine :=
  (s.setScope scope { s.scopes scope with disposed := true }).record (.swapped id scope)

/-- Take the disposables out of a scope, and its map. -/
def clear (s : Engine) (scope : Nat) : Engine :=
  s.setScope scope { s.scopes scope with disposables := [], cleared := true }

end Engine

/-- What a call of `Get` does next. -/
inductive Control where
  | checkScope (scope : Nat)
  | checkContainer (scope : Nat)
  | resolve
  | visit (cs : CallSite) (ctx : ResolverContext)
  | lockSite (cs : CallSite) (ctx : ResolverContext)
  | lockScope (cs : CallSite) (ctx : ResolverContext) (key : ServiceCacheKey) (nilMap : Bool)
  | main
  | user
  | capture (v : Option Value)
  | settle (r : Resolved)
  | returned (cs : CallSite) (ctx : ResolverContext) (r : Resolved)
  | refused (failure : Failure)

/-- A call of `Get` for the service of a call site in a scope. -/
structure Resolution where
  callSite : CallSite
  scope : Nat
  stack : List Activation
  control : Control

namespace Resolution

def goto (r : Resolution) (control : Control) : Resolution := { r with control }

/-- The visit begins to make the service. -/
def enter (r : Resolution) (cs : CallSite) (ctx : ResolverContext) (nilMap : Bool) : Resolution :=
  { r with stack := ⟨cs, ctx, nilMap, [], cs.callSites⟩ :: r.stack, control := .main }

/-- The visit at the top of the stack returns. -/
def leave (r : Resolution) (a : Activation) (rest : List Activation) (result : Resolved) :
    Resolution :=
  { r with stack := rest, control := .returned a.callSite a.ctx result }

/-- The visit at the top of the stack goes on with the value of the part it waited for. -/
def receive (r : Resolution) (a : Activation) (rest : List Activation) (cs : CallSite)
    (v : Option Value) : Resolution :=
  { r with
    stack := { a with visited := a.visited ++ [(cs, v)], todo := a.todo.tail } :: rest
    control := .main }

end Resolution

section Visits

variable (id : Nat) (s : Engine) (r : Resolution)

/-- The first look at a call site, before any mutex is taken. -/
def visitCallSite (cs : CallSite) (ctx : ResolverContext) : Resolution :=
  match handling cs ctx with
  | .rootCache =>
      match s.values cs with
      | some v => r.goto (.returned cs ctx (.ok (some v)))
      | none => r.goto (.lockSite cs ctx)
  | .scopeCache key => r.goto (.lockScope cs ctx key (s.scopes ctx.scope).cleared)
  | .disposeCache | .noCache => r.enter cs ctx false

/-- Take the mutex of the call site and look again. If the value is there by now, the mutex is
given back at once. -/
def visitRootCache (cs : CallSite) (ctx : ResolverContext) : Option (Engine × Resolution) :=
  match s.lockers (.callSite cs) with
  | some _ => none
  | none =>
      match s.values cs with
      | some v => some (s, r.goto (.returned cs ctx (.ok (some v))))
      | none => some (s.lock id (.callSite cs), r.enter cs ctx false)

/-- Take the mutex of the scope, unless this call has it, and look into the map. Nothing is found
in a map that is gone. -/
def visitScopeCache (cs : CallSite) (ctx : ResolverContext) (key : ServiceCacheKey)
    (nilMap : Bool) : Option (Engine × Resolution) :=
  if !ctx.scopeLocked && (s.lockers (.scope ctx.scope)).isSome then none
  else
    match if nilMap then none else (s.scopes ctx.scope).resolvedServices key with
    | some v => some (s, r.goto (.returned cs ctx (.ok v)))
    | none =>
        some (if ctx.scopeLocked then s else s.lock id (.scope ctx.scope),
          r.enter cs ctx nilMap)

/-- Make the service as the kind of call site says, up to user code. -/
def visitCallSiteMain (a : Activation) : Resolution :=
  match a.callSite.site with
  | .constant _ defaultValue => r.goto (.capture (some defaultValue.value))
  | .container => r.goto (.capture (some (.scope a.inner.scope)))
  | .factory _ _ _ => r.goto .user
  | .constructor _ _ _ =>
      match a.todo with
      | [] => r.goto .user
      | cs :: _ => r.goto (.visit cs a.inner)
  | .slice _ _ =>
      match a.todo with
      | [] => r.goto (.capture (some (.slice (a.visited.filterMap (·.2)))))
      | cs :: _ => r.goto (.visit cs a.inner)

/-- User code returns. -/
def userReturns (a : Activation) : Except String (Option Instance) → Engine × Resolution
  | .ok v => (s.record (.created id a.callSite a.inner a.visited v),
      r.goto (.capture (v.map .object)))
  | .error message => (s, r.goto (.settle (.error (.user message))))

/-- `CaptureDisposable` in the scope of the activation, or `CaptureDisposableWithoutLock`. -/
def captureDisposable (a : Activation) (v : Option Value) (d : Instance) :
    Option (Engine × Resolution) :=
  let scope := a.inner.scope
  if a.captureMutex.any fun m => (s.lockers m).isSome then none
  else if (s.scopes scope).disposed then
    some (s.record (.refused id scope d), r.goto (.settle (.error (.scopeDisposed d))))
  else some (s.accept id scope d, r.goto (.settle (.ok v)))

/-- The result of the activation is captured if its service is one to dispose. -/
def capture (a : Activation) (v : Option Value) : Option (Engine × Resolution) :=
  match a.handling, disposable v with
  | .noCache, _ => some (s, r.goto (.settle (.ok v)))
  | _, none => some (s, r.goto (.settle (.ok v)))
  | _, some d => captureDisposable id s r a v d

/-- Keep the result of the activation where its lifetime says. -/
def store (a : Activation) : Resolved → Engine × Resolved
  | .error failure => (s, .error failure)
  | .ok v =>
      match a.handling with
      | .rootCache =>
          match v with
          | none => (s, .error .nilValue)
          | some value => (s.setValue a.callSite value, .ok (some value))
      | .scopeCache key =>
          if a.nilMap then (s, .error .nilMap)
          else (s.keep a.ctx.scope key v, .ok v)
      | .disposeCache | .noCache => (s, .ok v)

/-- The visit returns its result to the visit that waits for it. An element of a slice must not
be `nil`. -/
def deliver (a : Activation) (rest : List Activation) (cs : CallSite) : Resolved → Resolution
  | .error failure => r.goto (.settle (.error failure))
  | .ok v =>
      match a.callSite.site, v with
      | .slice _ _, none => r.goto (.settle (.error .nilElement))
      | _, _ => r.receive a rest cs v

end Visits

/-- What the surroundings decide: that a call goes on, or what user code returns. -/
inductive Choice where
  | proceed
  | finish (outcome : Except String (Option Instance))

/-- A step of a call of `Get`. Some requests are answered with an error before anything is
resolved: that is what validation of scopes does. -/
def Resolution.move (admits : CallSite → Nat → Bool) (choice : Choice) (id : Nat) (s : Engine)
    (r : Resolution) : Option (Engine × Resolution) :=
  match choice, r.control, r.stack with
  | .proceed, .checkScope scope, _ =>
      some (s, if (s.scopes scope).disposed then r.goto (.refused .objectDisposed)
        else r.goto (.checkContainer scope))
  | .proceed, .checkContainer scope, _ =>
      some (s, if s.disposed then r.goto (.refused .containerDisposed)
        else if admits r.callSite scope then r.goto .resolve
        else r.goto (.refused .rejected))
  | .proceed, .resolve, _ =>
      match if r.scope = 0 then s.values r.callSite else none with
      | some v => some (s, r.goto (.returned r.callSite ⟨r.scope, false⟩ (.ok (some v))))
      | none => some (s, r.goto (.visit r.callSite ⟨r.scope, false⟩))
  | .proceed, .visit cs ctx, _ => some (s, visitCallSite s r cs ctx)
  | .proceed, .lockSite cs ctx, _ => visitRootCache id s r cs ctx
  | .proceed, .lockScope cs ctx key nilMap, _ => visitScopeCache id s r cs ctx key nilMap
  | .proceed, .main, a :: _ => some (s, visitCallSiteMain r a)
  | .finish outcome, .user, a :: _ => some (userReturns id s r a outcome)
  | .proceed, .capture v, a :: _ => capture id s r a v
  | .proceed, .settle result, a :: rest =>
      let (s', result') := store s a result
      some (s'.unlock a.mutex, r.leave a rest result')
  | .proceed, .returned cs _ result, a :: rest => some (s, deliver r a rest cs result)
  | _, _, _ => none

/-- What a call of `Dispose` does next. -/
inductive Disposal where
  | container
  | swap (scope : Nat)
  | mark
  | take (scope : Nat)
  | close (scope : Nat) (pending : List Instance)
  | finished

/-- A step of a call of `Dispose`. The first call for a scope takes what the scope has captured
and disposes it, the last one first. Disposing the root scope disposes the container. -/
def Disposal.move (id : Nat) (s : Engine) : Disposal → Option (Engine × Disposal)
  | .container => some ({ s with disposed := true }, .swap 0)
  | .swap scope =>
      if (s.scopes scope).disposed then some (s, .finished)
      else some (s.setDisposed id scope, if scope = 0 then .mark else .take scope)
  | .mark => some ({ s with disposed := true }, .take 0)
  | .take scope =>
      if (s.lockers (.scope scope)).isSome then none
      else some (s.clear scope, .close scope (s.scopes scope).disposables.reverse)
  | .close scope (d :: pending) => some (s.record (.closed scope d), .close scope pending)
  | .close _ [] => some (s, .finished)
  | .finished => none

/-- A call on the container or on one of its scopes. -/
inductive Call where
  | get (r : Resolution)
  | dispose (d : Disposal)

def Call.move (admits : CallSite → Nat → Bool) (choice : Choice) (id : Nat) (s : Engine) :
    Call → Option (Engine × Call)
  | .get r => (r.move admits choice id s).map fun (s', r') => (s', .get r')
  | .dispose d =>
      match choice with
      | .proceed => (d.move id s).map fun (s', d') => (s', .dispose d')
      | .finish _ => none

/-- The calls that can be made. -/
inductive Operation where
  | scopeGet (cs : CallSite) (scope : Nat)
  | containerGet (cs : CallSite)
  | scopeDispose (scope : Nat)
  | containerDispose

/-- Singletons are resolved in the root scope, by the accessor of the service. -/
def home (cs : CallSite) (scope : Nat) : Nat :=
  if cs.cache.location = .root then 0 else scope

def Operation.begin : Operation → Call
  | .scopeGet cs scope => .get ⟨cs, home cs scope, [], .checkScope scope⟩
  | .containerGet cs => .get ⟨cs, 0, [], .checkContainer 0⟩
  | .scopeDispose scope => .dispose (.swap scope)
  | .containerDispose => .dispose .container

/-- A container with its scopes. Scopes that nobody has created yet are in their first state. -/
def containerSystem (admits : CallSite → Nat → Bool) :
    System Engine Call Operation Choice Empty where
  initial := {}
  begin := Operation.begin
  move := Call.move admits
  event := Empty.elim

end FluffyCore.Di
