import FluffyCore.Di.CallSiteKeys
import FluffyCore.Di.Deadlocks
import FluffyCore.Di.RequestHistories

/-!
# One instance per lifetime

Whatever calls run at the same time, everyone who obtains a singleton obtains the same value, and
so does everyone who obtains a scoped service in the same scope, by a call of `Get` or as a
parameter of a constructor.

A value is kept while the mutex is held under which it was seen to be missing, so it is kept once
and never replaced. For scoped services one more thing is needed: a visit that is under the mutex
already must not be for the same key. That is so for the call sites that the factory makes.
-/

namespace FluffyCore.Di

open Library Library.Interleaving

/-- All values that are kept: those of call sites and those in the maps of scopes. -/
structure Holdings where
  values : CallSite → Option Value
  resolvedServices : Nat → ServiceCacheKey → Option (Option Value)

def Engine.holdings (s : Engine) : Holdings :=
  ⟨s.values, fun scope => (s.scopes scope).resolvedServices⟩

/-- The value of a call site in a context, if its lifetime is such that the value is kept. -/
def Holdings.Has (h : Holdings) (cs : CallSite) (ctx : ResolverContext) (v : Option Value) :
    Prop :=
  match handling cs ctx with
  | .rootCache => v.isSome ∧ h.values cs = v
  | .scopeCache key => h.resolvedServices ctx.scope key = some v
  | .disposeCache | .noCache => True

/-- What an activation is going to keep is missing. -/
def Holdings.Lacks (h : Holdings) (a : Activation) : Prop :=
  match a.handling with
  | .rootCache => h.values a.callSite = none
  | .scopeCache key => a.nilMap = false → h.resolvedServices a.ctx.scope key = none
  | .disposeCache | .noCache => True

/-- Nothing that is kept is lost or replaced. -/
structure Holdings.Grows (h h' : Holdings) : Prop where
  values : ∀ cs v, h.values cs = some v → h'.values cs = some v
  resolvedServices : ∀ scope key v, h.resolvedServices scope key = some v →
    h'.resolvedServices scope key = some v

/-- An activation keeps its value. -/
inductive Fills (h : Holdings) (a : Activation) : Option Value → Holdings → Prop where
  | root (value : Value) (isRoot : a.handling = .rootCache) :
      Fills h a (some value)
        { h with values := Function.update h.values a.callSite (some value) }
  | scope (key : ServiceCacheKey) (v : Option Value) (inScope : a.handling = .scopeCache key)
      (hasMap : a.nilMap = false) :
      Fills h a v
        { h with
          resolvedServices := Function.update h.resolvedServices a.ctx.scope
            (Function.update (h.resolvedServices a.ctx.scope) key (some v)) }

/-- Two activations do not keep their values in the same place. -/
def Apart (a b : Activation) : Prop :=
  (a.handling = .rootCache → b.handling = .rootCache → a.callSite ≠ b.callSite) ∧
  ∀ key, a.handling = .scopeCache key → b.handling = .scopeCache key → a.ctx.scope ≠ b.ctx.scope

section Holdings

variable {h h' : Holdings} {a b : Activation} {cs : CallSite} {ctx : ResolverContext}
  {v w : Option Value}

/-- A value that is kept stays as more values are. -/
theorem Holdings.Has.grows (has : h.Has cs ctx v) (grows : h.Grows h') : h'.Has cs ctx v := by
  unfold Holdings.Has at has ⊢
  cases isHandling : handling cs ctx <;> simp only [isHandling] at has ⊢
  case rootCache =>
    obtain ⟨present, known⟩ := has
    obtain ⟨value, rfl⟩ := Option.isSome_iff_exists.1 present
    exact ⟨rfl, grows.values cs value known⟩
  case scopeCache key => exact grows.resolvedServices _ _ _ has

/-- A value that is kept is the only one. -/
theorem Holdings.Has.unique (has : h.Has cs ctx v) {ctx' : ResolverContext}
    (also : h.Has cs ctx' w)
    (kept : cs.cache.location = .root ∨ cs.cache.location = .scope ∧ ctx.scope = ctx'.scope) :
    v = w := by
  unfold Holdings.Has handling at has also
  cases isCache : cs.cache with
  | root key =>
    simp only [isCache] at has also
    exact has.2.symm.trans also.2
  | scope key =>
    have sameScope : ctx.scope = ctx'.scope := by
      simpa [isCache, ResultCache.location] using kept
    simp only [isCache, ← sameScope] at has also
    by_cases root : ctx.scope = 0
    · simp only [root, if_true] at has also
      exact has.2.symm.trans also.2
    · simp only [root, if_false] at has also
      exact Option.some.inj (has.symm.trans also)
  | dispose key => simp [isCache, ResultCache.location] at kept
  | none => simp [isCache, ResultCache.location] at kept

/-- Keeping a value that was missing loses and replaces nothing. -/
theorem Fills.grows (fills : Fills h a v h') (lacks : h.Lacks a) : h.Grows h' := by
  cases fills with
  | root value isRoot =>
    refine ⟨fun cs w known => ?_, fun _ _ _ kept => kept⟩
    have absent : h.values a.callSite = none := by simpa [Holdings.Lacks, isRoot] using lacks
    have different : cs ≠ a.callSite := by
      rintro rfl
      rw [absent] at known
      cases known
    simpa [different] using known
  | scope key _ inScope hasMap =>
    refine ⟨fun _ _ known => known, fun scope other w known => ?_⟩
    have absent : h.resolvedServices a.ctx.scope key = none := by
      simpa [Holdings.Lacks, inScope, hasMap] using lacks
    by_cases sameScope : scope = a.ctx.scope
    · subst sameScope
      have different : other ≠ key := by
        rintro rfl
        rw [absent] at known
        cases known
      simpa [different] using known
    · simpa [sameScope] using known

/-- An activation that keeps its value has it from then on. -/
theorem Fills.has (fills : Fills h a v h') : h'.Has a.callSite a.ctx v := by
  unfold Holdings.Has
  cases fills with
  | root value isRoot =>
    rw [Activation.handling] at isRoot
    simp [isRoot]
  | scope key _ inScope hasMap =>
    rw [Activation.handling] at inScope
    simp [inScope]

/-- What another activation is going to keep is still missing. -/
theorem Fills.lacks (fills : Fills h a v h') (apart : Apart a b) (lacks : h.Lacks b) :
    h'.Lacks b := by
  unfold Holdings.Lacks at lacks ⊢
  cases fills with
  | root value isRoot =>
    cases isHandling : b.handling <;> simp only [isHandling] at lacks ⊢
    case rootCache =>
      rw [Function.update_of_ne (Ne.symm (apart.1 isRoot isHandling)), lacks]
    case scopeCache => exact lacks
  | scope key _ inScope hasMap =>
    cases isHandling : b.handling <;> simp only [isHandling] at lacks ⊢
    case rootCache => exact lacks
    case scopeCache other =>
      intro theirMap
      by_cases sameScope : b.ctx.scope = a.ctx.scope
      · have different : other ≠ key := by
          rintro rfl
          exact apart.2 other inScope isHandling sameScope.symm
        simp only [sameScope, Function.update_self]
        rw [Function.update_of_ne different, ← sameScope]
        exact lacks theirMap
      · rw [Function.update_of_ne sameScope]
        exact lacks theirMap

end Holdings

section Steps

variable {admits : CallSite → Nat → Bool} {s s' : Engine} {r r' : Resolution} {id : Nat}

/-- Releasing a mutex changes no kept value. -/
@[simp] theorem holdings_unlock (m : Option Mutex) : (s.unlock m).holdings = s.holdings := by
  cases m <;> rfl

/-- Changing other fields of a scope changes no kept value. -/
theorem holdings_setScope {scope : Nat} {state : ContainerEngineScope}
    (same : state.resolvedServices = (s.scopes scope).resolvedServices) :
    (s.setScope scope state).holdings = s.holdings := by
  simp only [Engine.holdings, Engine.setScope, Holdings.mk.injEq, true_and]
  funext other
  by_cases isScope : other = scope
  · simp [isScope, same]
  · simp [isScope]

/-- Capturing changes no kept value. -/
theorem holdings_accept (scope : Nat) (d : Instance) :
    (s.accept id scope d).holdings = s.holdings := by
  change (s.setScope scope _).holdings = s.holdings
  exact holdings_setScope rfl

/-- Marking a scope as disposed changes no kept value. -/
theorem holdings_setDisposed (scope : Nat) : (s.setDisposed id scope).holdings = s.holdings := by
  change (s.setScope scope _).holdings = s.holdings
  exact holdings_setScope rfl

/-- An activation keeps its result, or its result is not one that is kept. -/
theorem store_fills (s : Engine) (a : Activation) (result : Resolved) :
    (∃ v, (store s a result).2 = .ok v ∧ Fills s.holdings a v (store s a result).1.holdings) ∨
    ((store s a result).1.holdings = s.holdings ∧
      ∀ v, (store s a result).2 = .ok v → s.holdings.Has a.callSite a.ctx v) := by
  unfold store
  cases result with
  | error failure => exact .inr ⟨rfl, fun v isOk => by cases isOk⟩
  | ok v =>
    cases isHandling : a.handling with
    | rootCache =>
      cases v with
      | none => exact .inr ⟨rfl, fun v isOk => by cases isOk⟩
      | some value => exact .inl ⟨some value, rfl, .root value isHandling⟩
    | scopeCache key =>
      cases hasMap : a.nilMap with
      | true => exact .inr ⟨rfl, fun v isOk => by cases isOk⟩
      | false =>
        refine .inl ⟨v, rfl, ?_⟩
        have kept : (s.keep a.ctx.scope key v).holdings =
            { s.holdings with
              resolvedServices := Function.update s.holdings.resolvedServices a.ctx.scope
                (Function.update (s.holdings.resolvedServices a.ctx.scope) key (some v)) } := by
          simp only [Engine.holdings, Engine.keep, Engine.setScope, Holdings.mk.injEq, true_and]
          funext other
          by_cases isScope : other = a.ctx.scope
          · subst isScope
            simp
          · simp [isScope]
        simp only [Bool.false_eq_true, if_false, kept]
        exact .scope key v isHandling hasMap
    | disposeCache =>
      rw [Activation.handling] at isHandling
      exact .inr ⟨rfl, fun v _ => by simp [Holdings.Has, isHandling]⟩
    | noCache =>
      rw [Activation.handling] at isHandling
      exact .inr ⟨rfl, fun v _ => by simp [Holdings.Has, isHandling]⟩

/-- Only the end of an activation changes what is kept. -/
theorem GetStep.holdings (step : GetStep admits s r id s' r') :
    s'.holdings = s.holdings ∨ ∃ a rest result, r.stack = a :: rest ∧
      r' = r.leave a rest (store s a result).2 ∧
      s' = (store s a result).1.unlock a.mutex := by
  cases step with
  | looks | enters | receives | creates | refuses => exact .inl rfl
  | entersRoot => exact .inl rfl
  | entersScope => split <;> exact .inl rfl
  | accepts => exact .inl (holdings_accept _ _)
  | settles a rest result here top => exact .inr ⟨a, rest, result, top, rfl, rfl⟩

/-- The value of a call site is set by the end of its visit as a singleton. -/
theorem GetStep.values (step : GetStep admits s r id s' r') :
    s'.values = s.values ∨ ∃ a rest value, r.stack = a :: rest ∧ a.handling = .rootCache ∧
      s'.values = Function.update s.values a.callSite (some value) := by
  have same {after : Engine} (unchanged : after.holdings = s.holdings) : after.values = s.values :=
    congrArg Holdings.values unchanged
  rcases step.holdings with unchanged | ⟨a, rest, result, top, _, rfl⟩
  · exact .inl (same unchanged)
  · rcases store_fills s a result with ⟨v, _, fills⟩ | ⟨unchanged, _⟩
    · generalize isAfter : (store s a result).1.holdings = h at fills
      have isValues : ((store s a result).1.unlock a.mutex).values = h.values :=
        congrArg Holdings.values ((holdings_unlock a.mutex).trans isAfter)
      cases fills with
      | root value isRoot => exact .inr ⟨a, rest, value, top, isRoot, isValues⟩
      | scope => exact .inl isValues
    · exact .inl (same ((holdings_unlock a.mutex).trans unchanged))

/-- No step of `Dispose` changes a kept value. The map of a scope that is cleared stays for the
visits that have read it before. -/
theorem DisposeStep.holdings {d d' : Disposal} (step : DisposeStep s id d s' d') :
    s'.holdings = s.holdings := by
  cases step with
  | container | late | marks | closes | ends => rfl
  | swaps => exact holdings_setDisposed _
  | takes => exact holdings_setScope rfl

end Steps

section Apartness

variable {admits : CallSite → Nat → Bool} {s : Engine} {r r' : Resolution}

/-- A visit that uses the map of its scope is one of a scoped call site outside of the root
scope. -/
theorem handling_eq_scopeCache {cs : CallSite} {ctx : ResolverContext} {key : ServiceCacheKey}
    (inScope : handling cs ctx = .scopeCache key) : cs.cache = .scope key ∧ ctx.scope ≠ 0 := by
  unfold handling at inScope
  cases isCache : cs.cache <;> simp only [isCache, reduceCtorEq] at inScope
  split at inScope
  case isTrue => cases inScope
  case isFalse outside =>
    obtain rfl := Handling.scopeCache.inj inScope
    exact ⟨rfl, outside⟩

/-- The activations under the top one keep their values elsewhere. -/
theorem Entered.apart {origin : CallSite} {scope : Nat} {a b : Activation}
    {rest : List Activation} (entered : Entered origin scope (a :: rest))
    (nested : KeysNest origin) (inside : b ∈ rest) : Apart a b := by
  have below := entered.1.part_of b inside
  refine ⟨fun _ _ => below.ne, fun key mine theirs _ => ?_⟩
  obtain ⟨before, after, rfl⟩ := List.append_of_mem inside
  have lower := entered.1.suffix ⟨before, rfl⟩
  exact nested b.callSite a.callSite key lower.1.origin_or_below below
    (handling_eq_scopeCache theirs).1 (handling_eq_scopeCache mine).1

/-- The visit of a scoped service is under the mutex of the scope. -/
theorem Entered.mem_held {origin : CallSite} {scope : Nat} {a : Activation}
    {rest : List Activation} (entered : Entered origin scope (a :: rest)) {key : ServiceCacheKey}
    (inScope : a.handling = .scopeCache key) : .scope a.ctx.scope ∈ held (a :: rest) := by
  have outside := (handling_eq_scopeCache inScope).2
  rw [held_cons, entered.1.held_eq outside, Activation.mutex, inScope]
  cases a.ctx.scopeLocked <;> simp [(entered.1.scope_eq outside).1]

/-- The lower part of a stack holds mutexes of the whole. -/
theorem held_suffix {stack upper : List Activation} (inside : upper <:+ stack) :
    ∀ m ∈ held upper, m ∈ held stack :=
  fun _ member => (inside.sublist.filterMap Activation.mutex).subset member

/-- An activation of a call that fits holds the mutex under which it keeps its value. -/
theorem Fits.mem_held (fits : Fits admits r) {a : Activation} (inside : a ∈ r.stack) :
    (a.handling = .rootCache → .callSite a.callSite ∈ held r.stack) ∧
    ∀ key, a.handling = .scopeCache key → .scope a.ctx.scope ∈ held r.stack := by
  constructor
  · intro isRoot
    refine List.mem_filterMap.2 ⟨a, inside, ?_⟩
    simp [Activation.mutex, isRoot]
  · intro key inScope
    obtain ⟨before, after, same⟩ := List.append_of_mem inside
    have suffix : a :: after <:+ r.stack := ⟨before, same.symm⟩
    obtain ⟨top, others, isTop⟩ := List.exists_cons_of_ne_nil (List.ne_nil_of_mem inside)
    have entered : Entered r.callSite r.scope (a :: after) := by
      have whole := (fits.entered isTop).2
      rw [isTop] at suffix
      rcases List.suffix_cons_iff.1 suffix with same | deeper
      · exact same ▸ whole
      · exact whole.1.suffix deeper
    exact held_suffix suffix _ (entered.mem_held inScope)

/-- Activations of different calls keep their values in different places. -/
theorem apart_of_holding {id other : Nat} {theirs : Resolution} {a b : Activation}
    (holding : Holding admits id s (.get r)) (bystander : Holding admits other s (.get theirs))
    (different : other ≠ id) (mine : a ∈ r.stack) (inside : b ∈ theirs.stack) : Apart a b := by
  have exclusive {m : Mutex} (held : m ∈ held r.stack) (heldToo : m ∈ Di.held theirs.stack) :
      False := by
    have one := (holding.owns.iff m).2 held
    have two := (bystander.owns.iff m).2 heldToo
    exact different (Option.some.inj (two.symm.trans one))
  have fits : Fits admits r := holding.fits
  have fitsToo : Fits admits theirs := bystander.fits
  constructor
  · intro isRoot isRootToo same
    exact exclusive ((fits.mem_held mine).1 isRoot)
      (same ▸ (fitsToo.mem_held inside).1 isRootToo)
  · intro key inScope inScopeToo same
    exact exclusive ((fits.mem_held mine).2 key inScope)
      (same ▸ (fitsToo.mem_held inside).2 key inScopeToo)

end Apartness

section Coherence

variable {admits : CallSite → Nat → Bool} {s s' : Engine} {r r' : Resolution} {id : Nat}

/-- What a call relies on: what its activations are going to keep is still missing, and what they
were given is what is kept. -/
structure Coherent (h : Holdings) (r : Resolution) : Prop where
  lacks : ∀ a ∈ r.stack, h.Lacks a
  visited : ∀ a ∈ r.stack, ∀ p ∈ a.visited, h.Has p.1 a.inner p.2
  returned : ∀ cs ctx v, r.control = .returned cs ctx (.ok v) → h.Has cs ctx v

def Call.Coherent (s : Engine) : Call → Prop
  | .get r => Di.Coherent s.holdings r
  | .dispose _ => True

/-- What was passed to constructors is what is kept. -/
def Injected (s : Engine) : Prop :=
  ∀ id cs ctx parameters result, .created id cs ctx parameters result ∈ s.log →
    ∀ p ∈ parameters, s.holdings.Has p.1 ctx p.2

/-- A value that a visit finds kept is the one that is kept. -/
theorem Coherent.looks (coherent : Coherent s.holdings r) (fits : Fits admits r)
    {control : Control} (looks : Looks admits s r control) :
    Coherent s.holdings (r.goto control) := by
  refine ⟨coherent.lacks, coherent.visited, ?_⟩
  intro cs ctx v isReturned
  simp only [Resolution.goto] at isReturned
  unfold Fits at fits
  cases looks with
  | cached value here root known =>
    obtain ⟨rfl, rfl, isOk⟩ := Control.returned.inj isReturned
    obtain rfl := Except.ok.inj isOk
    unfold Holdings.Has handling
    cases r.callSite.cache <;> simp [root, Engine.holdings, known]
  | rootKnown cs ctx value here known =>
    obtain ⟨rfl, rfl, isOk⟩ := Control.returned.inj isReturned
    obtain rfl := Except.ok.inj isOk
    have isRoot : handling cs ctx = .rootCache := by
      rcases here with ⟨_, isRoot⟩ | here
      · exact isRoot
      · rw [here] at fits
        exact fits.2.2
    simp [Holdings.Has, isRoot, Engine.holdings, known]
  | scopeKnown cs ctx key value here known =>
    obtain ⟨rfl, rfl, isOk⟩ := Control.returned.inj isReturned
    obtain rfl := Except.ok.inj isOk
    rw [here] at fits
    simpa [Holdings.Has, fits.2.2, Engine.holdings] using known
  | _ => cases isReturned

/-- An activation may join a stack when what it is going to keep is missing. -/
theorem Coherent.enter {h : Holdings} (coherent : Coherent h r) {cs : CallSite}
    {ctx : ResolverContext} {nilMap : Bool}
    (lacks : h.Lacks ⟨cs, ctx, nilMap, [], cs.callSites⟩) :
    Coherent h (r.enter cs ctx nilMap) := by
  refine ⟨List.forall_mem_cons.2 ⟨lacks, coherent.lacks⟩,
    List.forall_mem_cons.2 ⟨by simp, coherent.visited⟩, ?_⟩
  intro cs' ctx' v isReturned
  cases isReturned

/-- A step that returns no value only has to leave the stack alone. -/
theorem Coherent.goto {h : Holdings} (coherent : Coherent h r) {control : Control}
    (silent : ∀ cs ctx v, control ≠ .returned cs ctx (.ok v)) : Coherent h (r.goto control) :=
  ⟨coherent.lacks, coherent.visited, fun cs ctx v same => absurd same (silent cs ctx v)⟩

/-- The end of an activation. -/
theorem Coherent.leave (coherent : Coherent s.holdings r) (fits : Fits admits r)
    (nested : ∀ cs scope, admits cs scope = true → KeysNest cs) {a : Activation}
    {rest : List Activation} (top : r.stack = a :: rest) (result : Resolved) :
    s.holdings.Grows (store s a result).1.holdings ∧
    Coherent (store s a result).1.holdings (r.leave a rest (store s a result).2) := by
  obtain ⟨⟨_, admitted, _⟩, entered⟩ := fits.entered top
  have lacks := coherent.lacks
  have visited := coherent.visited
  rw [top] at lacks visited
  obtain ⟨mine, others⟩ := List.forall_mem_cons.1 lacks
  obtain ⟨_, given⟩ := List.forall_mem_cons.1 visited
  rcases store_fills s a result with ⟨v, isOk, fills⟩ | ⟨same, has⟩
  · have grows := fills.grows mine
    refine ⟨grows, ?_, ?_, ?_⟩
    · exact fun b inside =>
        fills.lacks (entered.apart (nested _ _ admitted) inside) (others b inside)
    · exact fun b inside p member => (given b inside p member).grows grows
    · intro cs ctx w isReturned
      obtain ⟨rfl, rfl, same⟩ := Control.returned.inj isReturned
      obtain rfl := Except.ok.inj (isOk.symm.trans same)
      exact fills.has
  · rw [same]
    refine ⟨⟨fun _ _ kept => kept, fun _ _ _ kept => kept⟩, others, given, ?_⟩
    intro cs ctx w isReturned
    obtain ⟨rfl, rfl, isOk⟩ := Control.returned.inj isReturned
    exact has w isOk

/-- A step of a call loses nothing that is kept, and what the call relies on still holds. -/
theorem Coherent.step (coherent : Coherent s.holdings r) (fits : Fits admits r)
    (nested : ∀ cs scope, admits cs scope = true → KeysNest cs)
    (step : GetStep admits s r id s' r') :
    s.holdings.Grows s'.holdings ∧ Coherent s'.holdings r' := by
  have unchanged (same : s'.holdings = s.holdings) (stillCoherent : Coherent s.holdings r') :
      s.holdings.Grows s'.holdings ∧ Coherent s'.holdings r' := by
    rw [same]
    exact ⟨⟨fun _ _ kept => kept, fun _ _ _ kept => kept⟩, stillCoherent⟩
  have placed := fits
  unfold Fits at placed
  cases step with
  | looks control looks => exact unchanged rfl (coherent.looks fits looks)
  | enters cs ctx here plain =>
    refine unchanged rfl (coherent.enter ?_)
    rcases plain with plain | plain <;> simp [Holdings.Lacks, Activation.handling, plain]
  | entersRoot cs ctx here free unknown =>
    rw [here] at placed
    refine unchanged rfl (coherent.enter ?_)
    simp [Holdings.Lacks, Activation.handling, placed.2.2, Engine.holdings, unknown]
  | entersScope cs ctx key nilMap here unknown free =>
    rw [here] at placed
    refine unchanged (by split <;> rfl) (coherent.enter ?_)
    simpa [Holdings.Lacks, Activation.handling, placed.2.2, Engine.holdings] using unknown
  | creates | refuses => exact unchanged rfl (coherent.goto (by simp))
  | accepts => exact unchanged (holdings_accept _ _) (coherent.goto (by simp))
  | settles a rest result here top =>
    rw [holdings_unlock]
    exact coherent.leave fits nested top result
  | receives a rest cs ctx v here top =>
    rw [here, top] at placed
    refine unchanged rfl ?_
    obtain ⟨lacks, visited, returned⟩ := coherent
    rw [top] at lacks visited
    obtain ⟨mine, others⟩ := List.forall_mem_cons.1 lacks
    obtain ⟨given, others'⟩ := List.forall_mem_cons.1 visited
    refine ⟨List.forall_mem_cons.2 ⟨mine, others⟩, List.forall_mem_cons.2 ⟨?_, others'⟩, ?_⟩
    · intro p member
      rcases List.mem_append.1 member with earlier | last
      · exact given p earlier
      · obtain rfl := List.mem_singleton.1 last
        have isContext : ctx = a.inner := by
          cases placed.2
          rfl
        exact isContext ▸ returned cs ctx v here
    · intro cs' ctx' v' isReturned
      cases isReturned

/-- A step of a call does not touch what another call relies on. -/
theorem Coherent.bystander {other : Nat} {theirs : Resolution}
    (coherent : Coherent s.holdings r)
    (nested : ∀ cs scope, admits cs scope = true → KeysNest cs)
    (holding : Holding admits id s (.get r)) (relies : Coherent s.holdings theirs)
    (bystander : Holding admits other s (.get theirs)) (different : other ≠ id)
    (step : GetStep admits s r id s' r') : Coherent s'.holdings theirs := by
  have grows := (coherent.step holding.fits nested step).1
  refine ⟨?_, fun a inside p member => (relies.visited a inside p member).grows grows,
    fun cs ctx v isReturned => (relies.returned cs ctx v isReturned).grows grows⟩
  intro b inside
  rcases step.holdings with same | ⟨a, rest, result, top, _, rfl⟩
  · rw [same]
    exact relies.lacks b inside
  · rw [holdings_unlock]
    rcases store_fills s a result with ⟨v, _, fills⟩ | ⟨same, _⟩
    · exact fills.lacks (apart_of_holding holding bystander different (top ▸ List.mem_cons_self)
        inside) (relies.lacks b inside)
    · rw [same]
      exact relies.lacks b inside

/-- What is passed to a constructor is what is kept. -/
theorem Injected.step (injected : Injected s) (coherent : Coherent s.holdings r)
    (grows : s.holdings.Grows s'.holdings) (step : GetStep admits s r id s' r') : Injected s' := by
  have earlier {id' : Nat} {cs : CallSite} {ctx : ResolverContext}
      {parameters : List (CallSite × Option Value)} {result : Option Instance}
      (member : .created id' cs ctx parameters result ∈ s.log) :
      ∀ p ∈ parameters, s'.holdings.Has p.1 ctx p.2 :=
    fun p inside => (injected id' cs ctx parameters result member p inside).grows grows
  intro id' cs ctx parameters result member
  cases step with
  | looks | enters | receives => exact earlier member
  | entersRoot => exact earlier member
  | entersScope => exact earlier (by split at member <;> exact member)
  | settles a rest result' here top => exact earlier (by simpa using member)
  | refuses => exact earlier (by simpa using member)
  | accepts => exact earlier (by simpa using member)
  | creates a rest v here top =>
    rcases List.mem_append.1 member with before | last
    · exact earlier before
    · simp only [List.mem_singleton, Event.created.injEq] at last
      obtain ⟨_, rfl, rfl, rfl, rfl⟩ := last
      exact coherent.visited a (top ▸ List.mem_cons_self)

/-- A step of `Dispose` passes nothing to constructors. -/
theorem Injected.dispose (injected : Injected s) {d d' : Disposal}
    (step : DisposeStep s id d s' d') : Injected s' := by
  intro id' cs ctx parameters result member
  rw [step.holdings]
  refine injected id' cs ctx parameters result ?_
  cases step with
  | container | late | marks | takes | ends => exact member
  | swaps => simpa using member
  | closes => simpa using member

/-- In every schedule, the calls rely on what holds. -/
theorem coherence (nested : ∀ cs scope, admits cs scope = true → KeysNest cs) :
    (containerSystem admits).InvariantGiven MutexTable (Holding admits)
      (fun _ s => Injected s) (fun _ s call => call.Coherent s) where
  initially id cs ctx parameters result member := by cases member
  begins operation count s table injected := by
    refine ⟨injected, ?_⟩
    cases operation with
    | scopeGet cs scope => exact ⟨by simp, by simp, by simp⟩
    | containerGet cs => exact ⟨by simp, by simp, by simp⟩
    | scopeDispose scope => trivial
    | containerDispose => trivial
  moves choice count id s call s' call' made table holding injected coherent moved := by
    rcases Call.move_step moved with ⟨r, r', rfl, rfl, step⟩ | ⟨d, d', rfl, rfl, step⟩
    · obtain ⟨grows, after⟩ := Coherent.step coherent holding.fits nested step
      exact ⟨injected.step coherent grows step, after⟩
    · exact ⟨injected.dispose step, trivial⟩
  interferes choice count id s call s' call' other bystander different table holding theirs injected
      coherent relies moved := by
    cases bystander with
    | dispose _ => trivial
    | get theirs' =>
      rcases Call.move_step moved with ⟨r, r', rfl, rfl, step⟩ | ⟨d, d', rfl, rfl, step⟩
      · exact Coherent.bystander coherent nested holding relies theirs different step
      · change Di.Coherent s'.holdings theirs'
        rw [step.holdings]
        exact relies
  events event := event.elim

end Coherence

section Instances

variable {descriptors : List Descriptor} {admits : CallSite → Nat → Bool}

/-- The registered descriptors determine the call site. -/
def Unfolds (descriptors : List Descriptor) (cs : CallSite) : Prop :=
  ∃ (request : Request) (depth : Nat), request.unfold descriptors depth = some cs.shape

/-- A call site that the registrations determine has its origin in them. -/
theorem originOf_unfolds (servable : Servable descriptors) {cs : CallSite}
    (unfolds : Unfolds descriptors cs) : ∃ t, OriginOf (descriptorLookup descriptors) t cs := by
  have exact {depth : Nat} {d : Descriptor} (registered : d ∈ descriptors)
      (unfolded : Request.unfold.exact descriptors depth d = some cs.shape) :
      ∃ t, OriginOf (descriptorLookup descriptors) t cs := by
    obtain ⟨slot, isSlot, planned⟩ := Option.bind_eq_some_iff.1 unfolded
    exact ⟨_, .descriptor d slot depth (atSlot_of_getSlot servable.pointers registered isSlot)
      planned⟩
  obtain ⟨request, depth, unfolded⟩ := unfolds
  cases request with
  | callSite t => exact ⟨t, originOf_plan unfolded⟩
  | byDescriptor index =>
    obtain ⟨d, found, unfolded⟩ := Option.bind_eq_some_iff.1 unfolded
    exact exact (List.mem_of_getElem? found) unfolded
  | byLookupKey key =>
    obtain ⟨d, found, unfolded⟩ := Option.bind_eq_some_iff.1 unfolded
    rw [DescriptorCacheItem.last_eq] at found
    exact exact ((mem_populate_iff _ _ _ d).1 (List.mem_of_getLast? found)).1 unfolded

/-- What a call of `Get` has returned. -/
def Resolution.result (r : Resolution) : Option Resolved :=
  match r.control, r.stack with
  | .returned _ _ result, [] => some result
  | .refused failure, _ => some (.error failure)
  | _, _ => none

/-- A value of a call site was obtained in a scope, by a call of `Get` or as a parameter. -/
inductive Obtained (config : Config Engine Call) (cs : CallSite) (scope : Nat)
    (v : Option Value) : Prop where
  | returned (id : Nat) (r : Resolution) (isCall : config.calls[id]? = some (.get r))
      (same : r.callSite = cs) (inScope : r.scope = scope) (result : r.result = some (.ok v))
  | injected (id : Nat) (owner : CallSite) (ctx : ResolverContext)
      (parameters : List (CallSite × Option Value)) (made : Option Instance)
      (created : .created id owner ctx parameters made ∈ config.shared.log)
      (passed : (cs, v) ∈ parameters) (inScope : ctx.scope = scope)

/-- Every value that was obtained is the one that is kept. -/
theorem Obtained.has {config : Config Engine Call} {cs : CallSite} {scope : Nat}
    {v : Option Value} (obtained : Obtained config cs scope v) (injected : Injected config.shared)
    (own : ∀ (id : Nat) call, config.calls[id]? = some call →
      Holding admits id config.shared call ∧ call.Coherent config.shared) :
    ∃ ctx : ResolverContext, ctx.scope = scope ∧ config.shared.holdings.Has cs ctx v := by
  cases obtained with
  | returned id r isCall same inScope result =>
    obtain ⟨holding, coherent⟩ := own id _ isCall
    have fits : Fits admits r := holding.fits
    unfold Fits at fits
    unfold Resolution.result at result
    split at result
    case h_1 cs' ctx _ here empty =>
      obtain rfl := Option.some.inj result
      rw [here, empty] at fits
      have has := coherent.returned cs' ctx v here
      cases fits.2
      exact ⟨_, inScope, same ▸ has⟩
    case h_2 => cases result
    case h_3 => cases result
  | injected id owner ctx parameters made created passed inScope =>
    exact ⟨ctx, inScope, injected id owner ctx parameters made created (cs, v) passed⟩

/-- In every schedule, all who obtain a singleton obtain the same value, and all who obtain a
scoped service in one scope do. -/
theorem obtained_unique (servable : Servable descriptors)
    (unfolds : ∀ cs scope, admits cs scope = true → Unfolds descriptors cs)
    (schedule : List (Action Operation Choice Empty)) (config : Config Engine Call)
    (ran : (containerSystem admits).run schedule = some config) (cs : CallSite)
    (scope scope' : Nat) (v v' : Option Value) (one : Obtained config cs scope v)
    (other : Obtained config cs scope' v')
    (kept : cs.cache.location = .root ∨ cs.cache.location = .scope ∧ scope = scope') : v = v' := by
  have nested (cs : CallSite) (scope : Nat) (admitted : admits cs scope = true) : KeysNest cs := by
    obtain ⟨t, origin⟩ := originOf_unfolds servable (unfolds cs scope admitted)
    exact origin.keysNest servable.consistent servable.acyclic
  obtain ⟨⟨_, injected⟩, own⟩ :=
    ((mutex_invariant admits).and (coherence nested)).run schedule config ran
  obtain ⟨ctx, rfl, has⟩ := one.has injected own
  obtain ⟨ctx', rfl, also⟩ := other.has injected own
  exact has.unique also kept

/-- Requests for the report of the sample registrations. -/
def admitsReport (cs : CallSite) (_ : Nat) : Bool := decide (cs = reportCallSite)

/-- Reports are requested in two scopes. The second request needs the clock while the first one
makes it. -/
def reportSchedule : List (Action Operation Choice Empty) :=
  [.call (.scopeGet reportCallSite 1), .call (.scopeGet reportCallSite 2)] ++
    List.replicate 9 (.move 0 .proceed) ++ List.replicate 7 (.move 1 .proceed) ++
    [.move 0 (.finish (.ok (some ⟨7, false⟩)))] ++ List.replicate 4 (.move 0 .proceed) ++
    [.move 0 (.finish (.ok (some ⟨8, false⟩)))] ++ List.replicate 3 (.move 1 .proceed) ++
    [.move 1 (.finish (.ok (some ⟨9, false⟩)))]

/-- Both reports were given the same clock. -/
theorem reports_share_clock :
    ∃ config, (containerSystem admitsReport).run reportSchedule = some config ∧
      Obtained config clockCallSite 1 (some (.object ⟨7, false⟩)) ∧
      ∀ v, Obtained config clockCallSite 2 v → some (.object ⟨7, false⟩) = v := by
  have unfolds (cs : CallSite) (scope : Nat) (admitted : admitsReport cs scope = true) :
      Unfolds sampleDescriptors cs := by
    obtain rfl := of_decide_eq_true admitted
    exact ⟨.callSite (.named "Report"), 2, rfl⟩
  have ran : ∃ config, (containerSystem admitsReport).run reportSchedule = some config ∧
      config.shared.log[1]? = some (.created 0 reportCallSite ⟨1, true⟩
        [(clockCallSite, some (.object ⟨7, false⟩))] (some ⟨8, false⟩)) :=
    ⟨_, rfl, rfl⟩
  obtain ⟨config, ran, isEvent⟩ := ran
  have obtained : Obtained config clockCallSite 1 (some (.object ⟨7, false⟩)) :=
    .injected _ _ _ _ _ (List.mem_of_getElem? isEvent) List.mem_cons_self rfl
  exact ⟨config, ran, obtained, fun v other => obtained_unique servable_sampleDescriptors unfolds
    reportSchedule config ran clockCallSite 1 2 _ v obtained other (.inl rfl)⟩

end Instances

end FluffyCore.Di
