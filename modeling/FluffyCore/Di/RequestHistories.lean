import FluffyCore.Di.Construction
import Mathlib.Data.List.Induction

/-!
# Histories of requests

Whatever was requested before, a request returns, and its answer is what the registered
descriptors alone determine.
-/

namespace FluffyCore.Di

open Library Relation

section Registered

variable {descriptors : List Descriptor}

/-- Whatever is requested, the types that descriptors need are known. -/
theorem closed_cons (t : ServiceType) :
    Closed (descriptorLookup descriptors) (t :: neededTypes descriptors) := by
  intro d u filed needed
  refine List.mem_cons_of_mem t (List.mem_flatMap.2 ⟨d, ?_, needed⟩)
  exact ((mem_lookup_iff _ d).1 filed).1

/-- Registrations without interfaces are consistent: a type then has no descriptors but its
own. -/
theorem consistent_of_no_interfaces
    (reserved : ∀ d ∈ descriptors, builtInCallSite d.serviceType = none)
    (plain : ∀ d ∈ descriptors, d.implementedInterfaceTypes = []) :
    Consistent (descriptorLookup descriptors) := by
  have owner {t : ServiceType} {d : Descriptor}
      (filed : d ∈ (descriptorLookup descriptors t).all) :
      d ∈ descriptors ∧ d.serviceType = t := by
    obtain ⟨registered, named⟩ := (mem_lookup_iff t d).1 filed
    rw [Descriptor.types, plain d registered, List.mem_singleton] at named
    exact ⟨registered, named.symm⟩
  have filedOwner {t : ServiceType} {slot : Nat} {d : Descriptor}
      (found : atSlot (descriptorLookup descriptors) t slot = some d) :
      (descriptorLookup descriptors d.serviceType).all =
        filed (descriptorLookup descriptors) t := by
    have inside := mem_filed_of_atSlot found
    by_cases empty : (descriptorLookup descriptors t).all = []
    · cases isSlice : t.elem with
      | none => simp [filed, empty, isSlice] at inside
      | some elem =>
        obtain rfl := eq_slice_of_elem isSlice
        rw [filed_slice empty] at inside ⊢
        rw [(owner inside).2]
    · rw [filed_eq empty] at inside ⊢
      rw [(owner inside).2]
  refine ⟨?_, ?_, ?_⟩
  · intro t d filed
    obtain ⟨registered, rfl⟩ := owner filed
    exact reserved d registered
  · intro d l filed last
    rw [DescriptorCacheItem.last_eq] at last
    exact (owner (List.mem_of_getLast? last)).2
  · intro t t' slot d d' found found' same
    have mine := filedOwner found
    have theirs := filedOwner found'
    rw [atSlot, ← mine, same] at found
    rw [atSlot, ← theirs] at found'
    exact Option.some.inj (found.symm.trans found')

/-- The slot of a registered descriptor is one it is filed in. -/
theorem atSlot_of_getSlot
    (pointers : ∀ d ∈ descriptors, ∀ d' ∈ descriptors, d.pointer = d'.pointer → d = d')
    {d : Descriptor} (registered : d ∈ descriptors) {slot : Nat}
    (found : (descriptorLookup descriptors d.serviceType).getSlot d = some slot) :
    atSlot (descriptorLookup descriptors) d.serviceType slot = some d := by
  have own : d ∈ (descriptorLookup descriptors d.serviceType).all :=
    (mem_lookup_iff _ d).2 ⟨registered, List.mem_cons_self⟩
  have isFiled := filed_eq (List.ne_nil_of_mem own)
  rw [DescriptorCacheItem.getSlot_eq, Option.map_eq_some_iff] at found
  obtain ⟨i, position, rfl⟩ := found
  obtain ⟨inside, samePointer, _⟩ := List.findIdx?_eq_some_iff_getElem.1 position
  have member := List.getElem_mem inside
  have same :=
    pointers _ ((mem_lookup_iff _ _).1 member).1 d registered (by simpa using samePointer)
  rw [← isFiled]
  refine atSlot_of_getElem? ?_
  rw [isFiled, List.getElem?_eq_getElem inside, same]

/-- A registered descriptor has a slot. -/
theorem getSlot_isSome {d : Descriptor} (registered : d ∈ descriptors) :
    ((descriptorLookup descriptors d.serviceType).getSlot d).isSome := by
  have own : d ∈ (descriptorLookup descriptors d.serviceType).all :=
    (mem_lookup_iff _ d).2 ⟨registered, List.mem_cons_self⟩
  rw [DescriptorCacheItem.getSlot_eq, Option.isSome_map, List.findIdx?_isSome, List.any_eq_true]
  exact ⟨d, own, by simp⟩

end Registered

section Runs

variable (descriptors : List Descriptor)

/-- What a request should be answered with: the unfolding of its type, or of the descriptor that
it names. -/
def Request.unfold (depth : Nat) : Request → Option Shape
  | .callSite t => plan (descriptorLookup descriptors) depth t
  | .byDescriptor index => descriptors[index]?.bind (exact depth)
  | .byLookupKey key => (descriptorKeyLookup descriptors key).last.bind (exact depth)
where
  exact (depth : Nat) (d : Descriptor) : Option Shape :=
    ((descriptorLookup descriptors d.serviceType).getSlot d).bind
      (planExact (plan (descriptorLookup descriptors) depth) d)

/-- Registrations that the factory can serve: consistent ones without circular dependencies. A
pointer determines its descriptor. -/
structure Servable : Prop where
  consistent : Consistent (descriptorLookup descriptors)
  acyclic : Acyclic (descriptorLookup descriptors)
  pointers : ∀ d ∈ descriptors, ∀ d' ∈ descriptors, d.pointer = d'.pointer → d = d'

/-- What holds between requests: the cache is sound and no mutex is held. -/
structure Idle (c : Construction) : Prop where
  sound : Sound (descriptorLookup descriptors) c
  lockers : c.lockers = []

variable {descriptors}

/-- The cache with the container's own call sites is sound, and no mutex is held. -/
theorem idle_builtInServices : Idle descriptors builtInServices := by
  refine ⟨⟨?_, ?_, ?_⟩, rfl⟩
  · intro key cs found
    simp only [builtInServices] at found
    split at found
    case isTrue first => exact .builtIn first found
    case isFalse => cases found
  · intro key cs found cache t ctor isConstructor
    simp only [builtInServices] at found
    split at found
    case isFalse => cases found
    case isTrue =>
      obtain ⟨t', slot⟩ := key
      cases t' <;> simp only [builtInCallSite, Option.some.injEq, reduceCtorEq] at found
      all_goals
        subst found
        cases isConstructor
  · intro t cs same
    simp [builtInServices, same]

/-- A request starts with nothing on the chain and no mutex held. -/
theorem Idle.led {c : Construction} (idle : Idle descriptors c)
    (path : ServiceType → ServiceType → Prop) (t u : ServiceType) :
    Led (u :: neededTypes descriptors) (fuelFor descriptors) path t { c with chain := [] } := by
  refine ⟨?_, ?_, ?_, ?_, ?_⟩
  · intro other member
    cases member
  · rw [idle.lockers]
    intro other member
    cases member
  · rw [idle.lockers]
    exact List.nodup_nil
  · rw [idle.lockers]
    intro other member
    cases member
  · simp [fuelFor, idle.lockers]

/-- How a request ends: the cache keeps what it has, and the answer is the unfolding, or an error
when there is none. -/
def Answered (descriptors : List Descriptor) (request : Request) (c : Construction)
    (r : Except Stop CallSite) (after : Construction) : Prop :=
  Idle descriptors after ∧
  (∀ key cs, c.callSiteCache key = some cs → after.callSiteCache key = some cs) ∧
  match r with
  | .ok cs => ∃ depth, request.unfold descriptors depth = some cs.shape
  | .error stop => Stops (∀ depth, request.unfold descriptors depth = none) stop

/-- A program of the factory that ends as specified answers its request. -/
theorem answered_of_ends {request : Request} {within : ServiceType → Prop}
    {right : CallSite → Construction → Prop} {reason : Prop} {c after : Construction}
    {r : Except Stop CallSite} (idle : Idle descriptors c)
    (ends : Ends (descriptorLookup descriptors) within right reason { c with chain := [] } r after)
    (made : ∀ cs, right cs after → ∃ depth, request.unfold descriptors depth = some cs.shape)
    (missing : reason → ∀ depth, request.unfold descriptors depth = none) :
    Answered descriptors request c r after := by
  obtain ⟨progress, sound, ending⟩ := ends
  refine ⟨⟨sound, progress.lockers.trans idle.lockers⟩, progress.grows, ?_⟩
  cases r with
  | ok cs => exact made cs ending
  | error stop => exact ending.imp missing

/-- The request for a registered descriptor. -/
theorem getCallSiteByDescriptor_answered (servable : Servable descriptors) {c : Construction}
    (idle : Idle descriptors c) {d : Descriptor} (registered : d ∈ descriptors) {request : Request}
    (names : ∀ depth, request.unfold descriptors depth = Request.unfold.exact descriptors depth d) :
    (getCallSiteByDescriptor (descriptorLookup descriptors) (fuelFor descriptors) d).wp
      (Answered descriptors request c) { c with chain := [] } := by
  obtain ⟨slot, found⟩ := Option.isSome_iff_exists.1 (getSlot_isSome registered)
  have unfolds (depth : Nat) : request.unfold descriptors depth =
      planExact (plan (descriptorLookup descriptors) depth) d slot := by
    rw [names, Request.unfold.exact, found, Option.bind_some]
  rw [getCallSiteByDescriptor, found]
  have requests := getCallSite_requests servable.consistent servable.acyclic
    (closed_cons d.serviceType) (fuelFor descriptors)
  refine Program.wp_mono (tryCreateExact_ends servable.consistent servable.acyclic
    (closed_cons d.serviceType) requests (atSlot_of_getSlot servable.pointers registered found)
    (idle.sound.of_same rfl) (idle.led _ _ d.serviceType)) ?_
  intro r after ends
  refine answered_of_ends idle ends ?_ ?_
  · rintro cs ⟨_, depth, planned⟩
    exact ⟨depth, (unfolds depth).trans planned⟩
  · intro missing depth
    rw [unfolds, missing depth]

/-- Every request returns, with the unfolding or with an error. -/
theorem serve_answered (servable : Servable descriptors) {c : Construction}
    (idle : Idle descriptors c) (request : Request) :
    (request.serve descriptors).wp (Answered descriptors request c) { c with chain := [] } := by
  have stopped (err : DiError) (notCircular : ∀ t, err ≠ .circularDependency t)
      (missing : ∀ depth, request.unfold descriptors depth = none) :
      (Program.stop (.error err) : Construct CallSite).wp (Answered descriptors request c)
        { c with chain := [] } :=
    Program.wp_stop _ ⟨⟨idle.sound.of_same rfl, idle.lockers⟩, fun _ _ kept => kept,
      notCircular, missing⟩
  cases request with
  | callSite t =>
    have requests := getCallSite_requests servable.consistent servable.acyclic (closed_cons t)
      (fuelFor descriptors)
    refine Program.wp_mono (requests t _ List.mem_cons_self (idle.sound.of_same rfl)
      (idle.led _ t t)) ?_
    intro r after ends
    refine answered_of_ends idle ends ?_ ?_
    · rintro cs ⟨_, planned⟩
      exact planned
    · exact id
  | byDescriptor index =>
    cases found : descriptors[index]? with
    | none =>
      simp only [Request.serve, found]
      exact stopped _ (by simp) fun depth => by simp [Request.unfold, found]
    | some d =>
      simp only [Request.serve, found]
      exact getCallSiteByDescriptor_answered servable idle (List.mem_of_getElem? found)
        fun depth => by simp [Request.unfold, found]
  | byLookupKey key =>
    cases found : (descriptorKeyLookup descriptors key).last with
    | none =>
      simp only [Request.serve, found]
      exact stopped _ (by simp) fun depth => by simp [Request.unfold, found]
    | some d =>
      have member := found
      rw [DescriptorCacheItem.last_eq] at member
      have registered := ((mem_populate_iff _ _ _ d).1 (List.mem_of_getLast? member)).1
      simp only [Request.serve, found]
      exact getCallSiteByDescriptor_answered servable idle registered
        fun depth => by simp [Request.unfold, found]

/-- A request leaves the factory idle and keeps what is in the cache. -/
theorem Request.step_keeps (servable : Servable descriptors) {c : Construction}
    (idle : Idle descriptors c) (request : Request) :
    ∃ after, request.step descriptors c = some after ∧ Idle descriptors after ∧
      ∀ key cs, c.callSiteCache key = some cs → after.callSiteCache key = some cs := by
  have answered := serve_answered servable idle request
  unfold Program.wp at answered
  unfold Request.step
  cases served : request.serve descriptors { c with chain := [] } with
  | mk r after =>
    rw [served] at answered
    obtain ⟨idleAfter, kept, ending⟩ := answered
    cases r with
    | ok cs => exact ⟨after, rfl, idleAfter, kept⟩
    | error stop =>
      cases stop with
      | error err => exact ⟨after, rfl, idleAfter, kept⟩
      | blocked => exact absurd ending id
      | outOfFuel => exact absurd ending id

/-- The last request of a history is made in the state that the ones before it left. -/
theorem runRequests_append_singleton (history : List Request) (request : Request) :
    runRequests descriptors (history ++ [request]) =
      (runRequests descriptors history).bind fun c => request.step descriptors c := by
  simp only [runRequests, List.foldlM_append, List.foldlM_cons, List.foldlM_nil, bind_pure]
  rfl

/-- Every history of requests runs to its end. -/
theorem runRequests_idle (servable : Servable descriptors) (history : List Request) :
    ∃ c, runRequests descriptors history = some c ∧ Idle descriptors c := by
  induction history using List.reverseRecOn with
  | nil => exact ⟨builtInServices, rfl, idle_builtInServices⟩
  | append_singleton history request inductionHypothesis =>
    obtain ⟨c, ran, idle⟩ := inductionHypothesis
    obtain ⟨after, stepped, idleAfter, _⟩ := request.step_keeps servable idle
    exact ⟨after, by rw [runRequests_append_singleton, ran, Option.bind_some, stepped], idleAfter⟩

/-- What is in the cache stays there. -/
theorem runRequests_keeps (servable : Servable descriptors) (history later : List Request)
    {c after : Construction} (ran : runRequests descriptors history = some c)
    (ranLater : runRequests descriptors (history ++ later) = some after) (key : ServiceCacheKey)
    (cs : CallSite) (kept : c.callSiteCache key = some cs) :
    after.callSiteCache key = some cs := by
  induction later using List.reverseRecOn generalizing after with
  | nil =>
    rw [List.append_nil, ran] at ranLater
    obtain rfl := Option.some.inj ranLater
    exact kept
  | append_singleton later request inductionHypothesis =>
    obtain ⟨before, ranBefore, idle⟩ := runRequests_idle servable (history ++ later)
    obtain ⟨next, stepped, _, keeps⟩ := request.step_keeps servable idle
    rw [← List.append_assoc, runRequests_append_singleton, ranBefore, Option.bind_some,
      stepped] at ranLater
    obtain rfl := Option.some.inj ranLater
    exact keeps key cs (inductionHypothesis ranBefore)

/-- Call sites are shared. Wherever the constructor of a call site in the cache has a parameter of
a registered type, the parameter is the call site that the cache has for the last descriptor of
that type, and has for ever after. -/
theorem parameter_eq_cached (servable : Servable descriptors) (history later : List Request)
    (c after : Construction) (ran : runRequests descriptors history = some c)
    (ranLater : runRequests descriptors (history ++ later) = some after) (key : ServiceCacheKey)
    (cs : CallSite) (kept : c.callSiteCache key = some cs) (cache : ResultCache) (t : ServiceType)
    (ctor : ConstructorInfo) (isConstructor : cs.site = .constructor cache t ctor) (i : Nat)
    (u : ServiceType) (isType : ctor.inTypes[i]? = some u) (d : Descriptor)
    (last : (descriptorLookup descriptors u).last = some d) :
    ∃ parameter, cs.callSites[i]? = some parameter ∧
      after.callSiteCache ⟨d.serviceType, 0⟩ = some parameter := by
  obtain ⟨_, ranSame, idle⟩ := runRequests_idle servable history
  obtain rfl := Option.some.inj (ran.symm.trans ranSame)
  have answers := idle.sound.shared key cs kept cache t ctor isConstructor
  obtain ⟨bound, rfl⟩ := List.getElem?_eq_some_iff.1 isType
  have boundParts : i < cs.callSites.length := answers.length_eq ▸ bound
  refine ⟨cs.callSites[i], List.getElem?_eq_getElem boundParts, ?_⟩
  refine runRequests_keeps servable history later ran ranLater _ _ ?_
  have registered : d ∈ (descriptorLookup descriptors ctor.inTypes[i]).all := by
    rw [DescriptorCacheItem.last_eq] at last
    exact List.mem_of_getLast? last
  cases answers.get bound boundParts with
  | builtIn same _ =>
    have reserved := servable.consistent.reserved _ d registered
    exact absurd (reserved.symm.trans same) (by simp)
  | registered d' last' isKept =>
    obtain rfl := Option.some.inj (last.symm.trans last')
    exact isKept
  | slice elem isSlice unregistered elements =>
    exact absurd (last.symm.trans unregistered) (by simp)

/-- After every history of requests, every request returns. It is answered with a call site of
the shape that the registered descriptors determine, or with an error that is not a circular
dependency when they determine none. What the cache has is never replaced. -/
theorem serve_eq_unfold (servable : Servable descriptors) (history : List Request) :
    ∃ c, runRequests descriptors history = some c ∧ ∀ request : Request,
      match request.serve descriptors { c with chain := [] } with
      | (.ok cs, after) =>
          (∃ depth, request.unfold descriptors depth = some cs.shape) ∧
          ∀ key old, c.callSiteCache key = some old → after.callSiteCache key = some old
      | (.error (.error err), after) =>
          (∀ depth, request.unfold descriptors depth = none) ∧
          (∀ t, err ≠ .circularDependency t) ∧
          ∀ key old, c.callSiteCache key = some old → after.callSiteCache key = some old
      | (.error _, _) => False := by
  obtain ⟨c, ran, idle⟩ := runRequests_idle servable history
  refine ⟨c, ran, fun request => ?_⟩
  have answered := serve_answered servable idle request
  unfold Program.wp at answered
  cases served : request.serve descriptors { c with chain := [] } with
  | mk r after =>
    rw [served] at answered
    obtain ⟨_, kept, ending⟩ := answered
    cases r with
    | ok cs => exact ⟨ending, kept⟩
    | error stop =>
      cases stop with
      | error err => exact ⟨ending.2, ending.1, kept⟩
      | blocked => exact ending
      | outOfFuel => exact ending

/-- A clock, and a report that needs the clock. -/
def sampleDescriptors : List Descriptor :=
  [{ pointer := 0, serviceType := .named "Clock", lifetime := .singleton, factory := some 0 },
    { pointer := 1, serviceType := .named "Report", lifetime := .scoped,
      ctor := some ⟨1, [.named "Clock"]⟩ }]

/-- The clock and the report can be served. -/
theorem servable_sampleDescriptors : Servable sampleDescriptors := by
  refine ⟨consistent_of_no_interfaces (by decide) (by decide), ?_, by decide⟩
  refine acyclic_of_rank (fun t => if t = .named "Clock" then 0 else 1) ?_
  rintro t u ⟨d, inside, needed⟩
  have registered : d ∈ sampleDescriptors ∧ (t ∈ d.types ∨ ∃ elem ∈ d.types, t = .slice elem) := by
    unfold filed at inside
    split at inside
    case isFalse =>
      obtain ⟨registered, named⟩ := (mem_lookup_iff t d).1 inside
      exact ⟨registered, .inl named⟩
    case isTrue =>
      cases isSlice : t.elem with
      | none => simp [isSlice] at inside
      | some elem =>
        simp only [isSlice] at inside
        obtain ⟨registered, named⟩ := (mem_lookup_iff elem d).1 inside
        exact ⟨registered, .inr ⟨elem, named, eq_slice_of_elem isSlice⟩⟩
  obtain ⟨member, served⟩ := registered
  simp only [sampleDescriptors, List.mem_cons, List.not_mem_nil, or_false] at member
  rcases member with rfl | rfl
  · simp [Descriptor.needs] at needed
  · obtain rfl : u = .named "Clock" := by simpa [Descriptor.needs] using needed
    rcases served with named | ⟨elem, _, rfl⟩
    · obtain rfl : t = .named "Report" := by simpa [Descriptor.types] using named
      simp
    · simp

/-- After every history of requests to the sample container, every further request is answered
with its unfolding. -/
theorem sample_serve_eq_unfold : Servable sampleDescriptors ∧ ∀ history : List Request,
    ∃ c, runRequests sampleDescriptors history = some c ∧ ∀ request : Request,
      match request.serve sampleDescriptors { c with chain := [] } with
      | (.ok cs, after) =>
          (∃ depth, request.unfold sampleDescriptors depth = some cs.shape) ∧
          ∀ key old, c.callSiteCache key = some old → after.callSiteCache key = some old
      | (.error (.error err), after) =>
          (∀ depth, request.unfold sampleDescriptors depth = none) ∧
          (∀ t, err ≠ .circularDependency t) ∧
          ∀ key old, c.callSiteCache key = some old → after.callSiteCache key = some old
      | (.error _, _) => False :=
  ⟨servable_sampleDescriptors, serve_eq_unfold servable_sampleDescriptors⟩

/-- The call site that the factory makes for the report. -/
def reportCallSite : CallSite :=
  .node 4 (.constructor (.scope ⟨.named "Report", 0⟩) (.named "Report") ⟨1, [.named "Clock"]⟩)
    [.node 3 (.factory (.root ⟨.named "Clock", 0⟩) (.named "Clock") 0) []]

/-- The clock that the report is given is the clock in the cache. -/
theorem report_parameter_eq_cached :
    ∃ c, runRequests sampleDescriptors [.callSite (.named "Report")] = some c ∧
      c.callSiteCache ⟨.named "Report", 0⟩ = some reportCallSite ∧
      ∃ parameter, reportCallSite.callSites[0]? = some parameter ∧
        c.callSiteCache ⟨.named "Clock", 0⟩ = some parameter := by
  have ran : ∃ c, runRequests sampleDescriptors [.callSite (.named "Report")] = some c ∧
      c.callSiteCache ⟨.named "Report", 0⟩ = some reportCallSite :=
    ⟨_, rfl, rfl⟩
  obtain ⟨c, ran, kept⟩ := ran
  exact ⟨c, ran, kept, parameter_eq_cached servable_sampleDescriptors
    [.callSite (.named "Report")] [] c c ran ran _ _ kept _ _ _ rfl 0 (.named "Clock") rfl _ rfl⟩

end Runs

end FluffyCore.Di
