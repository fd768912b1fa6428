import FluffyCore.Di.Lifetimes

/-!
# Validation of scopes

With `ValidateScopes` the container walks through a call site before it is used. It rejects a
scoped service that a singleton needs, at any depth, and it notes which call sites need a scoped
service, so as to refuse them when they are requested from the root scope.

What passes under the name of its own type never lets a scoped service get into the root scope:
in every schedule, scoped services are made in the scope of their request, and kept there. But the
validator notes a call site under the type of its descriptor and asks about the type that is
requested. A descriptor also serves the interfaces it is filed under, and a request for one of
those is never refused.
-/

namespace FluffyCore.Di

open Library Library.Interleaving Relation

/-- The errors of the validator. -/
inductive ValidationError where
  | consumesScoped (serviceType singleton : ServiceType)
  | scopedFromRoot (t : ServiceType)
  | requiresScoped (t scopedService : ServiceType)
deriving DecidableEq

/-- What a visit finds: the type of the first scoped service. -/
abbrev Found := Except ValidationError (Option ServiceType)

namespace Validation

/-- Only the parts of constructors and slices are visited, each in its turn. -/
def visitCallSiteMain (site : Site) (each : Found) : Found :=
  match site with
  | .factory _ _ _ | .constant _ _ | .container => .ok none
  | .slice _ _ | .constructor _ _ _ => each

mutual

/-- Visit a call site. The state is the type of the singleton that the visit is for. -/
def visitCallSite (state : Option ServiceType) : CallSite → Found
  | .node _ site callSites =>
      match site.cache.location with
      | .root => visitCallSiteMain site (visitEach (some site.serviceType) callSites)
      | .scope =>
          if site.serviceType = .scopeFactory then .ok none
          else
            match state with
            | some singleton => .error (.consumesScoped site.serviceType singleton)
            | none =>
                match visitCallSiteMain site (visitEach none callSites) with
                | .error err => .error err
                | .ok _ => .ok (some site.serviceType)
      | .dispose | .none => visitCallSiteMain site (visitEach state callSites)

/-- Visit the parameters of a constructor or the elements of a slice. The first scoped service
is the result. -/
def visitEach (state : Option ServiceType) : List CallSite → Found
  | [] => .ok none
  | cs :: rest =>
      match visitCallSite state cs with
      | .error err => .error err
      | .ok scopedService =>
          match visitEach state rest with
          | .error err => .error err
          | .ok later => .ok (scopedService.or later)

end

end Validation

/-- The validator: for the types whose services need a scoped service, one that they need. -/
structure CallSiteValidator where
  scopedServices : ServiceType → Option ServiceType := fun _ => none

def CallSiteValidator.validateCallSite (v : CallSiteValidator) (cs : CallSite) :
    Except ValidationError CallSiteValidator :=
  match Validation.visitCallSite none cs with
  | .error err => .error err
  | .ok none => .ok v
  | .ok (some scopedService) =>
      .ok { v with
        scopedServices := Function.update v.scopedServices cs.serviceType (some scopedService) }

/-- Whether a type may be requested in a scope. -/
def CallSiteValidator.validateResolution (v : CallSiteValidator) (serviceType : ServiceType)
    (scope : Nat) : Except ValidationError Unit :=
  if scope = 0 then
    match v.scopedServices serviceType with
    | none => .ok ()
    | some scopedService =>
        if serviceType = scopedService then .error (.scopedFromRoot serviceType)
        else .error (.requiresScoped serviceType scopedService)
  else .ok ()

section Specification

/-- A call site that is scoped, or needs a scoped service. -/
def NeedsScoped (cs : CallSite) : Prop :=
  ∃ part, (part = cs ∨ Below part cs) ∧ part.cache.location = .scope

/-- A call site in which a singleton needs a scoped service. -/
def Captive (cs : CallSite) : Prop :=
  ∃ singleton part, (singleton = cs ∨ Below singleton cs) ∧ singleton.cache.location = .root ∧
    Below part singleton ∧ part.cache.location = .scope

/-- What holds of the call sites that the factory makes: only constructors and slices have parts,
and no scoped service is of the type that the validator lets pass. -/
def Regular (origin : CallSite) : Prop :=
  ∀ cs, (cs = origin ∨ Below cs origin) →
    (cs.callSites = [] ∨ (∃ cache t ctor, cs.site = .constructor cache t ctor) ∨
      ∃ cache elem, cs.site = .slice cache elem) ∧
    (cs.cache.location = .scope → cs.serviceType ≠ .scopeFactory)

variable {cs part : CallSite}

/-- What is below a call site is one of its parts or below one. -/
theorem below_iff : Below part cs ↔ ∃ child ∈ cs.callSites, part = child ∨ Below part child := by
  unfold Below
  rw [TransGen.tail'_iff]
  constructor
  · rintro ⟨child, path, inside⟩
    exact ⟨child, inside, (reflTransGen_iff_eq_or_transGen.1 path).imp_left Eq.symm⟩
  · rintro ⟨child, inside, path⟩
    exact ⟨child, reflTransGen_iff_eq_or_transGen.2 (path.imp_left Eq.symm), inside⟩

/-- The parts of a regular call site are regular. -/
theorem Regular.of_part (regular : Regular cs) (inside : part ∈ cs.callSites) : Regular part := by
  intro other below
  refine regular other (.inr ?_)
  rcases below with rfl | below
  · exact .single inside
  · exact TransGen.tail below inside

/-- A call site needs a scoped service if it is scoped or a part needs one. -/
theorem needsScoped_iff (cs : CallSite) : NeedsScoped cs ↔
    cs.cache.location = .scope ∨ ∃ child ∈ cs.callSites, NeedsScoped child := by
  constructor
  · rintro ⟨part, rfl | below, isScoped⟩
    · exact .inl isScoped
    · obtain ⟨child, inside, path⟩ := below_iff.1 below
      exact .inr ⟨child, inside, part, path, isScoped⟩
  · rintro (isScoped | ⟨child, inside, part, path, isScoped⟩)
    · exact ⟨cs, .inl rfl, isScoped⟩
    · exact ⟨part, .inr (below_iff.2 ⟨child, inside, path⟩), isScoped⟩

/-- A scoped service is captive if the call site is a singleton with a part that needs one, or if
it is captive in a part. -/
theorem captive_iff (cs : CallSite) : Captive cs ↔
    (cs.cache.location = .root ∧ ∃ child ∈ cs.callSites, NeedsScoped child) ∨
    ∃ child ∈ cs.callSites, Captive child := by
  constructor
  · rintro ⟨singleton, part, rfl | below, isRoot, needed, isScoped⟩
    · obtain ⟨child, inside, path⟩ := below_iff.1 needed
      exact .inl ⟨isRoot, child, inside, part, path, isScoped⟩
    · obtain ⟨child, inside, path⟩ := below_iff.1 below
      exact .inr ⟨child, inside, singleton, part, path, isRoot, needed, isScoped⟩
  · rintro (⟨isRoot, child, inside, part, path, isScoped⟩ |
      ⟨child, inside, singleton, part, path, isRoot, needed, isScoped⟩)
    · exact ⟨cs, part, .inl rfl, isRoot, below_iff.2 ⟨child, inside, path⟩, isScoped⟩
    · exact ⟨singleton, part, .inr (below_iff.2 ⟨child, inside, path⟩), isRoot, needed, isScoped⟩

/-- A captive service is a scoped one that is needed. -/
theorem Captive.needsScoped (captive : Captive cs) : NeedsScoped cs := by
  obtain ⟨singleton, part, path, _, needed, isScoped⟩ := captive
  refine ⟨part, .inr ?_, isScoped⟩
  rcases path with rfl | below
  · exact needed
  · exact TransGen.trans needed below

namespace Validation

/-- What the visit of a call site should find. For a singleton, any scoped service is an error;
otherwise a captive one is, and the result tells whether there is a scoped service at all. -/
structure Finds (cs : CallSite) : Prop where
  forSingleton : ∀ t, (NeedsScoped cs → ∃ err, visitCallSite (some t) cs = .error err) ∧
    (¬ NeedsScoped cs → visitCallSite (some t) cs = .ok none)
  otherwise : (Captive cs → ∃ err, visitCallSite none cs = .error err) ∧
    (¬ Captive cs → ∃ found, visitCallSite none cs = .ok found ∧
      (found.isSome ↔ NeedsScoped cs))

/-- The loop over the parts of a singleton fails exactly if a part needs a scoped service. -/
theorem visitEach_forSingleton (t : ServiceType) {callSites : List CallSite}
    (finds : ∀ part ∈ callSites, Finds part) :
    ((∃ part ∈ callSites, NeedsScoped part) → ∃ err, visitEach (some t) callSites = .error err) ∧
    ((¬ ∃ part ∈ callSites, NeedsScoped part) → visitEach (some t) callSites = .ok none) := by
  induction callSites with
  | nil => simp [visitEach]
  | cons cs rest inductionHypothesis =>
    obtain ⟨rejects, accepts⟩ := (finds cs List.mem_cons_self).forSingleton t
    obtain ⟨rejectsRest, acceptsRest⟩ :=
      inductionHypothesis fun part inside => finds part (List.mem_cons_of_mem cs inside)
    rw [List.exists_mem_cons_iff, visitEach]
    by_cases here : NeedsScoped cs
    · obtain ⟨err, isError⟩ := rejects here
      simp [here, isError]
    · by_cases later : ∃ part ∈ rest, NeedsScoped part
      · obtain ⟨err, isError⟩ := rejectsRest later
        simp [accepts here, isError, later]
      · simp [accepts here, acceptsRest later, here, later]

/-- The loop over other parts fails exactly if a service is captive in one, and otherwise tells
whether a scoped one is needed. -/
theorem visitEach_otherwise {callSites : List CallSite}
    (finds : ∀ part ∈ callSites, Finds part) :
    ((∃ part ∈ callSites, Captive part) → ∃ err, visitEach none callSites = .error err) ∧
    ((¬ ∃ part ∈ callSites, Captive part) →
      ∃ found, visitEach none callSites = .ok found ∧
        (found.isSome ↔ ∃ part ∈ callSites, NeedsScoped part)) := by
  induction callSites with
  | nil => simp [visitEach]
  | cons cs rest inductionHypothesis =>
    obtain ⟨rejects, accepts⟩ := (finds cs List.mem_cons_self).otherwise
    obtain ⟨rejectsRest, acceptsRest⟩ :=
      inductionHypothesis fun part inside => finds part (List.mem_cons_of_mem cs inside)
    rw [List.exists_mem_cons_iff, List.exists_mem_cons_iff, visitEach]
    by_cases here : Captive cs
    · obtain ⟨err, isError⟩ := rejects here
      simp [here, isError]
    · obtain ⟨found, isFound, needs⟩ := accepts here
      by_cases later : ∃ part ∈ rest, Captive part
      · obtain ⟨err, isError⟩ := rejectsRest later
        simp [isFound, isError, later]
      · obtain ⟨others, areFound, need⟩ := acceptsRest later
        simp [isFound, areFound, here, later, needs, need]

/-- For a regular call site the dispatch on its kind visits all of its parts. -/
theorem visitCallSiteMain_eq {address : Nat} {site : Site} {callSites : List CallSite}
    (regular : Regular (.node address site callSites)) (state : Option ServiceType) :
    visitCallSiteMain site (visitEach state callSites) = visitEach state callSites := by
  have shape := (regular _ (.inl rfl)).1
  rcases shape with empty | ⟨cache, t, ctor, isSite⟩ | ⟨cache, elem, isSite⟩
  · obtain rfl : callSites = [] := empty
    cases site <;> rfl
  · obtain rfl : site = .constructor cache t ctor := isSite
    rfl
  · obtain rfl : site = .slice cache elem := isSite
    rfl

/-- One call site, given what the visits of its parts find. -/
theorem Finds.node {address : Nat} {site : Site} {callSites : List CallSite}
    (regular : Regular (.node address site callSites))
    (parts : ∀ part ∈ callSites, Finds part) : Finds (.node address site callSites) := by
  have main := visitCallSiteMain_eq regular
  have unnamed := (regular _ (.inl rfl)).2
  have needs := needsScoped_iff (.node address site callSites)
  have captive := captive_iff (.node address site callSites)
  simp only [CallSite.cache, CallSite.site, CallSite.callSites, CallSite.serviceType]
    at unnamed needs captive
  obtain ⟨rejects, accepts⟩ := visitEach_otherwise parts
  cases isLocation : site.cache.location with
  | root =>
    -- the singleton itself is what its parts are visited for
    obtain ⟨rejects, accepts⟩ := visitEach_forSingleton site.serviceType parts
    have visits (state : Option ServiceType) :
        visitCallSite state (.node address site callSites) =
          visitEach (some site.serviceType) callSites := by
      simp only [visitCallSite, isLocation, main]
    have isNeed : NeedsScoped (.node address site callSites) ↔
        ∃ part ∈ callSites, NeedsScoped part := by
      simpa [isLocation] using needs
    have isCaptive : Captive (.node address site callSites) ↔
        ∃ part ∈ callSites, NeedsScoped part :=
      ⟨fun isCaptive => isNeed.1 isCaptive.needsScoped,
        fun needed => captive.2 (.inl ⟨isLocation, needed⟩)⟩
    refine ⟨fun t => ?_, ?_⟩
    · rw [isNeed, visits]
      exact ⟨rejects, accepts⟩
    · rw [isCaptive, visits]
      refine ⟨rejects, fun unneeded => ⟨none, accepts unneeded, ?_⟩⟩
      simpa [isNeed] using unneeded
  | scope =>
    have isNeed : NeedsScoped (.node address site callSites) := needs.2 (.inl isLocation)
    have isCaptive : Captive (.node address site callSites) ↔
        ∃ part ∈ callSites, Captive part := by
      simpa [isLocation] using captive
    refine ⟨fun t => ⟨fun _ => ?_, fun unneeded => absurd isNeed unneeded⟩, ?_⟩
    · simp [visitCallSite, isLocation, unnamed isLocation]
    · rw [isCaptive]
      simp only [visitCallSite, isLocation, unnamed isLocation, if_false, main]
      refine ⟨fun inside => ?_, fun outside => ?_⟩
      · obtain ⟨err, isError⟩ := rejects inside
        simp [isError]
      · obtain ⟨found, isFound, _⟩ := accepts outside
        simp [isFound, isNeed]
  | dispose | none =>
    have visits (state : Option ServiceType) :
        visitCallSite state (.node address site callSites) = visitEach state callSites := by
      simp only [visitCallSite, isLocation, main]
    have isNeed : NeedsScoped (.node address site callSites) ↔
        ∃ part ∈ callSites, NeedsScoped part := by
      simpa [isLocation] using needs
    have isCaptive : Captive (.node address site callSites) ↔
        ∃ part ∈ callSites, Captive part := by
      simpa [isLocation] using captive
    refine ⟨fun t => ?_, ?_⟩
    · rw [isNeed, visits]
      exact visitEach_forSingleton t parts
    · rw [isNeed, isCaptive, visits]
      exact ⟨rejects, accepts⟩

/-- The validator finds what it should. -/
theorem finds_of_regular (cs : CallSite) (regular : Regular cs) : Finds cs := by
  induction isSize : sizeOf cs using Nat.strong_induction_on generalizing cs with
  | h size inductionHypothesis =>
    obtain ⟨address, site, callSites⟩ := cs
    refine Finds.node regular fun part inside => ?_
    exact inductionHypothesis _ (isSize ▸ CallSite.sizeOf_lt inside) part
      (Regular.of_part regular inside) rfl

end Validation

end Specification

section Factory

variable {lookup : ServiceType → DescriptorCacheItem} {t : ServiceType} {cs : CallSite}

/-- What a descriptor unfolds to is of its type, and has parts only if it is made by a
constructor. -/
theorem planExact_site {d : Descriptor} {slot depth : Nat}
    (planned : planExact (plan lookup depth) d slot = some cs.shape) :
    cs.serviceType = d.serviceType ∧
      (cs.callSites = [] ∨ ∃ cache t ctor, cs.site = .constructor cache t ctor) := by
  unfold planExact at planned
  dsimp only at planned
  unfold CallSite.serviceType
  split at planned
  case h_1 | h_2 =>
    obtain ⟨isSite, none⟩ := shape_eq_node (Option.some.inj planned).symm
    rw [isSite]
    exact ⟨rfl, .inl (List.map_eq_nil_iff.1 none)⟩
  case h_3 =>
    obtain ⟨_, _, same⟩ := Option.map_eq_some_iff.1 planned
    obtain ⟨isSite, _⟩ := shape_eq_node same.symm
    rw [isSite]
    exact ⟨rfl, .inr ⟨_, _, _, rfl⟩⟩
  case h_4 => cases planned

/-- Call sites that come from consistent registrations are regular. -/
theorem OriginOf.regular [OwnTypes lookup] (consistent : Consistent lookup)
    (origin : OriginOf lookup t cs) :
    Regular cs := by
  intro part inside
  have upwards : ReflTransGen (fun part whole => part ∈ whole.callSites) part cs := by
    rcases inside with rfl | inside
    · exact .refl
    · exact inside.to_reflTransGen
  obtain ⟨u, _, made⟩ := origin.of_below upwards
  cases made with
  | builtIn same =>
    refine ⟨.inl (callSites_of_builtIn same), fun isScoped => ?_⟩
    cases isCache : part.cache <;> simp [isCache, ResultCache.location] at isScoped
    exact absurd isCache (not_inScope_of_builtIn same _)
  | descriptor d slot depth found planned =>
    obtain ⟨isType, parts⟩ := planExact_site planned
    refine ⟨parts.imp_right .inl, fun _ => ?_⟩
    have free := consistent.reserved _ _ (mem_own (mem_filed_of_atSlot found))
    rw [isType]
    intro reserved
    rw [reserved] at free
    cases free
  | slice elem depth isSlice unregistered planned =>
    unfold planSlice at planned
    obtain ⟨_, _, same⟩ := Option.map_eq_some_iff.1 planned
    obtain ⟨isSite, _⟩ := shape_eq_node same.symm
    refine ⟨.inr (.inr ⟨_, _, isSite⟩), fun _ => ?_⟩
    simp [CallSite.serviceType, isSite, Site.serviceType]

end Factory

section Admission

variable {descriptors : List Descriptor} {admits : CallSite → Nat → Bool} {cs : CallSite}
  {scope : Nat}

/-- The validator after it was asked to validate a number of call sites. -/
def validatorAfter (history : List CallSite) : CallSiteValidator :=
  history.foldl (fun v cs => match v.validateCallSite cs with
    | .ok v' => v'
    | .error _ => v) {}

/-- A request that `GetWithScope` lets pass: its call site has been validated, and the validator
has no objection to the requested type in this scope. -/
def Admissible (requested : ServiceType) (cs : CallSite) (scope : Nat) : Prop :=
  ∃ history, cs ∈ history ∧ (∃ v, ({} : CallSiteValidator).validateCallSite cs = .ok v) ∧
    (validatorAfter history).validateResolution requested scope = .ok ()

/-- A request from the root scope for what needs a scoped service is for the type of the call
site, not for an interface that its descriptor is filed under. -/
def Direct (requested : ServiceType) (cs : CallSite) (scope : Nat) : Prop :=
  scope = 0 → NeedsScoped cs → cs.serviceType = requested

/-- Validating a call site forgets no type that was noted. -/
theorem scopedServices_validateCallSite {v v' : CallSiteValidator} {t : ServiceType}
    (validated : v.validateCallSite cs = .ok v') (noted : v.scopedServices t ≠ none) :
    v'.scopedServices t ≠ none := by
  unfold CallSiteValidator.validateCallSite at validated
  split at validated
  · cases validated
  · obtain rfl := Except.ok.inj validated
    exact noted
  · obtain rfl := Except.ok.inj validated
    by_cases same : t = cs.serviceType
    · simp [same]
    · simpa [same] using noted

/-- The validator remembers which types need a scoped service. -/
theorem scopedServices_validatorAfter {history : List CallSite} (validated : cs ∈ history)
    {scopedService : ServiceType}
    (found : Validation.visitCallSite none cs = .ok (some scopedService)) :
    (validatorAfter history).scopedServices cs.serviceType ≠ none := by
  induction history using List.reverseRecOn with
  | nil => cases validated
  | append_singleton history last inductionHypothesis =>
    simp only [validatorAfter, List.foldl_append, List.foldl_cons, List.foldl_nil]
    change (match (validatorAfter history).validateCallSite last with
      | .ok v' => v'
      | .error _ => validatorAfter history).scopedServices cs.serviceType ≠ none
    rcases List.mem_append.1 validated with earlier | isLast
    · have noted := inductionHypothesis earlier
      split
      case h_1 v' isValid => exact scopedServices_validateCallSite isValid noted
      case h_2 => exact noted
    · obtain rfl := List.mem_singleton.1 isLast
      simp [CallSiteValidator.validateCallSite, found]

/-- What passes has no captive service, and in the root scope it has no scoped service at all if
it is requested by its own type. -/
theorem Admissible.safe {requested : ServiceType} (admissible : Admissible requested cs scope)
    (direct : Direct requested cs scope) (regular : Regular cs) :
    ¬ Captive cs ∧ (scope = 0 → ¬ NeedsScoped cs) := by
  obtain ⟨history, validated, ⟨v, isValid⟩, allowed⟩ := admissible
  obtain ⟨rejects, accepts⟩ := (Validation.finds_of_regular cs regular).otherwise
  have uncaptive : ¬ Captive cs := by
    intro captive
    obtain ⟨err, isError⟩ := rejects captive
    simp [CallSiteValidator.validateCallSite, isError] at isValid
  refine ⟨uncaptive, ?_⟩
  rintro rfl needed
  obtain rfl := direct rfl needed
  obtain ⟨found, isFound, needs⟩ := accepts uncaptive
  obtain ⟨scopedService, rfl⟩ := Option.isSome_iff_exists.1 (needs.2 needed)
  obtain ⟨noted, isNoted⟩ :=
    Option.ne_none_iff_exists'.1 (scopedServices_validatorAfter validated isFound)
  simp only [CallSiteValidator.validateResolution, if_true, isNoted] at allowed
  split at allowed <;> cases allowed

/-- Of the call sites that the factory makes, the validator accepts those in which no singleton
needs a scoped service, at any depth, and no others. -/
theorem validateCallSite_ok_iff (servable : Servable descriptors) (cs : CallSite)
    (unfolds : Unfolds descriptors cs) (v : CallSiteValidator) :
    (∃ v', v.validateCallSite cs = .ok v') ↔ ¬ Captive cs := by
  obtain ⟨t, origin⟩ := originOf_unfolds servable unfolds
  obtain ⟨rejects, accepts⟩ :=
    (Validation.finds_of_regular cs (origin.regular servable.consistent)).otherwise
  constructor
  · rintro ⟨v', isValid⟩ captive
    obtain ⟨err, isError⟩ := rejects captive
    simp [CallSiteValidator.validateCallSite, isError] at isValid
  · intro uncaptive
    obtain ⟨found, isFound, _⟩ := accepts uncaptive
    cases found with
    | none => exact ⟨v, by simp [CallSiteValidator.validateCallSite, isFound]⟩
    | some t => simp [CallSiteValidator.validateCallSite, isFound]

/-- The report is validated exactly if no scoped service is captive in it. -/
theorem report_validateCallSite :
    (∃ v', ({} : CallSiteValidator).validateCallSite reportCallSite = .ok v') ↔
      ¬ Captive reportCallSite :=
  validateCallSite_ok_iff servable_sampleDescriptors reportCallSite
    ⟨.callSite (.named "Report"), 2, rfl⟩ {}

/-- A visit that cannot bring a scoped service into the root scope. -/
def Safe (ctx : ResolverContext) (cs : CallSite) : Prop :=
  ¬ Captive cs ∧ (ctx.scope = 0 → ¬ NeedsScoped cs)

/-- If the visit that a call began with is safe, all its visits are. -/
theorem Awaited.safe {origin : CallSite} {stack : List Activation} {ctx : ResolverContext}
    (awaited : Awaited origin scope stack cs ctx) (safe : Safe ⟨scope, false⟩ origin) :
    Safe ctx cs := by
  induction awaited with
  | origin => exact safe
  | @part a rest cs todo _ parts next inductionHypothesis =>
    obtain ⟨uncaptive, unneeded⟩ := inductionHypothesis
    have inside : cs ∈ a.callSite.callSites := by simp [← parts, next]
    refine ⟨fun captive => uncaptive ((captive_iff _).2 (.inr ⟨cs, inside, captive⟩)), ?_⟩
    intro root needed
    have wholeNeeds : NeedsScoped a.callSite := (needsScoped_iff _).2 (.inr ⟨cs, inside, needed⟩)
    have outside : a.ctx.scope ≠ 0 := fun isRoot => unneeded isRoot wholeNeeds
    -- outside the root scope, only a singleton is made in the root scope
    have isRoot : a.callSite.cache.location = .root := by
      unfold Activation.inner Activation.handling handling at root
      cases isCache : a.callSite.cache <;> simp_all [ResultCache.location]
    exact uncaptive ((captive_iff _).2 (.inl ⟨isRoot, cs, inside, needed⟩))

/-- An admitted request begins with a safe visit. -/
theorem safe_of_admitted {r : Resolution} (regular : Regular r.callSite)
    (admissible : ∀ scope, admits r.callSite scope = true → ∃ requested,
      Admissible requested r.callSite scope ∧ Direct requested r.callSite scope)
    (admitted : Admitted admits r) : Safe ⟨r.scope, false⟩ r.callSite := by
  obtain ⟨scope, isAdmitted, isHome⟩ := admitted
  obtain ⟨requested, passes, direct⟩ := admissible scope isAdmitted
  obtain ⟨uncaptive, unneeded⟩ := passes.safe direct regular
  refine ⟨uncaptive, fun root needed => ?_⟩
  simp only [isHome, home] at root
  split at root
  case isTrue isRoot =>
    have parts : ∃ child ∈ r.callSite.callSites, NeedsScoped child := by
      simpa [isRoot] using (needsScoped_iff _).1 needed
    exact uncaptive ((captive_iff _).2 (.inl ⟨isRoot, parts⟩))
  case isFalse => exact unneeded root needed

/-- What is wanted: scoped services are neither made in the root scope nor kept there. -/
structure ScopedOutside (s : Engine) : Prop where
  values : ∀ cs, cs.cache.location = .scope → s.values cs = none
  created : ∀ id cs ctx parameters result, .created id cs ctx parameters result ∈ s.log →
    cs.cache.location = .scope → ctx.scope ≠ 0

/-- The requests that are admitted are for call sites of the factory that were validated, and
those from the root scope are direct. -/
structure Checked (admits : CallSite → Nat → Bool) : Prop where
  regular : ∀ cs scope, admits cs scope = true → Regular cs
  admissible : ∀ cs scope, admits cs scope = true → ∃ requested,
    Admissible requested cs scope ∧ Direct requested cs scope

variable {s s' : Engine} {r r' : Resolution} {id : Nat}

/-- A scoped service is visited outside the root scope. -/
theorem Checked.outside (checked : Checked admits) (fits : Fits admits r) {a : Activation}
    {rest : List Activation} (top : r.stack = a :: rest)
    (isScoped : a.callSite.cache.location = .scope) :
    a.handling ≠ .rootCache ∧ a.inner.scope ≠ 0 := by
  obtain ⟨admitted, entered⟩ := fits.entered top
  have safe : Safe ⟨r.scope, false⟩ r.callSite := by
    refine safe_of_admitted ?_ (checked.admissible r.callSite) admitted
    obtain ⟨scope, isAdmitted, _⟩ := admitted
    exact checked.regular _ scope isAdmitted
  have outside : a.ctx.scope ≠ 0 := fun root =>
    (entered.1.safe safe).2 root ((needsScoped_iff _).2 (.inl isScoped))
  unfold Activation.inner Activation.handling handling
  cases isCache : a.callSite.cache <;> simp_all [ResultCache.location]

/-- A step of a checked `Get` neither makes a scoped service in the root scope nor keeps one
there. -/
theorem ScopedOutside.step (outside : ScopedOutside s) (checked : Checked admits)
    (fits : Fits admits r) (step : GetStep admits s r id s' r') : ScopedOutside s' := by
  constructor
  · intro cs isScoped
    have before := outside.values cs isScoped
    rcases step.values with same | ⟨a, rest, value, top, isRoot, isSet⟩
    · rw [same, before]
    · have different : cs ≠ a.callSite := by
        rintro rfl
        exact (checked.outside fits top isScoped).1 isRoot
      rw [isSet, Function.update_of_ne different, before]
  · intro id' cs ctx parameters result member isScoped
    have earlier := outside.created id' cs ctx parameters result
    cases step with
    | looks | enters | receives => exact earlier member isScoped
    | entersRoot => exact earlier member isScoped
    | entersScope => exact earlier (by split at member <;> exact member) isScoped
    | settles => exact earlier (by simpa using member) isScoped
    | refuses => exact earlier (by simpa using member) isScoped
    | accepts => exact earlier (by simpa using member) isScoped
    | creates a rest v here top =>
      rcases List.mem_append.1 member with before | last
      · exact earlier before isScoped
      · simp only [List.mem_singleton, Event.created.injEq] at last
        obtain ⟨_, rfl, rfl, _, _⟩ := last
        exact (checked.outside fits top isScoped).2

/-- A step of `Dispose` makes nothing and keeps nothing. -/
theorem ScopedOutside.dispose (outside : ScopedOutside s) {d d' : Disposal}
    (step : DisposeStep s id d s' d') : ScopedOutside s' := by
  constructor
  · intro cs isScoped
    have same : s'.values = s.values := congrArg Holdings.values step.holdings
    rw [same, outside.values cs isScoped]
  · intro id' cs ctx parameters result member isScoped
    refine outside.created id' cs ctx parameters result ?_ isScoped
    cases step with
    | container | late | marks | takes | ends => exact member
    | swaps => simpa using member
    | closes => simpa using member

/-- Of checked requests, no schedule brings a scoped service into the root scope. -/
theorem scoped_outside (checked : Checked admits) :
    (containerSystem admits).InvariantGiven MutexTable (Holding admits)
      (fun _ s => ScopedOutside s) (fun _ _ _ => True) where
  initially := ⟨fun _ _ => rfl, fun _ _ _ _ _ member => by cases member⟩
  begins operation count s table outside := ⟨outside, trivial⟩
  moves choice count id s call s' call' isCall table holding outside _ moved := by
    rcases Call.move_step moved with ⟨r, r', rfl, rfl, step⟩ | ⟨d, d', rfl, rfl, step⟩
    · exact ⟨outside.step checked holding.fits step, trivial⟩
    · exact ⟨outside.dispose step, trivial⟩
  interferes := by simp
  events event := event.elim

/-- With validated scopes, in every schedule, no scoped service is made in the root scope or kept
there, as long as what needs one is not requested from the root scope by an interface. -/
theorem scoped_never_in_root (servable : Servable descriptors)
    (admitted : ∀ cs scope, admits cs scope = true → Unfolds descriptors cs ∧
      ∃ requested, Admissible requested cs scope ∧ Direct requested cs scope)
    (schedule : List (Action Operation Choice Empty)) (config : Config Engine Call)
    (ran : (containerSystem admits).run schedule = some config) :
    ScopedOutside config.shared := by
  have checked : Checked admits := by
    refine ⟨fun cs scope isAdmitted => ?_,
      fun cs scope isAdmitted => (admitted cs scope isAdmitted).2⟩
    obtain ⟨t, origin⟩ := originOf_unfolds servable (admitted cs scope isAdmitted).1
    exact origin.regular servable.consistent
  exact (((mutex_invariant admits).and (scoped_outside checked)).run schedule config ran).1.2

/-- Clocks are singletons, so they may be requested anywhere. Reports are scoped, so they may be
requested in every scope but the root. -/
def admitsChecked (cs : CallSite) (scope : Nat) : Bool :=
  decide (cs = clockCallSite) || decide (cs = reportCallSite ∧ scope ≠ 0)

/-- Reports are requested in two scopes, a clock and a report from the root scope. -/
def checkedSchedule : List (Action Operation Choice Empty) :=
  reportSchedule ++ [.call (.containerGet clockCallSite), .call (.containerGet reportCallSite)] ++
    List.replicate 2 (.move 2 .proceed) ++ [.move 3 .proceed]

/-- The validated report, requested in two scopes, keeps its scoped part out of the root scope. -/
theorem report_never_in_root : ∃ config,
    (containerSystem admitsChecked).run checkedSchedule = some config ∧
      ScopedOutside config.shared := by
  have runs : ((containerSystem admitsChecked).run checkedSchedule).isSome := by decide +kernel
  obtain ⟨config, ran⟩ := Option.isSome_iff_exists.1 runs
  refine ⟨config, ran,
    scoped_never_in_root servable_sampleDescriptors ?_ checkedSchedule config ran⟩
  intro cs scope isAdmitted
  simp only [admitsChecked, Bool.or_eq_true, decide_eq_true_eq] at isAdmitted
  rcases isAdmitted with rfl | ⟨rfl, outside⟩
  · refine ⟨⟨.callSite (.named "Clock"), 2, rfl⟩, .named "Clock",
      ⟨[clockCallSite], List.mem_singleton_self _, ⟨_, rfl⟩, ?_⟩, fun _ _ => rfl⟩
    by_cases isRoot : scope = 0
    · subst isRoot
      rfl
    · simp [CallSiteValidator.validateResolution, isRoot]
  · refine ⟨⟨.callSite (.named "Report"), 2, rfl⟩, .named "Report",
      ⟨[reportCallSite], List.mem_singleton_self _, ⟨_, rfl⟩, ?_⟩, fun _ _ => rfl⟩
    simp [CallSiteValidator.validateResolution, outside]

end Admission

section Interfaces

variable {descriptors : List Descriptor} {admits : CallSite → Nat → Bool} {cs : CallSite}
  {t : ServiceType}

end Interfaces

end FluffyCore.Di
