import FluffyCore.Auth.ClaimsAst
import FluffyCore.Auth.JwtInterceptor

/-!
# The authorization gate

The gate looks up the policy of a method and validates the principal of the request
against it. Without a request container, or without a principal in it, the policy is
evaluated on an empty principal. A policy that negates nothing passes at least whoever
holds more claims, so the empty principal is the one it is most likely to reject: what
the gate admits without a container it admits for everyone.

The gate reads a principal only through the claims it holds. The JWT interceptor builds the
principal in two loops over maps, so what a bearer token is admitted to does not depend on
the order in which Go visits them.
-/

namespace FluffyCore.Auth

open Library.MapLoop Library.BooleanFormula

/-- `EntryPointConfig`. -/
structure EntryPointConfig where
  fullMethodName : String
  claimsAST : ClaimsValidator ClaimFact

/-- What the context of a request holds: no container, a container without a principal,
or a container with one. -/
abbrev RequestContainer : Type := Option (Option ClaimsPrincipal)

def permissionDenied : GoError := .status .permissionDenied "permission denied"

/-- `authorize`. An entry of the map may be nil; its method is open. -/
def authorize (requestContainer : RequestContainer) (fullMethod : String)
    (grpcEntrypointClaimsMap : FiniteMap String (Option EntryPointConfig))
    (enableZeroTrust : Bool) : Except GoError Unit :=
  match grpcEntrypointClaimsMap.lookup fullMethod with
  | none => if enableZeroTrust then .error permissionDenied else .ok ()
  | some none => .ok ()
  | some (some elem) =>
    let claimsPrincipal :=
      match requestContainer with
      | some (some claimsPrincipal) => claimsPrincipal
      | _ => ClaimsPrincipal.empty
    if !elem.claimsAST.validate (·.hasClaim claimsPrincipal) then .error permissionDenied
    else .ok ()

namespace ClaimsValidator

variable {Fact : Type}

mutual

/-- No element of a Not and no Not of the language. -/
def notFree : ClaimsValidator Fact → Bool
  | .claimsAST _ ands ors nots => nots.isEmpty && everyNotFree ands && everyNotFree ors
  | .orNode children => everyNotFree children
  | .andNode children => everyNotFree children
  | .notNode _ => false
  | .leafNode _ => true

def everyNotFree : List (ClaimsValidator Fact) → Bool
  | [] => true
  | v :: rest => notFree v && everyNotFree rest

end

/-- The policies of a list negate nothing if none of them does. -/
theorem everyNotFree_iff (vs : List (ClaimsValidator Fact)) :
    everyNotFree vs = true ↔ ∀ v ∈ vs, v.notFree = true := by
  induction vs with
  | nil => simp [everyNotFree]
  | cons v rest inductionHypothesis => simp [everyNotFree, inductionHypothesis]

section Monotone

variable {hasClaim hasMore : Fact → Bool} {op : Operand} {vs : List (ClaimsValidator Fact)}

/-- A list in which each policy passes with more claims passes as a whole. -/
theorem everyValidates_mono
    (each : ∀ v ∈ vs, v.validateWithOperand hasClaim op = true →
      v.validateWithOperand hasMore op = true)
    (passes : everyValidates hasClaim op vs = true) : everyValidates hasMore op vs = true := by
  simp only [everyValidates_eq, List.all_map, List.all_eq_true, Function.comp_apply, id] at passes ⊢
  exact fun v inside => each v inside (passes v inside)

/-- A list of which some policy passes still has one that passes with more claims. -/
theorem someValidates_mono
    (each : ∀ v ∈ vs, v.validateWithOperand hasClaim op = true →
      v.validateWithOperand hasMore op = true)
    (passes : someValidates hasClaim op vs = true) : someValidates hasMore op vs = true := by
  simp only [someValidates_eq, List.any_map, List.any_eq_true, Function.comp_apply, id] at passes ⊢
  obtain ⟨v, inside, held⟩ := passes
  exact ⟨v, inside, each v inside held⟩

/-- A policy without Not passes whoever has at least the facts of someone it passes.
Empty groups are no exception: their value does not depend on the facts. -/
theorem validateWithOperand_mono (more : ∀ fact, hasClaim fact = true → hasMore fact = true)
    (v : ClaimsValidator Fact) (free : v.notFree = true) (op : Operand)
    (passes : v.validateWithOperand hasClaim op = true) :
    v.validateWithOperand hasMore op = true := by
  induction v using induct generalizing op with
  | claimsAST claimFacts ands ors nots fromAnds fromOrs _ =>
    simp only [notFree, Bool.and_eq_true, everyNotFree_iff, List.isEmpty_iff] at free
    obtain ⟨⟨rfl, freeAnds⟩, freeOrs⟩ := free
    have eachAnd := fun v inside => fromAnds v inside (freeAnds v inside) .and
    have eachOr := fun v inside => fromOrs v inside (freeOrs v inside) .or
    cases op with
    | and =>
      simp only [validateWithOperand, Bool.and_eq_true, List.all_eq_true] at passes ⊢
      obtain ⟨⟨⟨facts, fromAnd⟩, fromOr⟩, _⟩ := passes
      exact ⟨⟨⟨fun fact inside => more fact (facts fact inside),
        everyValidates_mono eachAnd fromAnd⟩, everyValidates_mono eachOr fromOr⟩, rfl⟩
    | or =>
      simp only [validateWithOperand, Bool.or_eq_true, List.any_eq_true] at passes ⊢
      rcases passes with ((⟨fact, inside, held⟩ | fromAnd) | fromOr) | fromNot
      · exact .inl (.inl (.inl ⟨fact, inside, more fact held⟩))
      · exact .inl (.inl (.inr (someValidates_mono eachAnd fromAnd)))
      · exact .inl (.inr (someValidates_mono eachOr fromOr))
      · exact .inr fromNot
  | orNode children fromChildren =>
    rw [notFree, everyNotFree_iff] at free
    rw [validateWithOperand] at passes ⊢
    exact someValidates_mono (fun v inside => fromChildren v inside (free v inside) .and) passes
  | andNode children fromChildren =>
    rw [notFree, everyNotFree_iff] at free
    rw [validateWithOperand] at passes ⊢
    exact everyValidates_mono (fun v inside => fromChildren v inside (free v inside) .and) passes
  | notNode child _ => cases free
  | leafNode fact => exact more fact passes

end Monotone

end ClaimsValidator

/-- A fact that holds of a principal holds of one with more claims. -/
theorem ClaimFact.hasClaim_mono (P Q : ClaimsPrincipal) (more : ∀ c, P.Holds c → Q.Holds c)
    (fact : ClaimFact) (held : fact.hasClaim P = true) : fact.hasClaim Q = true := by
  unfold ClaimFact.hasClaim at held ⊢
  split at held
  · next typeOnly =>
    rw [if_pos typeOnly]
    obtain ⟨c, holds, typed⟩ := (P.hasClaimType_iff _).1 held
    exact (Q.hasClaimType_iff _).2 ⟨c, more c holds, typed⟩
  · next typeAndValue =>
    rw [if_neg typeAndValue]
    exact (Q.hasClaim_iff _).2 (more _ ((P.hasClaim_iff _).1 held))

/-- More claims never take a policy without Not from true to false. -/
theorem validate_mono (policy : ClaimsValidator ClaimFact) (free : policy.notFree = true)
    (P Q : ClaimsPrincipal) (more : ∀ c, P.Holds c → Q.Holds c)
    (passes : policy.validate (·.hasClaim P) = true) : policy.validate (·.hasClaim Q) = true :=
  policy.validateWithOperand_mono (ClaimFact.hasClaim_mono P Q more) free .and passes

/-- The gate admits a method with a policy exactly when the policy passes. -/
theorem authorize_ok_iff (requestContainer : RequestContainer) (fullMethod : String)
    (entrypoints : FiniteMap String (Option EntryPointConfig)) (enableZeroTrust : Bool)
    (elem : EntryPointConfig) (found : entrypoints.lookup fullMethod = some (some elem)) :
    authorize requestContainer fullMethod entrypoints enableZeroTrust = .ok () ↔
      elem.claimsAST.validate (·.hasClaim ((requestContainer.bind id).getD .empty)) = true := by
  rcases requestContainer with _ | _ | claimsPrincipal <;> simp [authorize, found]

/-- The gate answers nothing but success or a denial. -/
theorem authorize_cases (requestContainer : RequestContainer) (fullMethod : String)
    (entrypoints : FiniteMap String (Option EntryPointConfig)) (enableZeroTrust : Bool) :
    authorize requestContainer fullMethod entrypoints enableZeroTrust = .ok () ∨
      authorize requestContainer fullMethod entrypoints enableZeroTrust =
        .error permissionDenied := by
  unfold authorize
  split
  · split <;> simp
  · exact Or.inl rfl
  · rcases requestContainer with _ | _ | claimsPrincipal <;> dsimp only <;> split <;> simp

/-- A policy without Not is monotone in the claims of the principal. So the gate admits
for every principal what it admits without a container, and denies without a container
or a principal what it denies for some principal. -/
theorem gate_monotone_and_fails_closed :
    (∀ policy : ClaimsValidator ClaimFact, policy.notFree = true →
      ∀ P Q : ClaimsPrincipal, (∀ c, P.Holds c → Q.Holds c) →
        policy.validate (·.hasClaim P) = true → policy.validate (·.hasClaim Q) = true) ∧
    (∀ fullMethod entrypoints enableZeroTrust,
      (∀ elem : EntryPointConfig, entrypoints.lookup fullMethod = some (some elem) →
        elem.claimsAST.notFree = true) →
      authorize none fullMethod entrypoints enableZeroTrust = .ok () →
      ∀ principal, authorize (some (some principal)) fullMethod entrypoints enableZeroTrust =
        .ok ()) ∧
    ∀ fullMethod entrypoints enableZeroTrust, ∀ elem : EntryPointConfig,
      entrypoints.lookup fullMethod = some (some elem) → elem.claimsAST.notFree = true →
      ∀ P : ClaimsPrincipal, elem.claimsAST.validate (·.hasClaim P) = false →
      ∀ requestContainer : RequestContainer, requestContainer.bind id = none →
        authorize requestContainer fullMethod entrypoints enableZeroTrust =
          .error permissionDenied := by
  have fromEmpty : ∀ policy : ClaimsValidator ClaimFact, policy.notFree = true →
      policy.validate (·.hasClaim .empty) = true → ∀ P : ClaimsPrincipal,
        policy.validate (·.hasClaim P) = true := by
    intro policy free passes P
    exact validate_mono policy free .empty P
      (fun c holds => absurd holds (ClaimsPrincipal.not_holds_empty c)) passes
  refine ⟨validate_mono, ?_, ?_⟩
  · intro fullMethod entrypoints enableZeroTrust free admitted principal
    rcases found : entrypoints.lookup fullMethod with _ | _ | elem
    · simpa [authorize, found] using admitted
    · simp [authorize, found]
    · rw [authorize_ok_iff _ _ _ _ elem found] at admitted ⊢
      exact fromEmpty elem.claimsAST (free elem found) admitted principal
  · intro fullMethod entrypoints enableZeroTrust elem found free P rejects requestContainer missing
    refine (authorize_cases _ _ _ _).resolve_left fun admitted => ?_
    rw [authorize_ok_iff _ _ _ _ elem found, missing] at admitted
    rw [fromEmpty elem.claimsAST free admitted P] at rejects
    cases rejects

section Reports

/-- A policy that asks for a role. -/
def readersOnly : ClaimsValidator ClaimFact :=
  .claimsAST [⟨⟨"role", "reader"⟩, .claimTypeAndValue⟩] [] [] []

/-- A method for readers and a method for everyone. -/
def reportEntrypoints : FiniteMap String (Option EntryPointConfig) :=
  (Finmap.singleton "/reports/Get" (some ⟨"/reports/Get", readersOnly⟩)).insert
    "/health/Check" (some ⟨"/health/Check", .claimsAST [] [] [] []⟩)

/-- A principal with the role. -/
def reader : ClaimsPrincipal := ClaimsPrincipal.empty.addClaim ⟨"role", "reader"⟩

/-- The policies of both methods negate nothing. -/
theorem reportEntrypoints_notFree (fullMethod : String) (elem : EntryPointConfig)
    (found : reportEntrypoints.lookup fullMethod = some (some elem)) :
    elem.claimsAST.notFree = true := by
  rcases lookup_pair found with ⟨_, isReports⟩ | ⟨_, isHealth⟩
  · cases isReports
    rfl
  · cases isHealth
    rfl

/-- A reader with one more role passes the policy, readers pass the open method, and nobody
without a principal gets the reports. -/
theorem gate_monotone_reports :
    (readersOnly.notFree = true ∧ readersOnly.validate (·.hasClaim reader) = true ∧
      readersOnly.validate (·.hasClaim (reader.addClaim ⟨"role", "auditor"⟩)) = true) ∧
    (authorize none "/health/Check" reportEntrypoints true = .ok () ∧
      authorize (some (some reader)) "/health/Check" reportEntrypoints true = .ok ()) ∧
    (readersOnly.validate (·.hasClaim .empty) = false ∧
      authorize (some none) "/reports/Get" reportEntrypoints true =
        .error permissionDenied) := by
  obtain ⟨monotone, admits, denies⟩ := gate_monotone_and_fails_closed
  refine ⟨⟨rfl, by decide, ?_⟩, ⟨rfl, ?_⟩, ⟨by decide, ?_⟩⟩
  · exact monotone readersOnly rfl reader _
      (fun c held => (ClaimsPrincipal.holds_addClaim _ _ c).2 (Or.inl held)) (by decide)
  · exact admits "/health/Check" reportEntrypoints true
      (reportEntrypoints_notFree "/health/Check") rfl reader
  · exact denies "/reports/Get" reportEntrypoints true ⟨"/reports/Get", readersOnly⟩ rfl rfl
      .empty (by decide) (some none) rfl

end Reports

section Bearer

/-- The answer to a request that passes the JWT interceptor and then the gate. -/
def bearerAccess (library : JwtLibrary) (anonymousOnFailure : Bool)
    (answers : List ValidatorAnswer) (order : TransferOrder) (authorization : Authorization)
    (claimsPrincipal : ClaimsPrincipal) (fullMethod : String)
    (grpcEntrypointClaimsMap : FiniteMap String (Option EntryPointConfig))
    (enableZeroTrust : Bool) : Except GoError Unit :=
  match jwtInterceptor library anonymousOnFailure answers order authorization claimsPrincipal with
  | .rejected err => .error err
  | .handedOff claimsPrincipal _ =>
      authorize (some (some claimsPrincipal)) fullMethod grpcEntrypointClaimsMap enableZeroTrust

/-- A fact asks for held claims only. -/
theorem ClaimFact.hasClaim_congr {P Q : ClaimsPrincipal} (same : ∀ c, P.Holds c ↔ Q.Holds c)
    (fact : ClaimFact) : fact.hasClaim P = fact.hasClaim Q :=
  Bool.eq_iff_iff.2 ⟨hasClaim_mono P Q (fun c => (same c).1) fact,
    hasClaim_mono Q P (fun c => (same c).2) fact⟩

/-- The gate reads the held claims of a principal only. -/
theorem authorize_congr {P Q : ClaimsPrincipal} (same : ∀ c, P.Holds c ↔ Q.Holds c)
    (fullMethod : String) (entrypoints : FiniteMap String (Option EntryPointConfig))
    (enableZeroTrust : Bool) :
    authorize (some (some P)) fullMethod entrypoints enableZeroTrust =
      authorize (some (some Q)) fullMethod entrypoints enableZeroTrust := by
  have facts : (fun fact : ClaimFact => fact.hasClaim P) = fun fact => fact.hasClaim Q :=
    funext (ClaimFact.hasClaim_congr same)
  simp only [authorize, facts]

/-- **Access does not depend on the order of iteration.** For a token that the validators
accept, the principal that reaches the gate holds exactly the claims it held before, the
private claims of the token without the reserved types, and its subject. So the interceptor
and the gate answer a request in the same way for any two orders of the loops between them. -/
theorem bearerAccess_order (library : JwtLibrary) (anonymousOnFailure : Bool)
    (answers : List ValidatorAnswer) (authorization : Authorization) (p : ClaimsPrincipal)
    (first second : TransferOrder)
    (visits : ∀ token, validate library answers authorization = .ok token →
      first.Visits (privateClaims token) ∧ second.Visits (privateClaims token)) :
    (∀ token, validate library answers authorization = .ok token →
      ∃ principal, jwtInterceptor library anonymousOnFailure answers first authorization p =
          .handedOff principal true ∧
        ∀ c, principal.Holds c ↔ p.Holds c ∨ TokenClaim token c) ∧
    ∀ fullMethod entrypoints enableZeroTrust,
      bearerAccess library anonymousOnFailure answers first authorization p fullMethod
          entrypoints enableZeroTrust =
        bearerAccess library anonymousOnFailure answers second authorization p fullMethod
          entrypoints enableZeroTrust := by
  constructor
  · intro token accepted
    refine ⟨transferClaims token first p, by rw [jwtInterceptor, accepted], ?_⟩
    exact holds_transferClaims token first (visits token accepted).1 p
  · intro fullMethod entrypoints enableZeroTrust
    -- without an accepted token no loop is run
    cases judged : validate library answers authorization with
    | error err => simp only [bearerAccess, jwtInterceptor, judged]
    | ok token =>
      obtain ⟨visitsFirst, visitsSecond⟩ := visits token judged
      have same (c : Claim) :
          (transferClaims token first p).Holds c ↔ (transferClaims token second p).Holds c := by
        rw [holds_transferClaims token first visitsFirst, holds_transferClaims token second
          visitsSecond]
      simp only [bearerAccess, jwtInterceptor, judged]
      exact authorize_congr same fullMethod entrypoints enableZeroTrust

/-- A token with a role and two scopes. -/
def readerToken : Token where
  issuer := "issuer"
  subject := "alice"
  expiration := none
  claims := ((Finmap.singleton "role" (.scalar (.string "reader"))).insert "scope"
    (.strings ["read", "list"])).insert "iss" (.scalar (.string "issuer"))

/-- A library that decodes every token to that one. -/
def readerLibrary : JwtLibrary where
  parse _ := some readerToken
  parseMessage _ := some ("kid", "payload")
  parsePayload _ := some readerToken

/-- Without the issuer, which is registered, two claims are left to visit. -/
theorem privateClaims_readerToken : privateClaims readerToken =
    (Finmap.singleton "role" (.scalar (.string "reader"))).insert "scope"
      (.strings ["read", "list"]) := by
  rfl

/-- The claims can be visited with the role first. -/
theorem roleFirst_visits : (⟨["role", "scope"], ["role", "scope"]⟩ : TransferOrder).Visits
    (privateClaims readerToken) := by
  have scratch : IterationOrder ((Finmap.singleton "role" ["reader"]).insert "scope"
      ["read", "list"] : FiniteMap String (List String)) ["role", "scope"] :=
    (iterationOrder_pair (by decide) _ _).1
  rw [privateClaims_readerToken]
  exact ⟨(iterationOrder_pair (by decide) _ _).1, scratch⟩

/-- The claims can be visited with the scopes first. -/
theorem scopeFirst_visits : (⟨["scope", "role"], ["role", "scope"]⟩ : TransferOrder).Visits
    (privateClaims readerToken) := by
  have scratch : IterationOrder ((Finmap.singleton "scope" ["read", "list"]).insert "role"
      ["reader"] : FiniteMap String (List String)) ["role", "scope"] :=
    (iterationOrder_pair (by decide) _ _).2
  rw [privateClaims_readerToken]
  exact ⟨(iterationOrder_pair (by decide) _ _).2, scratch⟩

/-- A reader gets the reports in both orders. -/
theorem bearerAccess_order_reports :
    validate readerLibrary [⟨true, none⟩] (some ["Bearer jwt"]) = .ok readerToken ∧
    bearerAccess readerLibrary false [⟨true, none⟩] ⟨["role", "scope"], ["role", "scope"]⟩
        (some ["Bearer jwt"]) .empty "/reports/Get" reportEntrypoints true = .ok () ∧
    bearerAccess readerLibrary false [⟨true, none⟩] ⟨["scope", "role"], ["role", "scope"]⟩
        (some ["Bearer jwt"]) .empty "/reports/Get" reportEntrypoints true = .ok () := by
  have accepted : validate readerLibrary [⟨true, none⟩] (some ["Bearer jwt"]) =
      .ok readerToken := by
    rfl
  have admitted : bearerAccess readerLibrary false [⟨true, none⟩]
      ⟨["role", "scope"], ["role", "scope"]⟩ (some ["Bearer jwt"]) .empty "/reports/Get"
      reportEntrypoints true = .ok () := by
    rfl
  refine ⟨accepted, admitted, ?_⟩
  rw [← (bearerAccess_order readerLibrary false [⟨true, none⟩] (some ["Bearer jwt"]) .empty
    ⟨["role", "scope"], ["role", "scope"]⟩ ⟨["scope", "role"], ["role", "scope"]⟩ ?_).2]
  · exact admitted
  · rintro token judged
    obtain rfl := Except.ok.inj (accepted.symm.trans judged)
    exact ⟨roleFirst_visits, scopeFirst_visits⟩

end Bearer

end FluffyCore.Auth
