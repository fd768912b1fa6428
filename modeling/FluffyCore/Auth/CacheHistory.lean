import FluffyCore.Auth.ReservedClaims

/-!
# What requests leave in the cache

The observations recorded on a request and the history of the cache fit together.
A request's handler is entered with the claims the reference-token interceptor found
and the claims the token contributed, as far as they are not reserved. What a request
writes to the cache is what its token contributed, and a request answered from the
cache is given what the write holds.
-/

namespace FluffyCore.Auth

open Library.MapLoop Library.ExpiringCache Library.Reachability

/-- A delegation's TTL is the capped one, and its key is empty when the JWT had
already expired. -/
def CappedBy (server : Server) (d : Delegation) : Prop :=
  d.ttl = (capTTLToJWTExpiry server.library d.cappedAt d.baseTTL d.rawJWT).1 ∧
    (d.cacheKey ≠ "" →
      (capTTLToJWTExpiry server.library d.cappedAt d.baseTTL d.rawJWT).2 = true)

/-- A resolution to a JWT is capped at the moment it is made and remembers the
claims it found. -/
theorem resolve_delegate (server : Server) (now : Int) (r : Request) (cacheKey : String)
    (visited : List String) (order : TransferOrder) (answers : List ResolverAnswer)
    (d : Delegation)
    (resolved : server.resolution now r cacheKey visited order answers = .delegateToJWT d) :
    CappedBy server d ∧ d.claimsBefore = r.principal.getClaims visited ∧ d.cappedAt = now := by
  unfold Server.resolution Config.resolve at resolved
  split at resolved
  · cases resolved
  · cases resolved
  · dsimp only at resolved
    split at resolved
    · obtain rfl := ResolveOutcome.delegateToJWT.inj resolved
      refine ⟨⟨rfl, fun keyed => ?_⟩, rfl, rfl⟩
      by_contra expired
      exact keyed (if_neg expired)
    · cases resolved
    · cases resolved

/-- The JWT interceptor only adds claims. -/
theorem jwtInterceptor_adds (library : JwtLibrary) (anonymousOnFailure : Bool)
    (answers : List ValidatorAnswer) (order : TransferOrder) (authorization : Authorization)
    (p principal : ClaimsPrincipal) (validated : Bool)
    (judged : jwtInterceptor library anonymousOnFailure answers order authorization p =
      .handedOff principal validated) (c : Claim) (held : p.Holds c) : principal.Holds c := by
  unfold jwtInterceptor at judged
  split at judged
  · split at judged
    · obtain ⟨rfl, rfl⟩ := JwtOutcome.handedOff.inj judged
      exact (ClaimsPrincipal.holds_addClaim _ _ _).2 (Or.inl held)
    · cases judged
  · next token _ =>
    obtain ⟨rfl, rfl⟩ := JwtOutcome.handedOff.inj judged
    have transferred : (p.addClaims (tokenClaims token order)).Holds c :=
      (ClaimsPrincipal.holds_addClaims _ _ _).2 (Or.inl held)
    unfold transferClaims
    dsimp only
    split
    · exact (ClaimsPrincipal.holds_addClaim _ _ _).2 (Or.inl transferred)
    · exact transferred

/-- The interceptor's branches, by the verdict on the token. -/
theorem jwtInterceptor_verdict (library : JwtLibrary) (anonymousOnFailure : Bool)
    (answers : List ValidatorAnswer) (order : TransferOrder) (authorization : Authorization)
    (p principal : ClaimsPrincipal) (validated : Bool)
    (judged : jwtInterceptor library anonymousOnFailure answers order authorization p =
      .handedOff principal validated) :
    validated = (validate library answers authorization).isOk ∧
      ∀ err, validate library answers authorization = .error err →
        (anonymousOnFailure || err.isNotFound) = true ∧ principal = p.addClaim anonymousClaim := by
  unfold jwtInterceptor at judged
  split at judged
  · next err failed =>
    split at judged
    · next goesOn =>
      obtain ⟨rfl, rfl⟩ := JwtOutcome.handedOff.inj judged
      refine ⟨by rw [failed]; rfl, fun other same => ?_⟩
      obtain rfl : err = other := Except.error.inj (failed.symm.trans same)
      exact ⟨goesOn, rfl⟩
    · cases judged
  · next token accepted =>
    obtain ⟨rfl, rfl⟩ := JwtOutcome.handedOff.inj judged
    refine ⟨by rw [accepted]; rfl, fun err failed => ?_⟩
    cases accepted.symm.trans failed

/-- A rejected request had its token judged invalid and may not go on. -/
theorem jwtInterceptor_rejects (library : JwtLibrary) (anonymousOnFailure : Bool)
    (answers : List ValidatorAnswer) (order : TransferOrder) (authorization : Authorization)
    (p : ClaimsPrincipal) (err : GoError)
    (judged : jwtInterceptor library anonymousOnFailure answers order authorization p =
      .rejected err) :
    validate library answers authorization = .error err ∧
      (anonymousOnFailure || err.isNotFound) = false := by
  unfold jwtInterceptor at judged
  split at judged
  · next failure failed =>
    split at judged
    · cases judged
    · next stops =>
      obtain rfl := JwtOutcome.rejected.inj judged
      exact ⟨failed, by simpa using stops⟩
  · cases judged

/-- A principal made of what the interceptor found and what the token contributed,
as far as claims have a type that is not reserved. -/
def Contributed (r : Request) (p : ClaimsPrincipal) : Prop :=
  ∃ found, r.atResolve = some found ∧ ∀ claims, r.contributed = some claims →
    ∀ c : Claim, c.reserved = false → c.type ≠ "" → (p.Holds c ↔ found.Holds c ∨ c ∈ claims)

/-- A capture belongs to the request's delegation and verdict. -/
def Captured (r : Request) : Option Capture → Prop
  | none => r.delegation = none
  | some capture => r.delegation = some capture.delegation ∧
      r.contributed = some capture.claimsToCache ∧
      ∃ verdict, r.verdict = some verdict ∧ capture.validated = verdict.isOk

/-- What is recorded on a request in each phase. -/
def RecordedPhase (r : Request) : RequestPhase → Prop
  | .mtls => r.delegation = none ∧ r.verdict = none ∧ r.contributed = none ∧ r.entered = none
  | .token => r.delegation = none ∧ r.verdict = none ∧ r.contributed = none ∧ r.entered = none
  | .resolving _ => r.atResolve = some r.principal ∧ r.delegation = none ∧ r.verdict = none ∧
      r.contributed = none ∧ r.entered = none
  | .validating delegation => r.atResolve = some r.principal ∧ r.delegation = delegation ∧
      r.verdict = none ∧ r.contributed = none ∧ r.entered = none ∧
      ∀ d, delegation = some d → ∀ c, c ∈ d.claimsBefore ↔ r.principal.Holds c
  | .handed capture => Contributed r r.principal ∧ Captured r capture ∧ r.entered = none
  | .handling capture => Captured r capture
  | .finished => True

/-- What is recorded of a JWT that was judged invalid: whether the request went on,
and whether its token contributed anything. -/
def Judged (server : Server) (r : Request) : Prop :=
  ∀ d err, r.delegation = some d → r.verdict = some (.error err) →
    (r.contributed.isSome ↔
      (server.anonymousOnFailure r.transport || err.isNotFound) = true) ∧
    ∀ claims found, r.contributed = some claims → r.atResolve = some found →
      (claims = [] ↔ found.Holds anonymousClaim)

structure Recorded (server : Server) (r : Request) : Prop where
  phase : RecordedPhase r r.phase
  entered : ∀ p, r.entered = some p → Contributed r p
  capped : ∀ d, r.delegation = some d → CappedBy server d
  judged : Judged server r

/-- Nothing is recorded of a request that has just arrived. -/
theorem arrival_recorded (server : Server) (transport : Transport) (connection : Connection)
    (authorization : Authorization) (principal : ClaimsPrincipal) :
    Recorded server (server.arrival transport connection authorization principal) := by
  refine ⟨?_, nofun, nofun, nofun⟩
  unfold Server.arrival
  cases server.mtlsFirst <;> exact ⟨rfl, rfl, rfl, rfl⟩

/-- The claims a capture caches: those the principal gained since the resolution. -/
theorem mem_captureAt (found principal : ClaimsPrincipal) (visited : List String)
    (validated : Bool) (d : Delegation) (visits : IterationOrder principal.claims visited)
    (before : ∀ c, c ∈ d.claimsBefore ↔ found.Holds c) (c : Claim) :
    c ∈ (captureAt principal visited validated d).claimsToCache ↔
      principal.Holds c ∧ ¬ found.Holds c ∧ c.reserved = false := by
  rw [mem_claimsToCache, captureAt, before, ClaimsPrincipal.mem_getClaims principal visited visits]

/-- A token judged invalid contributes the anonymous subject, unless it is there. -/
theorem anonymous_contribution (found : ClaimsPrincipal) (visited : List String)
    (validated : Bool) (d : Delegation)
    (visits : IterationOrder (found.addClaim anonymousClaim).claims visited)
    (before : ∀ c, c ∈ d.claimsBefore ↔ found.Holds c) :
    (captureAt (found.addClaim anonymousClaim) visited validated d).claimsToCache = [] ↔
      found.Holds anonymousClaim := by
  have contributes := mem_captureAt found _ visited validated d visits before
  constructor
  · intro nothing
    by_contra missing
    have inside := (contributes anonymousClaim).2
      ⟨(ClaimsPrincipal.holds_addClaim _ _ _).2 (Or.inr ⟨rfl, by decide⟩), missing,
        subject_unreserved _⟩
    rw [nothing] at inside
    cases inside
  · intro held
    refine List.eq_nil_iff_forall_not_mem.2 fun c inside => ?_
    obtain ⟨holds, missing, _⟩ := (contributes c).1 inside
    rcases (ClaimsPrincipal.holds_addClaim _ _ _).1 holds with old | ⟨rfl, _⟩
    · exact missing old
    · exact missing held

/-- Whatever is asked of an observation holds while it has not been made. -/
theorem forall_unmade {α : Type} {observation : Option α} {property : α → Prop}
    (unmade : observation = none) : ∀ value, observation = some value → property value := by
  intro value made
  cases unmade.symm.trans made

/-- The handoff of the JWT interceptor is recorded as it should be. -/
theorem handOff_recorded (server : Server) (r : Request) (inv : Recorded server r)
    (delegation : Option Delegation) (answers : List ValidatorAnswer) (order : TransferOrder)
    (principal : ClaimsPrincipal) (validated : Bool) (visited : List String)
    (phase : r.phase = .validating delegation)
    (judged : jwtInterceptor server.library (server.anonymousOnFailure r.transport) answers order
      r.authorization r.principal = .handedOff principal validated)
    (visits : IterationOrder principal.claims visited) :
    Recorded server (r.handOff principal (delegation.map (captureAt principal visited validated))
      (validate server.library answers r.authorization)) := by
  have phases := inv.phase
  rw [phase] at phases
  obtain ⟨resolve, delegated, _, _, notEntered, before⟩ := phases
  obtain ⟨verdict, failure⟩ := jwtInterceptor_verdict _ _ _ _ _ _ _ _ judged
  refine ⟨⟨?_, ?_, notEntered⟩, ?_, inv.capped, ?_⟩
  · refine ⟨r.principal, resolve, fun claims contributed c unreserved _ => ?_⟩
    cases delegation with
    | none => cases contributed
    | some d =>
      obtain rfl := Option.some.inj contributed
      change principal.Holds c ↔ _
      rw [mem_captureAt r.principal principal visited validated d visits (before d rfl)]
      have adds := jwtInterceptor_adds _ _ _ _ _ _ _ _ judged c
      by_cases held : r.principal.Holds c
      · simp [held, adds held]
      · simp [held, unreserved]
  · cases delegation with
    | none => exact delegated
    | some d => exact ⟨delegated, rfl, _, rfl, verdict⟩
  · exact forall_unmade notEntered
  · intro d err isDelegated failed
    obtain rfl : delegation = some d := delegated.symm.trans isDelegated
    have failed' : validate server.library answers r.authorization = .error err :=
      Option.some.inj failed
    obtain ⟨goesOn, rfl⟩ := failure err failed'
    refine ⟨⟨fun _ => goesOn, fun _ => rfl⟩, fun claims found contributed isFound => ?_⟩
    obtain rfl := Option.some.inj contributed
    obtain rfl : r.principal = found := Option.some.inj (resolve.symm.trans isFound)
    exact anonymous_contribution r.principal visited validated d visits (before d rfl)

/-- While no token is delegated and no handler is entered, the phase is all there is to say. -/
theorem Recorded.of_undelegated {server : Server} {r : Request}
    (phase : RecordedPhase r r.phase) (undelegated : r.delegation = none)
    (notEntered : r.entered = none) : Recorded server r where
  phase := phase
  entered := forall_unmade notEntered
  capped := forall_unmade undelegated
  judged d _ isDelegated := by
    cases undelegated.symm.trans isDelegated

/-- Every step of a request records what it does. -/
theorem advance_recorded (server : Server) (now : Int) (cache : Cache String Cached)
    (r r' : Request) (effect : Effect) (inv : Recorded server r)
    (moved : Advance server now cache r r' effect) : Recorded server r' := by
  have phases := inv.phase
  cases moved with
  | mtls phase =>
    rw [phase] at phases
    exact ⟨phases, inv.entered, inv.capped, inv.judged⟩
  | tokenError err phase examined => exact ⟨trivial, inv.entered, inv.capped, inv.judged⟩
  | passThrough phase examined =>
    rw [phase] at phases
    obtain ⟨undelegated, unjudged, uncontributed, notEntered⟩ := phases
    exact .of_undelegated ⟨rfl, undelegated, unjudged, uncontributed, notEntered, nofun⟩
      undelegated notEntered
  | hit claims write phase examined =>
    rw [phase] at phases
    obtain ⟨undelegated, unjudged, uncontributed, notEntered⟩ := phases
    refine .of_undelegated ⟨⟨r.principal, rfl, fun l contributed c _ typed => ?_⟩, undelegated,
      notEntered⟩ undelegated notEntered
    obtain rfl := Option.some.inj contributed
    simp [ClaimsPrincipal.holds_addClaims, typed]
  | miss cacheKey phase examined =>
    rw [phase] at phases
    obtain ⟨undelegated, unjudged, uncontributed, notEntered⟩ := phases
    exact .of_undelegated ⟨rfl, undelegated, unjudged, uncontributed, notEntered⟩ undelegated
      notEntered
  | resolveError cacheKey visited order answers err phase visits resolved =>
    exact ⟨trivial, inv.entered, inv.capped, inv.judged⟩
  | resolveDirect cacheKey visited order answers claims ttl phase visits orders resolved =>
    rw [phase] at phases
    obtain ⟨resolve, undelegated, unjudged, uncontributed, notEntered⟩ := phases
    refine .of_undelegated ⟨⟨r.principal, resolve, fun l contributed c _ typed => ?_⟩, undelegated,
      notEntered⟩ undelegated notEntered
    obtain rfl := Option.some.inj contributed
    simp [ClaimsPrincipal.holds_addClaims, typed]
  | resolveJwt cacheKey visited order answers delegation phase visits resolved =>
    rw [phase] at phases
    obtain ⟨resolve, undelegated, unjudged, uncontributed, notEntered⟩ := phases
    obtain ⟨capped, before, _⟩ :=
      resolve_delegate server now r cacheKey visited order answers delegation resolved
    refine ⟨⟨resolve, rfl, unjudged, uncontributed, notEntered, fun d same c => ?_⟩, ?_, ?_, ?_⟩
    · obtain rfl := Option.some.inj same
      rw [before, ClaimsPrincipal.mem_getClaims r.principal visited visits]
    · exact forall_unmade notEntered
    · exact fun d same => Option.some.inj same ▸ capped
    · exact fun d err _ isJudged => nomatch unjudged.symm.trans isJudged
  | reject delegation answers order err phase judged =>
    rw [phase] at phases
    obtain ⟨resolve, delegated, _, uncontributed, notEntered, _⟩ := phases
    obtain ⟨failed, stops⟩ := jwtInterceptor_rejects _ _ _ _ _ _ _ judged
    refine ⟨trivial, inv.entered, inv.capped, fun d other _ same => ?_⟩
    obtain rfl : err = other := Except.error.inj (failed.symm.trans (Option.some.inj same))
    refine ⟨?_, fun claims found contributed => nomatch uncontributed.symm.trans contributed⟩
    simp [uncontributed, stops]
  | handOff delegation answers order principal validated visited phase orders judged visits =>
    exact handOff_recorded server r inv delegation answers order principal validated visited phase
      judged visits
  | enter capture phase =>
    rw [phase] at phases
    obtain ⟨⟨found, resolve, made⟩, captured, _⟩ := phases
    refine ⟨?_, fun p isEntered => ?_, inv.capped, inv.judged⟩
    · cases capture <;> exact captured
    · obtain rfl := Option.some.inj isEntered
      refine ⟨found, resolve, fun claims contributed c unreserved typed => ?_⟩
      rw [← made claims contributed c unreserved typed]
      unfold Server.entering
      split
      · exact Iff.rfl
      · rw [holds_addPeerCertClaims, or_iff_left]
        intro reserved
        rw [connectionClaims_reserved _ _ c reserved] at unreserved
        cases unreserved
  | handle capture principal phase =>
    refine ⟨?_, inv.entered, inv.capped, inv.judged⟩
    rw [phase] at phases
    rw [show ({ r with principal := principal } : Request).phase = _ from phase]
    cases capture <;> exact phases
  | finish capture phase => exact ⟨trivial, inv.entered, inv.capped, inv.judged⟩

/-- An observation that was made stays, and no token is delegated any more once one has
contributed. -/
structure Keeps (r r' : Request) : Prop where
  contributed : ∀ claims, r.contributed = some claims → r'.contributed = some claims
  settled : ∀ claims, r.contributed = some claims → r'.delegation = r.delegation
  delegation : ∀ d, r.delegation = some d → r'.delegation = some d
  verdict : ∀ v, r.verdict = some v → r'.verdict = some v

/-- A step without observations keeps all that were made. -/
theorem Keeps.refl (r : Request) : Keeps r r :=
  ⟨fun _ => id, fun _ _ => rfl, fun _ => id, fun _ => id⟩

/-- A step of a request keeps the observations made before. -/
theorem advance_keeps (server : Server) (now : Int) (cache : Cache String Cached)
    (r r' : Request) (effect : Effect) (inv : Recorded server r)
    (moved : Advance server now cache r r' effect) : Keeps r r' := by
  have phases := inv.phase
  cases moved with
  | hit claims write phase examined =>
    rw [phase] at phases
    obtain ⟨_, _, uncontributed, _⟩ := phases
    exact ⟨forall_unmade uncontributed, fun _ _ => rfl, fun _ => id,
      fun _ => id⟩
  | resolveDirect cacheKey visited order answers claims ttl phase visits orders resolved =>
    rw [phase] at phases
    obtain ⟨_, _, _, uncontributed, _⟩ := phases
    exact ⟨forall_unmade uncontributed, fun _ _ => rfl, fun _ => id,
      fun _ => id⟩
  | resolveJwt cacheKey visited order answers delegation phase visits resolved =>
    rw [phase] at phases
    obtain ⟨_, undelegated, _, uncontributed, _⟩ := phases
    exact ⟨fun _ => id, forall_unmade uncontributed,
      forall_unmade undelegated, fun _ => id⟩
  | reject delegation answers order err phase judged =>
    rw [phase] at phases
    obtain ⟨_, _, unjudged, _⟩ := phases
    exact ⟨fun _ => id, fun _ _ => rfl, fun _ => id, forall_unmade unjudged⟩
  | handOff delegation answers order principal validated visited phase orders judged visits =>
    rw [phase] at phases
    obtain ⟨_, _, unjudged, uncontributed, _⟩ := phases
    exact ⟨forall_unmade uncontributed, fun _ _ => rfl, fun _ => id,
      forall_unmade unjudged⟩
  | _ => exact ⟨fun _ => id, fun _ _ => rfl, fun _ => id, fun _ => id⟩

/-- How a write's origin shows on the request that made it. -/
def OriginOf (r : Request) (ttl : Int) : Origin → Prop
  | .claims => r.delegation = none
  | .jwt d validated => r.delegation = some d ∧ ttl = d.ttl ∧ d.cacheKey ≠ "" ∧
      ∃ verdict, r.verdict = some verdict ∧ validated = verdict.isOk

/-- The origin of a write still shows on the request after later steps, since it has
contributed. -/
theorem OriginOf.mono {r r' : Request} {ttl : Int} {origin : Origin}
    (of : OriginOf r ttl origin) (keeps : Keeps r r') (claims : List Claim)
    (contributed : r.contributed = some claims) : OriginOf r' ttl origin := by
  cases origin with
  | claims => exact (keeps.settled claims contributed).trans of
  | jwt d validated =>
    obtain ⟨delegated, same, keyed, verdict, judged, valid⟩ := of
    exact ⟨keeps.delegation d delegated, same, keyed, verdict, keeps.verdict verdict judged, valid⟩

/-- What a store says about the request that makes it. -/
structure Stores (server : Server) (r : Request) (claims : List Claim) (ttl : Int)
    (origin : Origin) : Prop where
  cached : server.config.hasCache = true
  contributed : r.contributed = some claims
  nonempty : claims ≠ []
  origin : OriginOf r ttl origin

/-- A captured resolution is stored only with a cache, a key and something to store. -/
theorem cacheResolvedClaims_stores (server : Server) (r : Request) (capture : Capture)
    (captured : Captured r (some capture)) (cacheKey : String) (claims : List Claim) (ttl : Int)
    (origin : Origin)
    (stored : server.cacheResolvedClaims capture = .store cacheKey claims ttl origin) :
    Stores server r claims ttl origin := by
  unfold Server.cacheResolvedClaims at stored
  split at stored
  · cases stored
  · next allowed =>
    simp only [not_or, Bool.not_eq_false, List.length_eq_zero_iff] at allowed
    obtain ⟨rfl, rfl, rfl, rfl⟩ := Effect.store.inj stored
    exact ⟨allowed.1, captured.2.1, allowed.2.2, captured.1, rfl, allowed.2.1, captured.2.2⟩

/-- A stream stores at the handoff, a unary call on return, and neither at the other. -/
theorem atHandoff_store (server : Server) (transport : Transport) (capture : Option Capture)
    (effect : Effect) (happens : effect ≠ .nothing)
    (stored : server.atHandoff transport capture = effect) :
    ∃ captured, capture = some captured ∧ transport = .stream ∧
      server.cacheResolvedClaims captured = effect := by
  cases capture with
  | none => exact absurd stored.symm happens
  | some captured =>
    cases transport with
    | unary => exact absurd stored.symm happens
    | stream => exact ⟨captured, rfl, rfl, stored⟩

/-- What is stored on return was captured by a unary call. -/
theorem atReturn_store (server : Server) (transport : Transport) (capture : Option Capture)
    (effect : Effect) (happens : effect ≠ .nothing)
    (stored : server.atReturn transport capture = effect) :
    ∃ captured, capture = some captured ∧ transport = .unary ∧
      server.cacheResolvedClaims captured = effect := by
  cases capture with
  | none => exact absurd stored.symm happens
  | some captured =>
    cases transport with
    | unary => exact ⟨captured, rfl, rfl, stored⟩
    | stream => exact absurd stored.symm happens

/-- A step that stores claims stores what the request contributed, with its origin. -/
theorem advance_stores (server : Server) (now : Int) (cache : Cache String Cached)
    (r r' : Request) (effect : Effect) (inv : Recorded server r)
    (moved : Advance server now cache r r' effect) (cacheKey : String) (claims : List Claim)
    (ttl : Int) (origin : Origin) (stored : effect = .store cacheKey claims ttl origin) :
    Stores server r' claims ttl origin := by
  have inv' := advance_recorded server now cache r r' effect inv moved
  cases moved with
  | resolveDirect key visited order answers made life phase visits orders resolved =>
    obtain ⟨_, undelegated, _⟩ := inv'.phase
    unfold Server.cacheDirectClaims at stored
    split at stored
    · next allowed =>
      obtain ⟨rfl, rfl, rfl, rfl⟩ := Effect.store.inj stored
      exact ⟨allowed.1, rfl, List.ne_nil_of_length_pos allowed.2, undelegated⟩
    · cases stored
  | handOff delegation answers order principal validated visited phase orders judged visits =>
    have captured := inv'.phase.2.1
    obtain ⟨capture, taken, _, isStored⟩ := atHandoff_store server _ _ _ (by simp) stored
    rw [taken] at captured ⊢
    exact cacheResolvedClaims_stores server _ capture captured cacheKey claims ttl origin isStored
  | finish capture phase =>
    have captured := inv.phase
    rw [phase] at captured
    obtain ⟨capture, rfl, _, isStored⟩ := atReturn_store server _ _ _ (by simp) stored
    exact cacheResolvedClaims_stores server { r with phase := .finished } capture captured cacheKey
      claims ttl origin isStored
  | _ => cases stored

/-- A request is answered from the cache with what a live slot holds. -/
theorem examine_hit (server : Server) (now : Int) (cache : Cache String Cached)
    (authorization : Authorization) (claims : List Claim) (write : Option CacheWrite)
    (examined : server.examine now cache authorization = .hit claims write) :
    ∃ cacheKey slot, cache.lookup cacheKey = some slot ∧ slot.value = ⟨some claims, write⟩ ∧
      now < slot.expiresAt := by
  unfold Server.examine at examined
  split at examined
  · cases examined
  · cases examined
  · split at examined
    · cases examined
    · split at examined
      · cases examined
      · dsimp only at examined
        split at examined
        · split at examined
          · next found =>
            obtain ⟨rfl, rfl⟩ := Examination.hit.inj examined
            obtain ⟨slot, stored, value, alive⟩ := (get_eq_some_iff _ _ _ _).1 found
            exact ⟨_, slot, stored, value, alive⟩
          · cases examined
        · cases examined

/-- A step that is answered from the cache found an entry that was still alive, and contributes
its claims without the reserved ones. -/
theorem advance_hits (server : Server) (now : Int) (cache : Cache String Cached)
    (r r' : Request) (effect : Effect) (moved : Advance server now cache r r' effect)
    (write : Option CacheWrite) (answered : effect = .hit write) :
    ∃ claims cacheKey slot, r'.contributed = some (withoutReservedMTLSClaims claims) ∧
      cache.lookup cacheKey = some slot ∧ slot.value = ⟨some claims, write⟩ ∧
      now < slot.expiresAt := by
  cases moved with
  | hit claims found phase examined =>
    obtain rfl := Effect.hit.inj answered
    obtain ⟨cacheKey, slot, stored, value, alive⟩ := examine_hit server now cache _ _ _ examined
    exact ⟨claims, cacheKey, slot, rfl, stored, value, alive⟩
  | resolveDirect key visited order answers made life phase visits orders resolved =>
    unfold Server.cacheDirectClaims at answered
    split at answered <;> cases answered
  | handOff delegation answers order principal validated visited phase orders judged visits =>
    obtain ⟨capture, _, _, isStored⟩ := atHandoff_store server _ _ _ (by simp) answered
    unfold Server.cacheResolvedClaims at isStored
    split at isStored <;> cases isStored
  | finish capture phase =>
    obtain ⟨capture, _, _, isStored⟩ := atReturn_store server _ _ _ (by simp) answered
    unfold Server.cacheResolvedClaims at isStored
    split at isStored <;> cases isStored
  | _ => cases answered

/-- A write is the contribution of the request that made it. -/
def WrittenBy (server : Server) (requests : Nat → Option Request) (write : CacheWrite) : Prop :=
  ∃ r, requests write.request = some r ∧ Stores server r write.claims write.ttl write.origin

/-- A lookup was answered before the write it found had expired, and gave the request
what was written. -/
def AnsweredBy (writes : List CacheWrite) (requests : Nat → Option Request) (h : Hit) : Prop :=
  ∀ write, h.write = some write → write ∈ writes ∧ h.moment < write.moment + write.ttl ∧
    ∃ r, requests h.request = some r ∧
      r.contributed = some (withoutReservedMTLSClaims write.claims)

/-- The cache and its history. -/
structure History (server : Server) (w : World) : Prop where
  slots : ∀ cacheKey slot, w.cache.lookup cacheKey = some slot →
    ∀ write, slot.value.write = some write → write ∈ w.writes ∧
      slot.value.data = some write.claims ∧ slot.expiresAt = write.moment + write.ttl
  writes : ∀ write ∈ w.writes, WrittenBy server w.requests write
  hits : ∀ h ∈ w.hits, AnsweredBy w.writes w.requests h

/-- Requests may change as long as observations stay. -/
def KeepsAll (requests requests' : Nat → Option Request) : Prop :=
  ∀ id r, requests id = some r → ∃ r', requests' id = some r' ∧ Keeps r r'

/-- A write stays explained by its request when requests go on. -/
theorem WrittenBy.mono {server : Server} {requests requests' : Nat → Option Request}
    {write : CacheWrite} (written : WrittenBy server requests write)
    (keeps : KeepsAll requests requests') : WrittenBy server requests' write := by
  obtain ⟨r, present, stores⟩ := written
  obtain ⟨r', present', kept⟩ := keeps _ r present
  exact ⟨r', present', stores.cached, kept.contributed _ stores.contributed, stores.nonempty,
    stores.origin.mono kept _ stores.contributed⟩

/-- A hit stays explained by its write when there are more writes and requests go on. -/
theorem AnsweredBy.mono {writes writes' : List CacheWrite}
    {requests requests' : Nat → Option Request} {h : Hit}
    (answered : AnsweredBy writes requests h) (more : ∀ write ∈ writes, write ∈ writes')
    (keeps : KeepsAll requests requests') : AnsweredBy writes' requests' h := by
  intro write found
  obtain ⟨inside, alive, r, present, given⟩ := answered write found
  obtain ⟨r', present', kept⟩ := keeps _ r present
  exact ⟨more write inside, alive, r', present', kept.contributed _ given⟩

/-- A step of one request keeps the observations of all. -/
theorem update_keepsAll (w : World) (id : Nat) (r' : Request)
    (kept : ∀ r, w.requests id = some r → Keeps r r') :
    KeepsAll w.requests (w.update id r').requests := by
  intro other r present
  by_cases same : other = id
  · subst same
    exact ⟨r', by simp [World.update], kept r present⟩
  · exact ⟨r, by simpa [World.update, Function.update_of_ne same] using present, .refl r⟩

/-- Changing one request without losing observations keeps the history. -/
theorem History.update {server : Server} {w : World} (history : History server w) (id : Nat)
    (r' : Request) (kept : ∀ r, w.requests id = some r → Keeps r r') :
    History server (w.update id r') := by
  have keeps := update_keepsAll w id r' kept
  exact ⟨history.slots, fun write inside => (history.writes write inside).mono keeps,
    fun h inside => (history.hits h inside).mono (fun _ found => found) keeps⟩

/-- The effect of a request's step fits the history. -/
theorem History.perform {server : Server} {w : World} (history : History server w) (id : Nat)
    (r' : Request) (effect : Effect) (present : w.requests id = some r')
    (stores : ∀ cacheKey claims ttl origin, effect = .store cacheKey claims ttl origin →
      Stores server r' claims ttl origin)
    (hits : ∀ write, effect = .hit write → ∃ claims cacheKey slot,
      r'.contributed = some (withoutReservedMTLSClaims claims) ∧
      w.cache.lookup cacheKey = some slot ∧ slot.value = ⟨some claims, write⟩ ∧
      w.now < slot.expiresAt) :
    History server (w.perform id effect) := by
  cases effect with
  | nothing => exact history
  | hit write =>
    refine ⟨history.slots, history.writes, fun h inside => ?_⟩
    rcases List.mem_append.1 inside with before | isNew
    · exact history.hits h before
    · obtain rfl := List.mem_singleton.1 isNew
      obtain ⟨claims, cacheKey, slot, given, found, value, alive⟩ := hits write rfl
      intro stored isStored
      obtain rfl : write = some stored := isStored
      obtain ⟨inside, data, expires⟩ := history.slots cacheKey slot found stored (by rw [value])
      rw [value] at data
      obtain rfl := Option.some.inj data
      exact ⟨inside, expires ▸ alive, r', present, given⟩
  | store cacheKey claims ttl origin =>
    have more : ∀ write ∈ w.writes, write ∈ w.writes ++ [⟨id, claims, w.now, ttl, origin⟩] :=
      fun write => List.mem_append_left _
    refine ⟨fun other slot found write isWritten => ?_, fun write inside => ?_,
      fun h inside => (history.hits h inside).mono more fun other r found => ⟨r, found, .refl r⟩⟩
    · rcases lookup_setWithTTL _ _ _ _ _ _ slot found with rfl | old
      · obtain rfl := Option.some.inj isWritten
        exact ⟨List.mem_append_right _ (List.mem_singleton_self _), rfl, rfl⟩
      · obtain ⟨inside, rest⟩ := history.slots other slot old write isWritten
        exact ⟨more write inside, rest⟩
    · rcases List.mem_append.1 inside with before | isNew
      · exact history.writes write before
      · obtain rfl := List.mem_singleton.1 isNew
        exact ⟨r', present, stores cacheKey claims ttl origin rfl⟩

/-- The history of every run of a server. -/
theorem reachable_history (server : Server) (w : World)
    (reached : Reachable Initial (Step server) w) : History server w := by
  have recorded := requests_invariant server (Recorded server) (arrival_recorded server)
    (advance_recorded server)
  refine reached.invariant (History server) ?_ ?_
  · rintro w ⟨_, unwritten, unanswered, foreign⟩
    refine ⟨fun cacheKey slot found write isWritten => ?_, ?_, ?_⟩
    · cases (foreign cacheKey slot found).symm.trans isWritten
    · simp [unwritten]
    · simp [unanswered]
  · intro w w' before history step
    cases step with
    | tick later forward => exact ⟨history.slots, history.writes, history.hits⟩
    | evict cacheKey =>
      refine ⟨fun other slot found => ?_, history.writes, history.hits⟩
      by_cases same : other = cacheKey
      · subst same
        rw [Finmap.lookup_erase] at found
        cases found
      · rw [Finmap.lookup_erase_ne same] at found
        exact history.slots other slot found
    | arrive id transport connection authorization principal isNew =>
      exact history.update id _ fun r present => nomatch isNew.symm.trans present
    | advance id r r' effect present moved =>
      have inv := recorded w before id r present
      have updated := history.update id r' fun other found => by
        obtain rfl := Option.some.inj (present.symm.trans found)
        exact advance_keeps server _ _ r r' effect inv moved
      exact updated.perform id r' effect (by simp [World.update])
        (fun key claims ttl origin => advance_stores server _ _ r r' effect inv moved key claims ttl
          origin)
        (fun write => advance_hits server _ _ r r' effect moved write)

end FluffyCore.Auth
