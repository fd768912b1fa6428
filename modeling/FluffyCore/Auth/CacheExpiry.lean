import FluffyCore.Auth.CacheHistory

/-!
# How long a cached resolution lasts

The TTL of a resolution to a JWT is limited to the JWT's remaining lifetime when the
token is resolved. It counts from the moment the claims are written, which for a
stream is after the validation and for a unary call after the handler. The time in
between is added to the lifetime of the entry. The entry then outlives the JWT unless
the uncapped TTL was short enough or no time passed.
-/

namespace FluffyCore.Auth

open Library.MapLoop Library.ExpiringCache Library.Reachability

/-- The expiry the middleware reads off the JWT of a delegation. -/
def Server.expiry (server : Server) (d : Delegation) : Option Int :=
  (server.library.parse d.rawJWT).bind (·.expiration)

def CacheWrite.expiresAt (write : CacheWrite) : Int := write.moment + write.ttl

/-- A write in time for an expiry: the TTL ends before it even uncapped, or the
expiry was taken into account and no time has passed since. -/
def CacheWrite.InTime (write : CacheWrite) (d : Delegation) (exp : Int) : Prop :=
  write.moment + d.baseTTL ≤ exp ∨ (exp ≠ zeroTime ∧ write.moment ≤ d.cappedAt)

/-- What the cap leaves of a TTL for a JWT that has not expired. -/
theorem capTTL_eq (server : Server) (d : Delegation) (exp : Int)
    (expires : server.expiry d = some exp)
    (cacheable : (capTTLToJWTExpiry server.library d.cappedAt d.baseTTL d.rawJWT).2 = true) :
    (capTTLToJWTExpiry server.library d.cappedAt d.baseTTL d.rawJWT).1 =
      if exp = zeroTime then d.baseTTL else min d.baseTTL (exp - d.cappedAt) := by
  obtain ⟨token, parsed, expiration⟩ := Option.bind_eq_some_iff.1 expires
  simp only [capTTLToJWTExpiry, parsed, expiration] at cacheable ⊢
  by_cases isZero : exp = zeroTime
  · simp [isZero]
  · simp only [isZero, if_false] at cacheable ⊢
    split
    · next expired => simp [expired] at cacheable
    · split
      · next shorter => rw [min_eq_right shorter.le]
      · next longer => rw [min_eq_left (not_lt.1 longer)]

/-- An entry for a JWT lasts no longer than the JWT exactly when it was written in time. -/
theorem expiresAt_le_iff (server : Server) (w : World)
    (reached : Reachable Initial (Step server) w) (write : CacheWrite)
    (written : write ∈ w.writes) (d : Delegation) (validated : Bool)
    (origin : write.origin = .jwt d validated) (exp : Int)
    (expires : server.expiry d = some exp) : write.expiresAt ≤ exp ↔ write.InTime d exp := by
  obtain ⟨r, present, stores⟩ := (reachable_history server w reached).writes write written
  have made := stores.origin
  rw [origin] at made
  obtain ⟨delegated, ttl, keyed, _⟩ := made
  have recorded := requests_invariant server (Recorded server) (arrival_recorded server)
    (advance_recorded server) w reached _ r present
  obtain ⟨capped, cacheable⟩ := recorded.capped d delegated
  rw [CacheWrite.expiresAt, ttl, capped, capTTL_eq server d exp expires (cacheable keyed),
    CacheWrite.InTime]
  by_cases isZero : exp = zeroTime
  · simp [isZero]
  · simp only [isZero, if_false, ne_eq, not_false_eq_true, true_and]
    omega

/-- Every entry written for a JWT with an expiry ends no later than that expiry if and
only if it was written in time, and no request is answered after the expiry from an
entry that was. -/
theorem jwt_entry_ends_with_jwt_iff (server : Server) (w : World)
    (reached : Reachable Initial (Step server) w) :
    (∀ write ∈ w.writes, ∀ d validated exp, write.origin = .jwt d validated →
      server.expiry d = some exp → (write.expiresAt ≤ exp ↔ write.InTime d exp)) ∧
    (∀ cacheKey slot write, w.cache.lookup cacheKey = some slot → slot.value.write = some write →
      write ∈ w.writes ∧ slot.expiresAt = write.expiresAt) ∧
    (∀ h ∈ w.hits, ∀ write d validated exp, h.write = some write →
      write.origin = .jwt d validated → server.expiry d = some exp → write.InTime d exp →
      h.moment < exp) := by
  have history := reachable_history server w reached
  refine ⟨?_, ?_, ?_⟩
  · intro write written d validated exp origin expires
    exact expiresAt_le_iff server w reached write written d validated origin exp expires
  · intro cacheKey slot write found isWritten
    obtain ⟨inside, _, ends⟩ := history.slots cacheKey slot found write isWritten
    exact ⟨inside, ends⟩
  · intro h inside write d validated exp found origin expires inTime
    obtain ⟨written, alive, _⟩ := history.hits h inside write found
    have ends := (expiresAt_le_iff server w reached write written d validated origin exp
      expires).2 inTime
    rw [CacheWrite.expiresAt] at ends
    omega

section SampleRuns

/-- The only order of an empty map. -/
theorem emptyOrder {β : Type} : IterationOrder (∅ : FiniteMap String β) [] :=
  ⟨List.nodup_nil, fun _ => iff_of_false List.not_mem_nil Finmap.notMem_empty⟩

/-- A token of subject "user" that expires at 100. -/
def sampleToken : Token := ⟨"issuer", "user", some 100, ∅⟩

/-- A server that takes every JWT for the sample token. -/
def jwtServer (anonymous : Bool) : Server where
  sha256Hex _ := "hash"
  library := ⟨fun _ => some sampleToken, fun _ => some ("kid", "payload"),
    fun _ => some sampleToken⟩
  config := ⟨true, 300, "reftok:", ["pat_"]⟩
  anonymousOnFailure _ := anonymous
  mtlsFirst := false

/-- The resolution of a token at time 0 to a JWT, with the default TTL. -/
def sampleDelegation : Delegation := ⟨"reftok:hash", 100, "jwt", [], 300, 0⟩

/-- A request whose token was resolved to the sample JWT. -/
def delegatedRequest (transport : Transport) : Request where
  transport := transport
  connection := none
  authorization := some ["Bearer jwt"]
  principal := .empty
  phase := .validating (some sampleDelegation)
  started := .empty
  atResolve := some .empty
  delegation := some sampleDelegation

/-- The first steps of a run: a request with a reference token is resolved to a JWT. -/
theorem delegated_run (anonymous : Bool) (transport : Transport) :
    ∃ requests, Reachable Initial (Step (jwtServer anonymous)) ⟨0, ∅, requests, [], []⟩ ∧
      requests 0 = some (delegatedRequest transport) ∧ requests 1 = none := by
  let begun : World := ⟨0, ∅, fun _ => none, [], []⟩
  have start : Reachable Initial (Step (jwtServer anonymous)) begun :=
    .start ⟨fun _ => rfl, rfl, rfl, nofun⟩
  have arrived := start.next (.arrive begun 0 transport none (some ["Bearer pat_1"]) .empty rfl)
  have missed := arrived.next (.advance _ 0 _ _ _ rfl (.miss _ "reftok:hash" rfl rfl))
  have resolved := missed.next (.advance _ 0 _ _ _ rfl (.resolveJwt _ "reftok:hash" [] ⟨[], []⟩
    [⟨true, some ⟨.jwt, "jwt", ∅, 0⟩, none⟩] sampleDelegation rfl emptyOrder rfl))
  exact ⟨_, resolved, rfl, rfl⟩

/-- A principal with nothing but a subject. -/
def subjectPrincipal (value : String) : ClaimsPrincipal :=
  ClaimsPrincipal.empty.addClaim ⟨"sub", value⟩

/-- A principal with a subject only has one type to visit. -/
theorem subjectPrincipal_order (value : String) :
    IterationOrder (subjectPrincipal value).claims ["sub"] := by
  have claims : (subjectPrincipal value).claims = (∅ : FiniteMap String (List String)).insert "sub"
      [value] := rfl
  refine ⟨List.nodup_singleton _, fun key => ?_⟩
  rw [claims, Finmap.mem_insert, List.mem_singleton]
  exact (or_iff_left Finmap.notMem_empty).symm

/-- The write of a unary request that resolved its token at 0 and returned later. -/
def sampleWrite (value : String) (validated : Bool) (moment : Int) : CacheWrite :=
  ⟨0, [⟨"sub", value⟩], moment, 100, .jwt sampleDelegation validated⟩

/-- The sample server answers the sample token from the cache while an entry lasts. -/
theorem examine_sample (anonymous : Bool) (now : Int) (cache : Cache String Cached)
    (claims : List Claim) (write : Option CacheWrite)
    (found : get cache now "reftok:hash" = some ⟨some claims, write⟩) :
    (jwtServer anonymous).examine now cache (some ["Bearer pat_1"]) = .hit claims write := by
  exact examine_of_get _ now cache _ "pat_1" claims write rfl (by decide) rfl rfl found

/-- What the sample request contributes. -/
theorem sample_claimsToCache (value : String) (validated : Bool) :
    (captureAt (subjectPrincipal value) ["sub"] validated sampleDelegation).claimsToCache =
      [⟨"sub", value⟩] := by
  have unreserved : reservedType "sub" = false := by decide
  have added : claimsAddedSince [] ((subjectPrincipal value).getClaims ["sub"]) =
      [⟨"sub", value⟩] := rfl
  simp [Capture.claimsToCache, captureAt, sampleDelegation, added, withoutReservedMTLSClaims,
    Claim.reserved, unreserved]

/-- What the sample request caches. -/
theorem sample_store (anonymous : Bool) (value : String) (validated : Bool) :
    (jwtServer anonymous).cacheResolvedClaims
        (captureAt (subjectPrincipal value) ["sub"] validated sampleDelegation) =
      .store "reftok:hash" [⟨"sub", value⟩] 100 (.jwt sampleDelegation validated) := by
  rw [Server.cacheResolvedClaims, sample_claimsToCache]
  rfl

/-- The sample request after its handler returned. -/
def returnedRequest (value : String) (verdict : Except GoError Token) : Request :=
  { delegatedRequest .unary with
    principal := subjectPrincipal value
    phase := .finished
    verdict := some verdict
    contributed := some [⟨"sub", value⟩]
    entered := some (subjectPrincipal value) }

/-- The cache after the sample write. -/
def sampleCache (write : CacheWrite) : Cache String Cached :=
  setWithTTL ∅ write.moment "reftok:hash" ⟨some write.claims, some write⟩ write.ttl

/-- A request that had its resolved JWT judged, was handed on with a subject and
returned at some moment. -/
theorem returned_run (anonymous : Bool) (answers : List ValidatorAnswer) (value : String)
    (validated : Bool)
    (judged : jwtInterceptor (jwtServer anonymous).library anonymous answers ⟨[], []⟩
      (some ["Bearer jwt"]) .empty = .handedOff (subjectPrincipal value) validated)
    (accepts : ∀ token, validate (jwtServer anonymous).library answers (some ["Bearer jwt"]) =
      .ok token → token = sampleToken) (moment : Int) (forward : 0 ≤ moment) :
    ∃ requests, Reachable Initial (Step (jwtServer anonymous))
        ⟨moment, sampleCache (sampleWrite value validated moment), requests,
          [sampleWrite value validated moment], []⟩ ∧
      requests 0 = some (returnedRequest value
        (validate (jwtServer anonymous).library answers (some ["Bearer jwt"]))) ∧
      requests 1 = none := by
  obtain ⟨requests, delegated, first, second⟩ := delegated_run anonymous .unary
  let verdict := validate (jwtServer anonymous).library answers (some ["Bearer jwt"])
  let capture := captureAt (subjectPrincipal value) ["sub"] validated sampleDelegation
  let handedRequest := (delegatedRequest .unary).handOff (subjectPrincipal value) (some capture)
    verdict
  let enteredRequest := { handedRequest with
    phase := .handling (some capture)
    entered := some (subjectPrincipal value) }
  have unordered : (⟨[], []⟩ : TransferOrder).Visits (privateClaims sampleToken) :=
    ⟨emptyOrder, emptyOrder⟩
  have handed : Reachable Initial (Step (jwtServer anonymous))
      ⟨0, ∅, Function.update requests 0 (some handedRequest), [], []⟩ :=
    delegated.next (.advance _ 0 _ handedRequest .nothing first
      (.handOff _ (some sampleDelegation) answers ⟨[], []⟩ _ _ ["sub"] rfl
        (fun token accepted => accepts token accepted ▸ unordered) judged
        (subjectPrincipal_order value)))
  have entered : Reachable Initial (Step (jwtServer anonymous))
      ⟨0, ∅, Function.update (Function.update requests 0 (some handedRequest)) 0
        (some enteredRequest), [], []⟩ :=
    handed.next (.advance _ 0 handedRequest enteredRequest .nothing rfl
      (.enter handedRequest (some capture) rfl))
  have waited := entered.next (.tick _ moment forward)
  have finishes : Advance (jwtServer anonymous) moment ∅ enteredRequest
      { enteredRequest with phase := .finished }
      (.store "reftok:hash" [⟨"sub", value⟩] 100 (.jwt sampleDelegation validated)) :=
    sample_store anonymous value validated ▸ .finish enteredRequest (some capture) rfl
  have returned := waited.next (.advance _ 0 enteredRequest _ _ rfl finishes)
  have finished : { enteredRequest with phase := .finished } = returnedRequest value verdict := by
    have contributed : enteredRequest.contributed = some [⟨"sub", value⟩] :=
      congrArg some (sample_claimsToCache value validated)
    rw [contributed]
    rfl
  exact ⟨_, returned, congrArg some finished, second⟩

/-- A second request with the same token, answered from the cache. -/
def answeredRequest (value : String) : Request :=
  { (jwtServer true).arrival .unary none (some ["Bearer pat_1"]) .empty with
    atResolve := some .empty
    authorization := stripAuthorization (some ["Bearer pat_1"])
    principal := subjectPrincipal value
    phase := .handling none
    contributed := some [⟨"sub", value⟩]
    entered := some (subjectPrincipal value) }

/-- After the first request returned, a second one with the same token is answered from
the cache for as long as the entry lasts. -/
theorem answered_run (anonymous : Bool) (value : String) (validated : Bool) (moment : Int)
    (requests : Nat → Option Request) (unused : requests 1 = none)
    (returned : Reachable Initial (Step (jwtServer anonymous))
      ⟨moment, sampleCache (sampleWrite value validated moment), requests,
        [sampleWrite value validated moment], []⟩)
    (answered : Int) (forward : moment ≤ answered) (alive : answered < moment + 100) :
    ∃ requests', Reachable Initial (Step (jwtServer anonymous))
        ⟨answered, sampleCache (sampleWrite value validated moment), requests',
          [sampleWrite value validated moment],
          [⟨1, answered, some (sampleWrite value validated moment)⟩]⟩ ∧
      requests' 0 = requests 0 ∧ requests' 1 = some (answeredRequest value) := by
  let write := sampleWrite value validated moment
  let arrival := (jwtServer anonymous).arrival .unary none (some ["Bearer pat_1"]) .empty
  have waited := returned.next (.tick _ answered forward)
  have arrived := waited.next (.arrive _ 1 .unary none (some ["Bearer pat_1"]) .empty unused)
  have found : get (sampleCache write) answered "reftok:hash" =
      some ⟨some [⟨"sub", value⟩], some write⟩ := if_pos alive
  have examined := examine_sample anonymous answered (sampleCache write) _ _ found
  have kept : withoutReservedMTLSClaims [⟨"sub", value⟩] = [⟨"sub", value⟩] :=
    sample_claimsToCache value validated
  have hits := Advance.hit arrival _ _ rfl examined
  rw [kept] at hits
  have hit := arrived.next (.advance _ 1 _ _ _ rfl hits)
  have entered := hit.next (.advance _ 1 _ _ _ rfl (.enter _ none rfl))
  exact ⟨_, entered, rfl, rfl⟩

/-- The validator that accepts the sample JWT. -/
theorem sample_judged (anonymous : Bool) :
    jwtInterceptor (jwtServer anonymous).library anonymous [⟨true, none⟩] ⟨[], []⟩
      (some ["Bearer jwt"]) .empty = .handedOff (subjectPrincipal "user") true := by
  rfl

/-- A run in which the sample JWT is accepted, the first handler returns at one moment
and a second request is answered at another. -/
theorem validated_run (moment answered : Int) (begins : 0 ≤ moment) (forward : moment ≤ answered)
    (alive : answered < moment + 100) :
    ∃ requests, Reachable Initial (Step (jwtServer false))
        ⟨answered, sampleCache (sampleWrite "user" true moment), requests,
          [sampleWrite "user" true moment],
          [⟨1, answered, some (sampleWrite "user" true moment)⟩]⟩ ∧
      requests 0 = some (returnedRequest "user" (.ok sampleToken)) ∧
      requests 1 = some (answeredRequest "user") := by
  obtain ⟨_, returned, first, unused⟩ := returned_run false [⟨true, none⟩] "user" true
    (sample_judged false) (fun _ accepted => (Except.ok.inj accepted).symm) moment begins
  obtain ⟨requests, ran, same, second⟩ := answered_run false "user" true moment _ unused returned
    answered forward alive
  exact ⟨requests, ran, same.trans first, second⟩

/-- A handler that returns at 50 has its JWT of expiry 100 cached until 150, and a
request at 120 is answered from that entry. -/
theorem jwt_entry_outlives_jwt :
    ∃ w, Reachable Initial (Step (jwtServer false)) w ∧
      ∃ write ∈ w.writes, ∃ d, write.origin = .jwt d true ∧
        (jwtServer false).expiry d = some 100 ∧ 100 < write.expiresAt ∧
        ∃ h ∈ w.hits, h.write = some write ∧ 100 < h.moment := by
  obtain ⟨requests, ran, _⟩ := validated_run 50 120 (by decide) (by decide) (by decide)
  exact ⟨_, ran, _, List.mem_singleton_self _, sampleDelegation, rfl, rfl, by decide, _,
    List.mem_singleton_self _, rfl, by decide⟩

/-- A handler that returns at once has its JWT cached for exactly as long as it lasts. -/
theorem jwt_entry_ends_with_jwt_iff_at_once :
    ∃ w, Reachable Initial (Step (jwtServer false)) w ∧
      ∃ write ∈ w.writes, ∃ h ∈ w.hits, h.write = some write ∧
        write.origin = .jwt sampleDelegation true ∧ write.InTime sampleDelegation 100 ∧
        write.expiresAt ≤ 100 ∧ h.moment < 100 := by
  obtain ⟨requests, ran, _⟩ := validated_run 0 50 (by decide) (by decide) (by decide)
  obtain ⟨ends, _, answers⟩ := jwt_entry_ends_with_jwt_iff _ _ ran
  have inTime : (sampleWrite "user" true 0).InTime sampleDelegation 100 :=
    Or.inr ⟨by decide, by decide⟩
  have written := List.mem_singleton_self (sampleWrite "user" true 0)
  exact ⟨_, ran, _, written, _, List.mem_singleton_self _, rfl, rfl, inTime,
    (ends _ written _ _ _ rfl rfl).2 inTime,
    answers _ (List.mem_singleton_self _) _ _ _ _ rfl rfl rfl inTime⟩

end SampleRuns

end FluffyCore.Auth
