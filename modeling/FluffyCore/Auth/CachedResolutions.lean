import FluffyCore.Auth.CacheExpiry

/-!
# Which resolutions are cached, and what a hit is worth

A resolution to a JWT is cached when the JWT interceptor hands the request on and
the token contributed something. The interceptor also hands on a request whose JWT is
invalid, as anonymous, when it is told to or when the failure is a "not found". The
anonymous subject then is the contribution, and it is cached.

Whatever was cached, a request answered from the cache has its handler entered with
the claims the resolution gave the first request, and what handlers do to their
principals does not show.
-/

namespace FluffyCore.Auth

open Library.MapLoop Library.ExpiringCache Library.Reachability

/-- A resolution to a JWT is due to be in the cache: it has a key and claims, and the
request has passed the point at which its transport writes them. -/
structure Due (server : Server) (r : Request) (d : Delegation) (claims : List Claim) : Prop where
  delegated : r.delegation = some d
  contributed : r.contributed = some claims
  cached : server.config.hasCache = true
  keyed : d.cacheKey ≠ ""
  nonempty : claims ≠ []
  passed : r.transport = .stream ∨ r.phase = .finished

/-- A capture with a cache, a key and claims is stored. -/
theorem cacheResolvedClaims_eq_store (server : Server) (capture : Capture)
    (cached : server.config.hasCache = true) (keyed : capture.delegation.cacheKey ≠ "")
    (nonempty : capture.claimsToCache ≠ []) :
    server.cacheResolvedClaims capture =
      .store capture.delegation.cacheKey capture.claimsToCache capture.delegation.ttl
        (.jwt capture.delegation capture.validated) := by
  unfold Server.cacheResolvedClaims
  rw [if_neg]
  simp only [not_or, Bool.not_eq_false, List.length_eq_zero_iff]
  exact ⟨cached, keyed, nonempty⟩

/-- A step that makes a resolution due stores it. -/
theorem advance_due (server : Server) (now : Int) (cache : Cache String Cached) (r r' : Request)
    (effect : Effect) (inv : Recorded server r) (moved : Advance server now cache r r' effect)
    (d : Delegation) (claims : List Claim) (due : Due server r' d claims) :
    Due server r d claims ∨
      ∃ cacheKey stored ttl origin, effect = .store cacheKey stored ttl origin := by
  have phases := inv.phase
  obtain ⟨delegated, contributed, cached, keyed, nonempty, passed⟩ := due
  cases moved with
  | mtls phase =>
    rw [phase] at phases
    cases phases.1.symm.trans delegated
  | tokenError err phase examined =>
    rw [phase] at phases
    cases phases.1.symm.trans delegated
  | passThrough phase examined =>
    rw [phase] at phases
    cases phases.1.symm.trans delegated
  | hit found write phase examined =>
    rw [phase] at phases
    cases phases.1.symm.trans delegated
  | miss cacheKey phase examined =>
    rw [phase] at phases
    cases phases.1.symm.trans delegated
  | resolveError cacheKey visited order answers err phase visits resolved =>
    rw [phase] at phases
    cases phases.2.1.symm.trans delegated
  | resolveDirect cacheKey visited order answers made life phase visits orders resolved =>
    rw [phase] at phases
    cases phases.2.1.symm.trans delegated
  | resolveJwt cacheKey visited order answers delegation phase visits resolved =>
    rw [phase] at phases
    obtain ⟨_, _, _, uncontributed, _⟩ := phases
    cases uncontributed.symm.trans contributed
  | reject delegation answers order err phase judged =>
    rw [phase] at phases
    obtain ⟨_, _, _, uncontributed, _⟩ := phases
    cases uncontributed.symm.trans contributed
  | handOff delegation answers order principal validated visited phase orders judged visits =>
    rw [phase] at phases
    obtain ⟨_, isDelegated, _⟩ := phases
    obtain rfl : delegation = some d := isDelegated.symm.trans delegated
    obtain rfl := Option.some.inj contributed
    have streams : r.transport = .stream := passed.resolve_right nofun
    right
    rw [streams]
    exact ⟨_, _, _, _, cacheResolvedClaims_eq_store server _ cached keyed nonempty⟩
  | enter capture phase =>
    have streams : r.transport = .stream := passed.resolve_right nofun
    exact Or.inl ⟨delegated, contributed, cached, keyed, nonempty, Or.inl streams⟩
  | handle capture principal phase =>
    exact Or.inl ⟨delegated, contributed, cached, keyed, nonempty, passed⟩
  | finish capture phase =>
    rw [phase] at phases
    cases transported : r.transport with
    | stream =>
      exact Or.inl ⟨delegated, contributed, cached, keyed, nonempty, Or.inl transported⟩
    | unary =>
      right
      cases capture with
      | none => cases phases.symm.trans delegated
      | some capture =>
        obtain ⟨isDelegated, isContributed, _⟩ := phases
        obtain rfl := Option.some.inj (isDelegated.symm.trans delegated)
        obtain rfl := Option.some.inj (isContributed.symm.trans contributed)
        exact ⟨_, _, _, _, cacheResolvedClaims_eq_store server capture cached keyed nonempty⟩

/-- Every resolution that is due was written. -/
theorem reachable_due (server : Server) (w : World) (reached : Reachable Initial (Step server) w) :
    ∀ id r d claims, w.requests id = some r → Due server r d claims →
      ∃ write ∈ w.writes, write.request = id := by
  have recorded := requests_invariant server (Recorded server) (arrival_recorded server)
    (advance_recorded server)
  refine reached.invariant (fun w => ∀ id r d claims, w.requests id = some r →
    Due server r d claims → ∃ write ∈ w.writes, write.request = id) ?_ ?_
  · rintro w ⟨unused, _⟩ id r d claims present
    cases (unused id).symm.trans present
  · intro w w' reached inductionHypothesis step id r d claims present due
    cases step with
    | tick later forward => exact inductionHypothesis id r d claims present due
    | evict cacheKey => exact inductionHypothesis id r d claims present due
    | arrive changed transport connection authorization principal isNew =>
      rcases update_requests present with ⟨_, rfl⟩ | old
      · cases due.delegated
      · exact inductionHypothesis id r d claims old due
    | advance changed before after effect found moved =>
      rw [perform_requests] at present
      have kept : ∀ write ∈ w.writes,
          write ∈ ((w.update changed after).perform changed effect).writes := by
        intro write written
        cases effect <;> simp [World.perform, World.update, written]
      have already : ∀ r, w.requests id = some r → Due server r d claims →
          ∃ write ∈ ((w.update changed after).perform changed effect).writes,
            write.request = id := by
        intro r present due
        obtain ⟨write, written, writer⟩ := inductionHypothesis id r d claims present due
        exact ⟨write, kept write written, writer⟩
      rcases update_requests present with ⟨rfl, rfl⟩ | old
      · rcases advance_due server _ _ _ _ _ (recorded w reached changed before found) moved d claims
          due with earlier | ⟨cacheKey, stored, ttl, origin, rfl⟩
        · exact already before found earlier
        · exact ⟨⟨changed, stored, w.now, ttl, origin⟩, by simp [World.perform, World.update], rfl⟩
      · exact already r old due

/-- A JWT that was judged invalid is cached nevertheless: the request goes on as
anonymous, which the principal was not yet, and there is a cache and a key. -/
structure Fallback (server : Server) (r : Request) (d : Delegation) (err : GoError)
    (found : ClaimsPrincipal) : Prop where
  handsOn : (server.anonymousOnFailure r.transport || err.isNotFound) = true
  cached : server.config.hasCache = true
  keyed : d.cacheKey ≠ ""
  unnamed : ¬ found.Holds anonymousClaim

/-- What is written for a JWT that was judged invalid was written by the fallback. -/
theorem fallback_of_written (server : Server) (w : World)
    (reached : Reachable Initial (Step server) w) (write : CacheWrite) (written : write ∈ w.writes)
    (r : Request) (present : w.requests write.request = some r) (d : Delegation)
    (delegated : r.delegation = some d) (err : GoError) (failed : r.verdict = some (.error err))
    (found : ClaimsPrincipal) (resolve : r.atResolve = some found) :
    Fallback server r d err found := by
  obtain ⟨writer, isPresent, stores⟩ := (reachable_history server w reached).writes write written
  obtain rfl : r = writer := Option.some.inj (present.symm.trans isPresent)
  have recorded := requests_invariant server (Recorded server) (arrival_recorded server)
    (advance_recorded server) w reached _ r present
  obtain ⟨goesOn, gives⟩ := recorded.judged d err delegated failed
  refine ⟨goesOn.1 ?_, stores.cached, ?_, ?_⟩
  · rw [stores.contributed]
    rfl
  · have origin := stores.origin
    cases made : write.origin with
    | claims =>
      rw [made] at origin
      cases origin.symm.trans delegated
    | jwt d' validated =>
      rw [made] at origin
      obtain ⟨delegated', _, keyed, _⟩ := origin
      obtain rfl := Option.some.inj (delegated.symm.trans delegated')
      exact keyed
  · exact fun held => stores.nonempty ((gives _ found stores.contributed resolve).2 held)

/-- The claims of a request that falls back are due once it passed the write. -/
theorem Fallback.due {server : Server} {r : Request} {d : Delegation} {err : GoError}
    {found : ClaimsPrincipal} (fallback : Fallback server r d err found)
    (recorded : Recorded server r) (delegated : r.delegation = some d)
    (failed : r.verdict = some (.error err)) (resolve : r.atResolve = some found)
    (passed : r.transport = .stream ∨ r.phase = .finished) : ∃ claims, Due server r d claims := by
  obtain ⟨goesOn, gives⟩ := recorded.judged d err delegated failed
  obtain ⟨claims, contributed⟩ := Option.isSome_iff_exists.1 (goesOn.2 fallback.handsOn)
  refine ⟨claims, delegated, contributed, fallback.cached, fallback.keyed, fun nothing => ?_,
    passed⟩
  exact fallback.unnamed ((gives claims found contributed resolve).1 nothing)

/-- A request whose resolved JWT was judged invalid writes to the cache if and only if
it falls back to anonymous, and only such writes answer later requests with claims of a
JWT that was not validated. -/
theorem invalid_jwt_cached_iff (server : Server) (w : World)
    (reached : Reachable Initial (Step server) w) :
    (∀ id r d err found, w.requests id = some r → r.delegation = some d →
      r.verdict = some (.error err) → r.atResolve = some found →
      ((∃ write ∈ w.writes, write.request = id) → Fallback server r d err found) ∧
      (r.transport = .stream ∨ r.phase = .finished →
        ((∃ write ∈ w.writes, write.request = id) ↔ Fallback server r d err found))) ∧
    (∀ h ∈ w.hits, ∀ write d, h.write = some write → write.origin = .jwt d false →
      ∃ r err, w.requests write.request = some r ∧ r.delegation = some d ∧
        r.verdict = some (.error err) ∧
        ∀ found, r.atResolve = some found → Fallback server r d err found) := by
  have recorded := requests_invariant server (Recorded server) (arrival_recorded server)
    (advance_recorded server) w reached
  refine ⟨fun id r d err found present delegated failed resolve => ?_, ?_⟩
  · have only : (∃ write ∈ w.writes, write.request = id) → Fallback server r d err found := by
      rintro ⟨write, written, rfl⟩
      exact fallback_of_written server w reached write written r present d delegated err failed
        found resolve
    refine ⟨only, fun passed => ⟨only, fun fallback => ?_⟩⟩
    obtain ⟨claims, due⟩ := fallback.due (recorded id r present) delegated failed resolve passed
    exact reachable_due server w reached id r d claims present due
  · intro h inside write d found origin
    have history := reachable_history server w reached
    obtain ⟨written, _⟩ := history.hits h inside write found
    obtain ⟨r, present, stores⟩ := history.writes write written
    have made := stores.origin
    rw [origin] at made
    obtain ⟨delegated, _, _, verdict, judged, invalid⟩ := made
    cases verdict with
    | ok token => cases invalid
    | error err =>
      exact ⟨r, err, present, delegated, judged, fun found resolve => fallback_of_written server w
        reached write written r present d delegated err judged found resolve⟩

/-- The claims with a type that a handler is entered with, where the interceptor found
reserved claims only: what the token contributed. -/
theorem entered_of_contributed (server : Server) (r : Request) (recorded : Recorded server r)
    (found p : ClaimsPrincipal) (resolve : r.atResolve = some found) (entered : r.entered = some p)
    (onlyReserved : ∀ c, found.Holds c → c.reserved = true) (claims : List Claim)
    (contributed : r.contributed = some claims) (c : Claim) (unreserved : c.reserved = false) :
    p.Holds c ↔ c.type ≠ "" ∧ c ∈ claims := by
  obtain ⟨found', resolve', made⟩ := recorded.entered p entered
  obtain rfl := Option.some.inj (resolve.symm.trans resolve')
  have missing : ¬ found.Holds c := by
    intro held
    rw [onlyReserved c held] at unreserved
    cases unreserved
  constructor
  · intro held
    have typed := held.typed
    exact ⟨typed, ((made claims contributed c unreserved typed).1 held).resolve_left missing⟩
  · rintro ⟨typed, inside⟩
    exact (made claims contributed c unreserved typed).2 (Or.inr inside)

/-- A request that is answered from an entry some request wrote has its handler entered
with the same claims as that request's, apart from reserved ones, if both had only
reserved ones before their token was looked at. -/
theorem hit_gives_claims_of_resolution (server : Server) (w : World)
    (reached : Reachable Initial (Step server) w) (h : Hit) (hit : h ∈ w.hits) (write : CacheWrite)
    (answered : h.write = some write) (r r' : Request)
    (present : w.requests write.request = some r) (present' : w.requests h.request = some r')
    (found found' : ClaimsPrincipal) (resolve : r.atResolve = some found)
    (resolve' : r'.atResolve = some found') (onlyReserved : ∀ c, found.Holds c → c.reserved = true)
    (onlyReserved' : ∀ c, found'.Holds c → c.reserved = true) (p p' : ClaimsPrincipal)
    (entered : r.entered = some p) (entered' : r'.entered = some p') (c : Claim)
    (unreserved : c.reserved = false) : p.Holds c ↔ p'.Holds c := by
  have recorded := requests_invariant server (Recorded server) (arrival_recorded server)
    (advance_recorded server) w reached
  have history := reachable_history server w reached
  obtain ⟨written, _, reader, isReader, given⟩ := history.hits h hit write answered
  obtain rfl : r' = reader := Option.some.inj (present'.symm.trans isReader)
  obtain ⟨writer, isWriter, stores⟩ := history.writes write written
  obtain rfl : r = writer := Option.some.inj (present.symm.trans isWriter)
  rw [entered_of_contributed server r (recorded _ r present) found p resolve entered onlyReserved _
      stores.contributed c unreserved,
    entered_of_contributed server r' (recorded _ r' present') found' p' resolve' entered'
      onlyReserved' _ given c unreserved, mem_withoutReserved]
  simp [unreserved]

section SampleRuns

/-- The answer of a validator that refuses a token. -/
def refusal : ValidatorAnswer := ⟨true, some (.status .unauthenticated "invalid token")⟩

/-- A JWT interceptor told to go on as anonymous has a refused JWT cached, and the next
request is answered from the cache. -/
theorem invalid_jwt_answers_next_request :
    ∃ w, Reachable Initial (Step (jwtServer true)) w ∧
      ∃ r d err, w.requests 0 = some r ∧ r.delegation = some d ∧ r.verdict = some (.error err) ∧
        ∃ write ∈ w.writes, write.request = 0 ∧ ∃ h ∈ w.hits, h.request = 1 ∧
          h.write = some write := by
  obtain ⟨_, returned, first, unused⟩ := returned_run true [refusal] "anonymous" false rfl nofun 0
    (by decide)
  obtain ⟨requests, ran, same, _⟩ := answered_run true "anonymous" false 0 _ unused returned 50
    (by decide) (by decide)
  exact ⟨_, ran, _, sampleDelegation, _, same.trans first, rfl, rfl, _, List.mem_singleton_self _,
    rfl, _, List.mem_singleton_self _, rfl, rfl⟩

/-- Without the fallback a refused JWT ends its request, and nothing is cached. -/
theorem invalid_jwt_cached_iff_refused :
    ∃ w, Reachable Initial (Step (jwtServer false)) w ∧
      ∃ r err, w.requests 0 = some r ∧ r.delegation = some sampleDelegation ∧
        r.verdict = some (.error err) ∧ r.phase = .finished ∧
        ¬ ∃ write ∈ w.writes, write.request = 0 := by
  obtain ⟨requests, delegated, first, _⟩ := delegated_run false .unary
  have refused := delegated.next (.advance _ 0 _ _ _ first (.reject _ (some sampleDelegation)
    [refusal] ⟨[], []⟩ (.status .unauthenticated "invalid token") rfl rfl))
  refine ⟨_, refused, _, _, rfl, rfl, rfl, rfl, ?_⟩
  have written := ((invalid_jwt_cached_iff _ _ refused).1 0 _ sampleDelegation _ .empty rfl rfl rfl
    rfl).2 (Or.inr rfl)
  rw [written]
  exact fun fallback => Bool.noConfusion fallback.handsOn

/-- The subject of a validated JWT, given to the first handler and by the cache to the
second. -/
theorem hit_gives_claims_of_resolution_subject :
    ∃ w, Reachable Initial (Step (jwtServer false)) w ∧
      ∃ r r' p p', w.requests 0 = some r ∧ w.requests 1 = some r' ∧
        r.verdict = some (.ok sampleToken) ∧ r.entered = some p ∧ r'.entered = some p' ∧
        ∀ c : Claim, c.reserved = false → (p.Holds c ↔ p'.Holds c) := by
  obtain ⟨requests, ran, first, second⟩ := validated_run 0 50 (by decide) (by decide) (by decide)
  have none : ∀ c, ClaimsPrincipal.empty.Holds c → c.reserved = true :=
    fun c held => absurd held (ClaimsPrincipal.not_holds_empty c)
  exact ⟨_, ran, _, _, _, _, first, second, rfl, rfl, rfl, fun c unreserved =>
    hit_gives_claims_of_resolution _ _ ran _ (List.mem_singleton_self _) _ rfl _ _ first second
      .empty .empty rfl rfl none none _ _ rfl rfl c unreserved⟩

end SampleRuns

end FluffyCore.Auth
