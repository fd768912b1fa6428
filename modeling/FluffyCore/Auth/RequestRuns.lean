import FluffyCore.Auth.Mtls
import FluffyCore.Auth.ReferenceToken
import FluffyCore.Library.ExpiringCache
import FluffyCore.Library.Reachability

/-!
# Requests through the interceptor chain

A server runs many requests at once. Each passes the mtls interceptor and the
reference-token interceptor, in either order, which wraps the JWT interceptor, and
then its handler. The requests share the cache and the clock. Any time may pass
between two steps of a request, and other requests may step meanwhile.

The resolvers and validators answer freely, and a handler does what it likes with
its request's principal. Some fields only record what happened, so that the theorems
can refer to it: no step reads them.
-/

namespace FluffyCore.Auth

open Library.MapLoop Library.ExpiringCache Library.Reachability

inductive Transport where
  | unary
  | stream
deriving DecidableEq

/-- How a server is put together. -/
structure Server where
  sha256Hex : ByteArray → String
  library : JwtLibrary
  config : Config
  /-- Whether the JWT interceptor of a transport goes on as anonymous on failure. -/
  anonymousOnFailure : Transport → Bool
  /-- Whether the mtls interceptor comes before the reference-token interceptor. -/
  mtlsFirst : Bool

/-- How the claims of a cache entry came about. -/
inductive Origin where
  | claims
  | jwt (delegation : Delegation) (validated : Bool)

/-- A write to the cache by a request. -/
structure CacheWrite where
  request : Nat
  claims : List Claim
  moment : Int
  ttl : Int
  origin : Origin

/-- A cached value: claims, or data of another type, with the write that stored it if
it was stored during the run. -/
structure Cached where
  data : Option (List Claim)
  write : Option CacheWrite

/-- A lookup that was answered from the cache. -/
structure Hit where
  request : Nat
  moment : Int
  write : Option CacheWrite

inductive RequestPhase where
  /-- Before the mtls interceptor, where that comes first. -/
  | mtls
  /-- Before the reference-token interceptor. -/
  | token
  /-- The cache was missed and the resolvers are running. -/
  | resolving (cacheKey : String)
  /-- In the JWT interceptor, for a resolved token or for one passed through. -/
  | validating (delegation : Option Delegation)
  /-- Handed to what comes after the reference-token interceptor. -/
  | handed (capture : Option Capture)
  | handling (capture : Option Capture)
  | finished

/-- A request with its own principal. The last fields record the principal it
arrived with, the one the reference-token interceptor found, what a resolved JWT was
judged, what the token contributed and the principal its handler was entered with. -/
structure Request where
  transport : Transport
  connection : Connection
  authorization : Authorization
  principal : ClaimsPrincipal
  phase : RequestPhase
  started : ClaimsPrincipal
  atResolve : Option ClaimsPrincipal := none
  delegation : Option Delegation := none
  verdict : Option (Except GoError Token) := none
  contributed : Option (List Claim) := none
  entered : Option ClaimsPrincipal := none

/-- What the reference-token interceptor finds before it asks the resolvers. -/
inductive Examination where
  | error (err : GoError)
  | passThrough
  | hit (claims : List Claim) (write : Option CacheWrite)
  | miss (cacheKey : String)

/-- The first part of `resolve`, up to the answer of the cache. -/
def Server.examine (server : Server) (now : Int) (cache : Cache String Cached)
    (authorization : Authorization) : Examination :=
  match extractBearerToken authorization with
  | .error err => .error err
  | .ok none => .passThrough
  | .ok (some rawToken) =>
      if rawToken = "" then .passThrough
      else if !server.config.isReferenceToken rawToken then .passThrough
      else
        let cacheKey := server.config.cacheKey server.sha256Hex rawToken
        if server.config.hasCache then
          match get cache now cacheKey with
          | some ⟨some claims, write⟩ => .hit claims write
          | _ => .miss cacheKey
        else .miss cacheKey

/-- A reference token whose key has an entry with claims is answered from the cache. -/
theorem examine_of_get (server : Server) (now : Int) (cache : Cache String Cached)
    (authorization : Authorization) (rawToken : String) (claims : List Claim)
    (write : Option CacheWrite) (extracted : extractBearerToken authorization = .ok (some rawToken))
    (nonempty : rawToken ≠ "") (reference : server.config.isReferenceToken rawToken = true)
    (cached : server.config.hasCache = true)
    (found : get cache now (server.config.cacheKey server.sha256Hex rawToken) =
      some ⟨some claims, write⟩) :
    server.examine now cache authorization = .hit claims write := by
  simp [Server.examine, extracted, nonempty, reference, cached, found]

/-- What a request's step does to the shared state. -/
inductive Effect where
  | nothing
  | hit (write : Option CacheWrite)
  | store (cacheKey : String) (claims : List Claim) (ttl : Int) (origin : Origin)

/-- `cacheResolvedClaims`: an empty key or an empty set of claims is not stored. -/
def Server.cacheResolvedClaims (server : Server) (capture : Capture) : Effect :=
  if server.config.hasCache = false ∨ capture.delegation.cacheKey = "" ∨
      capture.claimsToCache.length = 0 then .nothing
  else .store capture.delegation.cacheKey capture.claimsToCache capture.delegation.ttl
    (.jwt capture.delegation capture.validated)

/-- The effect of the write of a direct resolution. -/
def Server.cacheDirectClaims (server : Server) (cacheKey : String) (claims : List Claim)
    (ttl : Int) : Effect :=
  if server.config.hasCache = true ∧ claims.length > 0 then .store cacheKey claims ttl .claims
  else .nothing

/-- When a capture is written: a stream writes it at the handoff, a unary call after
its handler. -/
def Server.atHandoff (server : Server) (transport : Transport) : Option Capture → Effect
  | some capture =>
      match transport with
      | .stream => server.cacheResolvedClaims capture
      | .unary => .nothing
  | none => .nothing

def Server.atReturn (server : Server) (transport : Transport) : Option Capture → Effect
  | some capture =>
      match transport with
      | .stream => .nothing
      | .unary => server.cacheResolvedClaims capture
  | none => .nothing

/-- What `capture` records at the handoff of a resolved token. -/
def captureAt (principal : ClaimsPrincipal) (visited : List String) (validated : Bool)
    (delegation : Delegation) : Capture :=
  ⟨delegation, principal.getClaims visited, validated⟩

/-- The principal the handler is entered with. -/
def Server.entering (server : Server) (r : Request) : ClaimsPrincipal :=
  if server.mtlsFirst then r.principal
  else addPeerCertClaims server.sha256Hex r.connection r.principal

/-- The resolution of a request's token at a moment. -/
def Server.resolution (server : Server) (now : Int) (r : Request) (cacheKey : String)
    (visited : List String) (order : TransferOrder) (answers : List ResolverAnswer) :
    ResolveOutcome :=
  server.config.resolve server.library now cacheKey (r.principal.getClaims visited) order answers

/-- The handoff of a request the JWT interceptor lets through. -/
def Request.handOff (r : Request) (principal : ClaimsPrincipal) (capture : Option Capture)
    (verdict : Except GoError Token) : Request :=
  { r with
    principal := principal
    phase := .handed capture
    verdict := some verdict
    contributed := capture.map Capture.claimsToCache }

/-- One step of a request at a moment, with a view of the cache. -/
inductive Advance (server : Server) (now : Int) (cache : Cache String Cached) :
    Request → Request → Effect → Prop where
  | mtls (r : Request) (phase : r.phase = .mtls) :
      Advance server now cache r
        { r with
          principal := addPeerCertClaims server.sha256Hex r.connection r.principal
          phase := .token } .nothing
  | tokenError (r : Request) (err : GoError) (phase : r.phase = .token)
      (examined : server.examine now cache r.authorization = .error err) :
      Advance server now cache r { r with phase := .finished } .nothing
  | passThrough (r : Request) (phase : r.phase = .token)
      (examined : server.examine now cache r.authorization = .passThrough) :
      Advance server now cache r
        { r with atResolve := some r.principal, phase := .validating none } .nothing
  | hit (r : Request) (claims : List Claim) (write : Option CacheWrite) (phase : r.phase = .token)
      (examined : server.examine now cache r.authorization = .hit claims write) :
      Advance server now cache r
        { r with
          atResolve := some r.principal
          principal := r.principal.addClaims (withoutReservedMTLSClaims claims)
          authorization := stripAuthorization r.authorization
          phase := .handed none
          contributed := some (withoutReservedMTLSClaims claims) } (.hit write)
  | miss (r : Request) (cacheKey : String) (phase : r.phase = .token)
      (examined : server.examine now cache r.authorization = .miss cacheKey) :
      Advance server now cache r
        { r with atResolve := some r.principal, phase := .resolving cacheKey } .nothing
  | resolveError (r : Request) (cacheKey : String) (visited : List String)
      (order : TransferOrder) (answers : List ResolverAnswer) (err : GoError)
      (phase : r.phase = .resolving cacheKey) (visits : IterationOrder r.principal.claims visited)
      (resolved : server.resolution now r cacheKey visited order answers = .error err) :
      Advance server now cache r { r with phase := .finished } .nothing
  | resolveDirect (r : Request) (cacheKey : String) (visited : List String)
      (order : TransferOrder) (answers : List ResolverAnswer) (claims : List Claim) (ttl : Int)
      (phase : r.phase = .resolving cacheKey) (visits : IterationOrder r.principal.claims visited)
      (orders : ∀ resolved, resolveViaResolvers answers = .ok (some resolved) →
        order.Visits resolved.claims)
      (resolved : server.resolution now r cacheKey visited order answers = .direct claims ttl) :
      Advance server now cache r
        { r with
          principal := r.principal.addClaims claims
          authorization := stripAuthorization r.authorization
          phase := .handed none
          contributed := some claims } (server.cacheDirectClaims cacheKey claims ttl)
  | resolveJwt (r : Request) (cacheKey : String) (visited : List String) (order : TransferOrder)
      (answers : List ResolverAnswer) (delegation : Delegation)
      (phase : r.phase = .resolving cacheKey) (visits : IterationOrder r.principal.claims visited)
      (resolved : server.resolution now r cacheKey visited order answers =
        .delegateToJWT delegation) :
      Advance server now cache r
        { r with
          authorization := rewriteAuthorizationToJWT r.authorization delegation.rawJWT
          delegation := some delegation
          phase := .validating (some delegation) } .nothing
  | reject (r : Request) (delegation : Option Delegation) (answers : List ValidatorAnswer)
      (order : TransferOrder) (err : GoError) (phase : r.phase = .validating delegation)
      (judged : jwtInterceptor server.library (server.anonymousOnFailure r.transport) answers order
        r.authorization r.principal = .rejected err) :
      Advance server now cache r
        { r with
          phase := .finished
          verdict := some (validate server.library answers r.authorization) } .nothing
  | handOff (r : Request) (delegation : Option Delegation) (answers : List ValidatorAnswer)
      (order : TransferOrder) (principal : ClaimsPrincipal) (validated : Bool)
      (visited : List String) (phase : r.phase = .validating delegation)
      (orders : ∀ token, validate server.library answers r.authorization = .ok token →
        order.Visits (privateClaims token))
      (judged : jwtInterceptor server.library (server.anonymousOnFailure r.transport) answers order
        r.authorization r.principal = .handedOff principal validated)
      (visits : IterationOrder principal.claims visited) :
      Advance server now cache r
        (r.handOff principal (delegation.map (captureAt principal visited validated))
          (validate server.library answers r.authorization))
        (server.atHandoff r.transport (delegation.map (captureAt principal visited validated)))
  | enter (r : Request) (capture : Option Capture) (phase : r.phase = .handed capture) :
      Advance server now cache r
        { r with
          principal := server.entering r
          phase := .handling capture
          entered := some (server.entering r) } .nothing
  | handle (r : Request) (capture : Option Capture) (principal : ClaimsPrincipal)
      (phase : r.phase = .handling capture) :
      Advance server now cache r { r with principal := principal } .nothing
  | finish (r : Request) (capture : Option Capture) (phase : r.phase = .handling capture) :
      Advance server now cache r { r with phase := .finished }
        (server.atReturn r.transport capture)

/-- The clock, the shared cache and the requests by number, with what happened to
the cache so far. -/
structure World where
  now : Int
  cache : Cache String Cached
  requests : Nat → Option Request
  writes : List CacheWrite
  hits : List Hit

/-- Carry out the effect of a request's step. -/
def World.perform (w : World) (id : Nat) : Effect → World
  | .nothing => w
  | .hit write => { w with hits := w.hits ++ [⟨id, w.now, write⟩] }
  | .store cacheKey claims ttl origin =>
      let write : CacheWrite := ⟨id, claims, w.now, ttl, origin⟩
      { w with
        cache := setWithTTL w.cache w.now cacheKey ⟨some claims, some write⟩ ttl
        writes := w.writes ++ [write] }

def World.update (w : World) (id : Nat) (r : Request) : World :=
  { w with requests := Function.update w.requests id (some r) }

/-- A request as it arrives, with the principal earlier interceptors prepared. -/
def Server.arrival (server : Server) (transport : Transport) (connection : Connection)
    (authorization : Authorization) (principal : ClaimsPrincipal) : Request where
  transport := transport
  connection := connection
  authorization := authorization
  principal := principal
  phase := if server.mtlsFirst then .mtls else .token
  started := principal

/-- One step of the server. -/
inductive Step (server : Server) : World → World → Prop where
  | tick (w : World) (later : Int) (forward : w.now ≤ later) :
      Step server w { w with now := later }
  | evict (w : World) (cacheKey : String) :
      Step server w { w with cache := w.cache.erase cacheKey }
  | arrive (w : World) (id : Nat) (transport : Transport) (connection : Connection)
      (authorization : Authorization) (principal : ClaimsPrincipal)
      (isNew : w.requests id = none) :
      Step server w
        (w.update id (server.arrival transport connection authorization principal))
  | advance (w : World) (id : Nat) (r r' : Request) (effect : Effect)
      (present : w.requests id = some r) (moved : Advance server w.now w.cache r r' effect) :
      Step server w ((w.update id r').perform id effect)

/-- A server before its first request, with any contents in its cache. -/
def Initial (w : World) : Prop :=
  (∀ id, w.requests id = none) ∧ w.writes = [] ∧ w.hits = [] ∧
    ∀ cacheKey slot, w.cache.lookup cacheKey = some slot → slot.value.write = none

/-- Effects concern the shared state only. -/
@[simp]
theorem perform_requests (w : World) (id : Nat) (effect : Effect) :
    (w.perform id effect).requests = w.requests := by
  cases effect <;> rfl

/-- After an update every request is the changed one or an old one. -/
theorem update_requests {w : World} {changed : Nat} {after : Request} {id : Nat} {r : Request}
    (found : (w.update changed after).requests id = some r) :
    (changed = id ∧ after = r) ∨ w.requests id = some r := by
  by_cases same : id = changed
  · subst same
    simp only [World.update, Function.update_self, Option.some.injEq] at found
    exact Or.inl ⟨rfl, found⟩
  · simp only [World.update, Function.update_of_ne same] at found
    exact Or.inr found

/-- The invariant rule for single requests: what holds on arrival and is kept by every
step of a request holds of every request of a run. -/
theorem requests_invariant (server : Server) (property : Request → Prop)
    (arrives : ∀ transport connection authorization principal,
      property (server.arrival transport connection authorization principal))
    (kept : ∀ now cache r r' effect, property r → Advance server now cache r r' effect →
      property r') (w : World) (reached : Reachable Initial (Step server) w) :
    ∀ id r, w.requests id = some r → property r := by
  refine reached.invariant (fun w => ∀ id r, w.requests id = some r → property r) ?_ ?_
  · rintro w ⟨unused, _⟩ id r present
    rw [unused] at present
    cases present
  · intro w w' _ inductionHypothesis step id r present
    cases step with
    | tick later forward => exact inductionHypothesis id r present
    | evict cacheKey => exact inductionHypothesis id r present
    | arrive changed transport connection authorization principal isNew =>
      rcases update_requests present with ⟨_, rfl⟩ | before
      · exact arrives transport connection authorization principal
      · exact inductionHypothesis id r before
    | advance changed before after effect found moved =>
      rw [perform_requests] at present
      rcases update_requests present with ⟨_, rfl⟩ | old
      · exact kept _ _ before after effect (inductionHypothesis changed before found) moved
      · exact inductionHypothesis id r old

end FluffyCore.Auth
