import FluffyCore.Auth.RequestRuns

/-!
# Reserved claims come from the connection

Every import path into a principal other than the mtls interceptor drops claims of
reserved types: a validated token, a direct resolution and a cached one. So the
reserved claims a handler sees are those of its own connection, whatever tokens,
resolvers and cache entries say.
-/

namespace FluffyCore.Auth

open Library.MapLoop Library.ExpiringCache Library.Reachability

/-- Adding claims none of which is reserved leaves the reserved ones alone. -/
theorem holds_addClaims_of_reserved (p : ClaimsPrincipal) (claims : List Claim)
    (unreserved : ∀ d ∈ claims, d.reserved = false) (c : Claim) (reserved : c.reserved = true) :
    (p.addClaims claims).Holds c ↔ p.Holds c := by
  rw [ClaimsPrincipal.holds_addClaims, or_iff_left]
  rintro ⟨inside, _⟩
  rw [unreserved c inside] at reserved
  cases reserved

/-- What passes the filter is not reserved. -/
theorem withoutReserved_unreserved (claims : List Claim) :
    ∀ d ∈ withoutReservedMTLSClaims claims, d.reserved = false :=
  fun d inside => ((mem_withoutReserved claims d).1 inside).2

/-- The subject claim is not of a reserved type. -/
theorem subject_unreserved (value : String) : (⟨"sub", value⟩ : Claim).reserved = false := by
  have notReserved : reservedType "sub" = false := by decide
  exact notReserved

/-- The JWT interceptor leaves the reserved claims alone, in all its branches. -/
theorem jwtInterceptor_reserved (library : JwtLibrary) (anonymousOnFailure : Bool)
    (answers : List ValidatorAnswer) (order : TransferOrder) (authorization : Authorization)
    (p principal : ClaimsPrincipal) (validated : Bool)
    (judged : jwtInterceptor library anonymousOnFailure answers order authorization p =
      .handedOff principal validated) (c : Claim) (reserved : c.reserved = true) :
    principal.Holds c ↔ p.Holds c := by
  have subject : ∀ (q : ClaimsPrincipal) value, (q.addClaim ⟨"sub", value⟩).Holds c ↔ q.Holds c :=
    fun q value => holds_addClaims_of_reserved q [⟨"sub", value⟩]
      (by simpa using subject_unreserved value) c reserved
  unfold jwtInterceptor at judged
  split at judged
  · split at judged
    · obtain ⟨rfl, rfl⟩ := JwtOutcome.handedOff.inj judged
      exact subject p "anonymous"
    · cases judged
  · next token _ =>
    obtain ⟨rfl, rfl⟩ := JwtOutcome.handedOff.inj judged
    have transferred := holds_addClaims_of_reserved p (tokenClaims token order)
      (withoutReserved_unreserved _) c reserved
    unfold transferClaims
    dsimp only
    split
    · rw [subject, transferred]
    · exact transferred

/-- A direct resolution contributes no reserved claim. -/
theorem resolve_direct_unreserved (config : Config) (library : JwtLibrary) (now : Int)
    (cacheKey : String) (before : List Claim) (order : TransferOrder)
    (answers : List ResolverAnswer) (claims : List Claim) (ttl : Int)
    (resolved : config.resolve library now cacheKey before order answers = .direct claims ttl) :
    ∀ d ∈ claims, d.reserved = false := by
  unfold Config.resolve at resolved
  split at resolved
  · cases resolved
  · cases resolved
  · dsimp only at resolved
    split at resolved
    · cases resolved
    · obtain ⟨rfl, rfl⟩ := ResolveOutcome.direct.inj resolved
      exact withoutReserved_unreserved _
    · cases resolved

/-- The reserved claims of a principal are those of a list. -/
def ReservedOnly (p : ClaimsPrincipal) (claims : List Claim) : Prop :=
  ∀ c : Claim, c.reserved = true → (p.Holds c ↔ c ∈ claims)

/-- What the mtls interceptor has contributed before the handler is entered. -/
def Server.outerClaims (server : Server) (r : Request) : List Claim :=
  if server.mtlsFirst then connectionClaims server.sha256Hex r.connection else []

/-- Adding claims that are not reserved leaves the reserved ones as they are. -/
theorem ReservedOnly.addClaims {p : ClaimsPrincipal} {held : List Claim}
    (only : ReservedOnly p held) (claims : List Claim)
    (unreserved : ∀ d ∈ claims, d.reserved = false) : ReservedOnly (p.addClaims claims) held :=
  fun c reserved => (holds_addClaims_of_reserved p claims unreserved c reserved).trans
    (only c reserved)

/-- The interceptor adds the connection's claims to whatever was reserved before. -/
theorem ReservedOnly.addPeerCertClaims {p : ClaimsPrincipal} (only : ReservedOnly p [])
    (sha256Hex : ByteArray → String) (connection : Connection) :
    ReservedOnly (addPeerCertClaims sha256Hex connection p)
      (connectionClaims sha256Hex connection) := by
  intro c reserved
  rw [holds_addPeerCertClaims, only c reserved]
  simp

/-- The reserved claims of a request in each phase on its way to the handler. -/
def ReservedPhase (server : Server) (r : Request) : RequestPhase → Prop
  | .mtls => server.mtlsFirst = true ∧ ReservedOnly r.principal []
  | .token => ReservedOnly r.principal (server.outerClaims r)
  | .resolving _ => ReservedOnly r.principal (server.outerClaims r)
  | .validating _ => ReservedOnly r.principal (server.outerClaims r)
  | .handed _ => ReservedOnly r.principal (server.outerClaims r)
  | .handling _ => True
  | .finished => True

/-- A request that started with no claims has the reserved claims it should have. -/
structure ReservedInvariant (server : Server) (r : Request) : Prop where
  phase : (∀ c, ¬ r.started.Holds c) → ReservedPhase server r r.phase
  entered : (∀ c, ¬ r.started.Holds c) → ∀ p, r.entered = some p →
    ReservedOnly p (connectionClaims server.sha256Hex r.connection)

/-- A request that arrives without claims has none that are reserved. -/
theorem arrival_reserved (server : Server) (transport : Transport) (connection : Connection)
    (authorization : Authorization) (principal : ClaimsPrincipal) :
    ReservedInvariant server (server.arrival transport connection authorization principal) := by
  refine ⟨fun fresh => ?_, nofun⟩
  have none : ReservedOnly principal [] := fun c _ =>
    iff_of_false (fresh c) List.not_mem_nil
  unfold Server.arrival
  cases first : server.mtlsFirst with
  | true => exact ⟨first, none⟩
  | false => simpa [ReservedPhase, Server.outerClaims, first] using none

/-- The handler is entered with the connection's claims, on either side of the chain. -/
theorem entering_reserved (server : Server) (r : Request)
    (outer : ReservedOnly r.principal (server.outerClaims r)) :
    ReservedOnly (server.entering r) (connectionClaims server.sha256Hex r.connection) := by
  unfold Server.outerClaims at outer
  unfold Server.entering
  cases first : server.mtlsFirst with
  | true => simpa [first] using outer
  | false =>
    rw [first] at outer
    exact outer.addPeerCertClaims server.sha256Hex r.connection

/-- Every step of a request leaves it with the reserved claims of its connection. -/
theorem advance_reserved (server : Server) (now : Int) (cache : Cache String Cached)
    (r r' : Request) (effect : Effect) (inv : ReservedInvariant server r)
    (moved : Advance server now cache r r' effect) : ReservedInvariant server r' := by
  have phases := inv.phase
  cases moved with
  | mtls phase =>
    rw [phase] at phases
    refine ⟨fun fresh => ?_, inv.entered⟩
    obtain ⟨first, none⟩ := phases fresh
    simpa [ReservedPhase, Server.outerClaims, first] using
      none.addPeerCertClaims server.sha256Hex r.connection
  | tokenError err phase examined => exact ⟨fun _ => trivial, inv.entered⟩
  | passThrough phase examined =>
    rw [phase] at phases
    exact ⟨phases, inv.entered⟩
  | hit claims write phase examined =>
    rw [phase] at phases
    exact ⟨fun fresh => (phases fresh).addClaims _ (withoutReserved_unreserved claims), inv.entered⟩
  | miss cacheKey phase examined =>
    rw [phase] at phases
    exact ⟨phases, inv.entered⟩
  | resolveError cacheKey visited order answers err phase visits resolved =>
    exact ⟨fun _ => trivial, inv.entered⟩
  | resolveDirect cacheKey visited order answers claims ttl phase visits orders resolved =>
    rw [phase] at phases
    exact ⟨fun fresh => (phases fresh).addClaims claims
      (resolve_direct_unreserved _ _ _ _ _ _ _ claims ttl resolved), inv.entered⟩
  | resolveJwt cacheKey visited order answers delegation phase visits resolved =>
    rw [phase] at phases
    exact ⟨phases, inv.entered⟩
  | reject delegation answers order err phase judged => exact ⟨fun _ => trivial, inv.entered⟩
  | handOff delegation answers order principal validated visited phase orders judged visits =>
    rw [phase] at phases
    refine ⟨fun fresh c reserved => ?_, inv.entered⟩
    exact (jwtInterceptor_reserved _ _ _ _ _ _ _ _ judged c reserved).trans
      (phases fresh c reserved)
  | enter capture phase =>
    rw [phase] at phases
    refine ⟨fun _ => trivial, fun fresh p isEntered => ?_⟩
    obtain rfl := Option.some.inj isEntered
    exact entering_reserved server r (phases fresh)
  | handle capture principal phase =>
    refine ⟨fun _ => ?_, inv.entered⟩
    rw [show ({ r with principal := principal } : Request).phase = _ from phase]
    trivial
  | finish capture phase => exact ⟨fun _ => trivial, inv.entered⟩

/-- The reserved claims a handler sees are those of its connection's verified leaf, and
none without one. Two runs that differ in tokens, resolvers, validators, options and
cache contents show a handler the same reserved claims on the same connection. -/
theorem reserved_claims_from_connection (server server' : Server)
    (sameHash : server'.sha256Hex = server.sha256Hex) (w w' : World)
    (reached : Reachable Initial (Step server) w)
    (reached' : Reachable Initial (Step server') w') (id id' : Nat) (r r' : Request)
    (present : w.requests id = some r) (present' : w'.requests id' = some r')
    (fresh : ∀ c, ¬ r.started.Holds c) (fresh' : ∀ c, ¬ r'.started.Holds c)
    (p p' : ClaimsPrincipal) (entered : r.entered = some p) (entered' : r'.entered = some p') :
    (∀ c : Claim, c.reserved = true →
      (p.Holds c ↔ c ∈ connectionClaims server.sha256Hex r.connection)) ∧
    (verifiedClientCert r.connection = none → ∀ c : Claim, c.reserved = true → ¬ p.Holds c) ∧
    (r'.connection = r.connection → ∀ c : Claim, c.reserved = true → (p.Holds c ↔ p'.Holds c)) := by
  have only := (requests_invariant server (ReservedInvariant server) (arrival_reserved server)
    (advance_reserved server) w reached id r present).entered fresh p entered
  have only' := (requests_invariant server' (ReservedInvariant server') (arrival_reserved server')
    (advance_reserved server') w' reached' id' r' present').entered fresh' p' entered'
  refine ⟨only, ?_, ?_⟩
  · intro unverified c reserved holds
    have inside := (only c reserved).1 holds
    simp [connectionClaims, unverified] at inside
  · intro sameConnection c reserved
    rw [only c reserved, only' c reserved, sameHash, sameConnection]

/-- A server whose only tokens start with "pat_" and whose mtls interceptor comes first. -/
def sampleServer : Server where
  sha256Hex _ := "hash"
  library := ⟨fun _ => none, fun _ => none, fun _ => none⟩
  config := ⟨true, 300, "reftok:", ["pat_"]⟩
  anonymousOnFailure _ := false
  mtlsFirst := true

/-- A cache that was handed an entry with a forged certificate name. -/
def forgedCache : Cache String Cached :=
  Finmap.singleton "reftok:hash" ⟨⟨some [⟨"mtls_cn", "admin"⟩, ⟨"sub", "user"⟩], none⟩, 1000⟩

def sampleConnection : Connection := some [[⟨"client", ByteArray.empty, []⟩]]

/-- The forged entry answers the request with a reserved claim in it. -/
theorem examine_forgedCache :
    sampleServer.examine 0 forgedCache (some ["Bearer pat_1"]) =
      .hit [⟨"mtls_cn", "admin"⟩, ⟨"sub", "user"⟩] none := by
  rfl

/-- A request answered from that entry: its handler sees the name of its own
certificate and not the forged one. -/
theorem reserved_claims_from_connection_forged :
    ∃ w r p, Reachable Initial (Step sampleServer) w ∧ w.requests 0 = some r ∧
      r.entered = some p ∧ p.Holds ⟨"mtls_cn", "client"⟩ ∧ ¬ p.Holds ⟨"mtls_cn", "admin"⟩ := by
  let begun : World := ⟨0, forgedCache, fun _ => none, [], []⟩
  have initial : Initial begun := by
    refine ⟨fun _ => rfl, rfl, rfl, fun cacheKey slot found => ?_⟩
    by_cases same : cacheKey = "reftok:hash"
    · subst same
      obtain rfl := Option.some.inj (found.symm.trans rfl)
      rfl
    · have missing : forgedCache.lookup cacheKey = none :=
        Finmap.lookup_eq_none.2 (by simpa [forgedCache] using same)
      cases missing.symm.trans found
  have start : Reachable Initial (Step sampleServer) begun := .start initial
  have arrived := start.next (.arrive begun 0 .unary sampleConnection (some ["Bearer pat_1"]) .empty
    rfl)
  have secured := arrived.next (.advance _ 0 _ _ _ rfl (.mtls _ rfl))
  have answered := secured.next (.advance _ 0 _ _ _ rfl (.hit _ _ _ rfl examine_forgedCache))
  have entered := answered.next (.advance _ 0 _ _ _ rfl (.enter _ none rfl))
  have only := (reserved_claims_from_connection sampleServer sampleServer rfl _ _ entered entered 0 0
    _ _ rfl rfl ClaimsPrincipal.not_holds_empty ClaimsPrincipal.not_holds_empty _ _ rfl rfl).1
  refine ⟨_, _, _, entered, rfl, rfl, (only _ (by decide)).2 ?_, fun holds => ?_⟩
  · change _ ∈ connectionClaims sampleServer.sha256Hex sampleConnection
    decide
  · have forged := (only _ (by decide)).1 holds
    change _ ∈ connectionClaims sampleServer.sha256Hex sampleConnection at forged
    exact absurd forged (by decide)

end FluffyCore.Auth
