import FluffyCore.Auth.JwtInterceptor

/-!
# Reference tokens

An opaque bearer token is resolved to claims, or to a JWT that the wrapped JWT
interceptor then validates. The claims a resolution yields are cached under a hash
of the token. For a JWT these are the claims the validation added to the principal,
and the time they are kept is limited by the JWT's expiry.

Resolvers answer as they like; the middleware is a function of their answers.
-/

namespace FluffyCore.Auth

open Library.MapLoop

/-- The tunables of the middleware. -/
structure Config where
  hasCache : Bool
  defaultTTL : Int
  cacheKeyPrefix : String
  knownPrefixes : List String

/-- A token absent from the metadata is not an error. -/
def extractBearerToken : Authorization → Except GoError (Option String)
  | none => .ok none
  | some [] => .ok none
  | some (value :: _) =>
      match splitOnce ' ' value.toList with
      | some (scheme, token) =>
          if !isBearer scheme then
            .error (.status .unauthenticated "invalid authorization header")
          else .ok (some (String.ofList token))
      | none => .error (.status .unauthenticated "invalid authorization header")

/-- Exactly two dots. -/
def looksLikeJWT (token : String) : Bool := token.toList.count '.' == 2

def Config.isReferenceToken (config : Config) (rawToken : String) : Bool :=
  if config.knownPrefixes.length > 0 then
    config.knownPrefixes.any fun known => known.toList.isPrefixOf rawToken.toList
  else !looksLikeJWT rawToken

def Config.cacheKey (config : Config) (sha256Hex : ByteArray → String) (rawToken : String) :
    String :=
  config.cacheKeyPrefix ++ sha256Hex rawToken.toUTF8

/-- Metadata without an authorization header. -/
def stripAuthorization (_ : Authorization) : Authorization := some []

def rewriteAuthorizationToJWT (_ : Authorization) (jwt : String) : Authorization :=
  some ["Bearer " ++ jwt]

/-- What a resolver says a token stands for. -/
inductive ResolvedKind where
  | unhandled
  | jwt
  | claimsPrincipal
  | other (number : Nat)
deriving DecidableEq

def ResolvedKind.text : ResolvedKind → String
  | .unhandled => "0"
  | .jwt => "1"
  | .claimsPrincipal => "2"
  | .other number => toString number

structure Resolved where
  kind : ResolvedKind
  rawJWT : String
  claims : FiniteMap String ClaimValue
  ttl : Int

structure ResolverAnswer where
  handled : Bool
  resolved : Option Resolved
  err : Option GoError

/-- An error ends the search; the first resolver that handles the token decides. -/
def resolveViaResolvers : List ResolverAnswer → Except GoError (Option Resolved)
  | [] => .ok none
  | answer :: rest =>
      match answer.err with
      | some err => .error err
      | none => if answer.handled then .ok answer.resolved else resolveViaResolvers rest

/-- The zero value of a time, which counts as no expiry. -/
def zeroTime : Int := -62135596800000000000

/-- Limit a TTL to the remaining lifetime of a JWT; the flag is false when that has
passed. A lifetime beyond the range of a duration exceeds every TTL, so it needs no
saturation. -/
def capTTLToJWTExpiry (library : JwtLibrary) (now ttl : Int) (rawJWT : String) : Int × Bool :=
  match library.parse rawJWT with
  | none => (ttl, true)
  | some token =>
      match token.expiration with
      | none => (ttl, true)
      | some exp =>
          if exp = zeroTime then (ttl, true)
          else if exp - now ≤ 0 then (0, false)
          else if exp - now < ttl then (exp - now, true)
          else (ttl, true)

/-- What is remembered of a resolution to a JWT until its claims are known: the key
is empty when they must not be cached. The last two fields record the TTL before it
was capped and the moment it was capped at. -/
structure Delegation where
  cacheKey : String
  ttl : Int
  rawJWT : String
  claimsBefore : List Claim
  baseTTL : Int
  cappedAt : Int

/-- The middleware's decision once the resolvers have answered. -/
inductive ResolveOutcome where
  | error (err : GoError)
  | delegateToJWT (delegation : Delegation)
  | direct (claims : List Claim) (ttl : Int)

/-- The TTL of a resolution, or the default where it names none. -/
def Config.resolvedTTL (config : Config) (resolved : Resolved) : Int :=
  if resolved.ttl ≤ 0 then config.defaultTTL else resolved.ttl

/-- The part of `resolve` after the cache was missed. -/
def Config.resolve (config : Config) (library : JwtLibrary) (now : Int) (cacheKey : String)
    (claimsBefore : List Claim) (order : TransferOrder) (answers : List ResolverAnswer) :
    ResolveOutcome :=
  match resolveViaResolvers answers with
  | .error err => .error err
  | .ok none => .error (.status .unauthenticated "unrecognized reference token")
  | .ok (some resolved) =>
      let ttl := config.resolvedTTL resolved
      match resolved.kind with
      | .jwt =>
          let capped := capTTLToJWTExpiry library now ttl resolved.rawJWT
          .delegateToJWT
            { cacheKey := if capped.2 then cacheKey else ""
              ttl := capped.1
              rawJWT := resolved.rawJWT
              claimsBefore := claimsBefore
              baseTTL := ttl
              cappedAt := now }
      | .claimsPrincipal =>
          .direct (withoutReservedMTLSClaims
            ((claimsPrincipalFromClaimsMap resolved.claims order.claims).getClaims order.scratch))
            ttl
      | kind => .error (.status .internal
          ("referencetoken middleware: resolver returned unrecognized ResolvedKind " ++ kind.text))

/-- The principal's claims at the moment the JWT interceptor hands off, with the
resolution they belong to and whether the token was validated. -/
structure Capture where
  delegation : Delegation
  claims : List Claim
  validated : Bool

/-- What the JWT validation added, minus reserved claims. -/
def Capture.claimsToCache (capture : Capture) : List Claim :=
  withoutReservedMTLSClaims (claimsAddedSince capture.delegation.claimsBefore capture.claims)

/-- The filter keeps exactly the claims that are not reserved. -/
theorem mem_withoutReserved (claims : List Claim) (c : Claim) :
    c ∈ withoutReservedMTLSClaims claims ↔ c ∈ claims ∧ c.reserved = false := by
  simp [withoutReservedMTLSClaims]

/-- What a capture caches are the claims that came since the resolution began and are not
reserved. -/
theorem mem_claimsToCache (capture : Capture) (c : Claim) :
    c ∈ capture.claimsToCache ↔
      c ∈ capture.claims ∧ c ∉ capture.delegation.claimsBefore ∧ c.reserved = false := by
  simp [Capture.claimsToCache, mem_withoutReserved, claimsAddedSince, and_assoc]

end FluffyCore.Auth
