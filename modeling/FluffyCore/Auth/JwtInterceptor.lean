import FluffyCore.Auth.ClaimsPrincipal
import FluffyCore.Status

/-!
# The JWT interceptor

The interceptor takes a bearer token from the request's metadata, has the
registered validators judge it and transfers its claims to the principal. A request
without a token goes on as anonymous; one whose token is rejected goes on as
anonymous only when the interceptor is configured so. The unary and the stream
interceptor take the same branches.

Decoding a token is the business of a library, given here by two functions. What a
validator answers is not fixed either: the interceptor is a function of the answers.
-/

namespace FluffyCore.Auth

open Library.MapLoop

/-- A decoded token: its registered fields and all its claims by name. A field the
token does not have reads as "". -/
structure Token where
  issuer : String
  subject : String
  expiration : Option Int
  claims : FiniteMap String ClaimValue

/-- The decoding functions of the JOSE library. Times are in nanoseconds. -/
structure JwtLibrary where
  /-- `jwt.Parse` without verification or validation. -/
  parse : String → Option Token
  /-- `jws.ParseString`: the key id and the payload of a signed message. -/
  parseMessage : String → Option (String × String)
  /-- `jwt.Parse` of a payload, without verification or validation. -/
  parsePayload : String → Option Token

/-- Cut a text at the first occurrence of a separator. -/
def splitOnce (separator : Char) : List Char → Option (List Char × List Char)
  | [] => none
  | c :: rest =>
      if c = separator then some ([], rest)
      else (splitOnce separator rest).map fun parts => (c :: parts.1, parts.2)

/-- The comparison with the scheme name, which has only ASCII letters. -/
def isBearer (scheme : List Char) : Bool :=
  scheme.map Char.toLower == "bearer".toList

/-- The values of the authorization metadata; none when there is no metadata at all. -/
abbrev Authorization : Type := Option (List String)

def getTokenFromAuthorizationHeader : Authorization → Except GoError (Option String)
  | none => .error (.status .unauthenticated "no metadata found")
  | some [] => .ok none
  | some (bear :: _) =>
      match splitOnce ' ' bear.toList with
      | some (scheme, token) =>
          -- A second blank would be a third part.
          if token.contains ' ' then .error (.status .unauthenticated "invalid authorization")
          else if !isBearer scheme then .error (.status .unauthenticated "invalid authorization")
          else .ok (some (String.ofList token))
      | none => .error (.status .unauthenticated "invalid authorization")

/-- A validator's answer: whether it handles the token, and its error. -/
structure ValidatorAnswer where
  handled : Bool
  err : Option GoError

/-- The first validator that handles the token decides. -/
def askValidators (token : Token) : List ValidatorAnswer → Except GoError Token
  | [] => .error (.status .unauthenticated "token validation error")
  | answer :: rest =>
      if answer.handled then
        match answer.err with
        | some err => .error err
        | none => .ok token
      else askValidators token rest

/-- `_validate`, with `getRawToken` in line. -/
def validate (library : JwtLibrary) (answers : List ValidatorAnswer)
    (authorization : Authorization) : Except GoError Token :=
  match getTokenFromAuthorizationHeader authorization with
  | .error _ => .error (.status .unauthenticated "token parse error")
  | .ok none => .error (.status .notFound "no token found")
  | .ok (some token) =>
      match library.parseMessage token with
      | none => .error (.status .unauthenticated "Failed to parse JWT. Invalid headers")
      | some (kid, payload) =>
          match library.parsePayload payload with
          | none => .error (.status .unauthenticated "Failed to parse JWT. Invalid format")
          | some parsed =>
              if kid = "" then .error (.status .unauthenticated "no kid found in token")
              else if parsed.issuer = "" then
                .error (.status .unauthenticated "no issuer found in token")
              else askValidators parsed answers

/-- The names of the registered claims. -/
def registeredClaims : List String := ["iss", "sub", "aud", "exp", "nbf", "iat", "jti"]

/-- `privateClaims`: a copy of the claims without the registered ones. -/
def privateClaims (token : Token) : FiniteMap String ClaimValue :=
  registeredClaims.foldl (fun claims name => claims.erase name) token.claims

def anonymousClaim : Claim := ⟨"sub", "anonymous"⟩

/-- The orders in which the interceptor visits the token's claims and the scratch
principal built from them. -/
structure TransferOrder where
  claims : List String
  scratch : List String

/-- The claims a token contributes before the subject. -/
def tokenClaims (token : Token) (order : TransferOrder) : List Claim :=
  withoutReservedMTLSClaims
    ((claimsPrincipalFromClaimsMap (privateClaims token) order.claims).getClaims order.scratch)

/-- Transfer the claims of a validated token to the principal. -/
def transferClaims (token : Token) (order : TransferOrder) (claimsPrincipal : ClaimsPrincipal) :
    ClaimsPrincipal :=
  let transferred := claimsPrincipal.addClaims (tokenClaims token order)
  if token.subject ≠ "" then transferred.addClaim ⟨"sub", token.subject⟩ else transferred

/-- What the interceptor does with a request: reject it, or hand it on with the
principal it prepared. The flag tells whether the token was validated. -/
inductive JwtOutcome where
  | rejected (err : GoError)
  | handedOff (claimsPrincipal : ClaimsPrincipal) (validated : Bool)

def jwtInterceptor (library : JwtLibrary) (anonymousOnFailure : Bool)
    (answers : List ValidatorAnswer) (order : TransferOrder) (authorization : Authorization)
    (claimsPrincipal : ClaimsPrincipal) : JwtOutcome :=
  match validate library answers authorization with
  | .error err =>
      if anonymousOnFailure || err.isNotFound then
        .handedOff (claimsPrincipal.addClaim anonymousClaim) false
      else .rejected err
  | .ok token => .handedOff (transferClaims token order claimsPrincipal) true

/-- The orders are orders of the claims map and of the principal built from it. -/
def TransferOrder.Visits (order : TransferOrder) (claims : FiniteMap String ClaimValue) : Prop :=
  IterationOrder claims order.claims ∧
    IterationOrder (claimsPrincipalFromClaimsMap claims order.claims).claims order.scratch

/-- The claims a validated token stands for. -/
def TokenClaim (token : Token) (c : Claim) : Prop :=
  (MapClaim (privateClaims token) c ∧ c.reserved = false) ∨
    (token.subject ≠ "" ∧ c = ⟨"sub", token.subject⟩)

/-- A token contributes its private claims that are not reserved. -/
theorem mem_tokenClaims (token : Token) (order : TransferOrder)
    (visits : order.Visits (privateClaims token)) (c : Claim) :
    c ∈ tokenClaims token order ↔ MapClaim (privateClaims token) c ∧ c.reserved = false := by
  rw [tokenClaims, withoutReservedMTLSClaims, List.mem_filter,
    ClaimsPrincipal.mem_getClaims _ _ visits.2,
    holds_claimsPrincipalFromClaimsMap _ _ visits.1, Bool.not_eq_true']

/-- A validated token contributes exactly its claims, whatever the orders. -/
theorem holds_transferClaims (token : Token) (order : TransferOrder)
    (visits : order.Visits (privateClaims token)) (p : ClaimsPrincipal) (c : Claim) :
    (transferClaims token order p).Holds c ↔ p.Holds c ∨ TokenClaim token c := by
  have transferred : (p.addClaims (tokenClaims token order)).Holds c ↔
      p.Holds c ∨ MapClaim (privateClaims token) c ∧ c.reserved = false := by
    rw [ClaimsPrincipal.holds_addClaims, mem_tokenClaims token order visits]
    refine or_congr_right ⟨And.left, fun claim => ⟨claim, claim.1.1⟩⟩
  unfold transferClaims TokenClaim
  by_cases subject : token.subject = ""
  · simp only [subject, ne_eq, not_true_eq_false, if_false, false_and, or_false]
    exact transferred
  · simp only [subject, ne_eq, not_false_eq_true, if_true, true_and]
    rw [ClaimsPrincipal.holds_addClaim, transferred, or_assoc]
    simp

end FluffyCore.Auth
