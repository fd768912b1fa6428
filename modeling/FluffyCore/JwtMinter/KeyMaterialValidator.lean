import FluffyCore.JwtMinter.Minting
import FluffyCore.Library.MapLoop
import FluffyCore.Library.QuotedText
import Mathlib.Tactic.Linarith

/-!
# Validating minted tokens

The validator verifies a token with the public keys of the whole key material, retired ones
included, and then asks whether the signing key was valid when the token was issued. The
minter signs with a key once its window has opened, at any instant; the date of issue is that
instant rounded down to seconds. The two agree unless the rounding falls before the window.
-/

namespace FluffyCore.JwtMinter

open Library.MapLoop Library.QuotedText

structure JWTValidatorOptions where
  clockSkewMinutes : Int
  validateSignature : Option Bool := none
  validateIssuer : Option Bool := none
  issuer : String

def JWTValidatorOptions.shouldValidateSignature (options : JWTValidatorOptions) : Bool :=
  options.validateSignature.getD true

def JWTValidatorOptions.shouldValidateIssuer (options : JWTValidatorOptions) : Bool :=
  options.validateIssuer.getD true

/-- A duration is a 64-bit count of nanoseconds. -/
def duration (nanoseconds : Int) : Int := nanoseconds.bmod (2 ^ 64)

def JWTValidatorOptions.clockSkew (options : JWTValidatorOptions) : Int :=
  duration (60 * second * options.clockSkewMinutes)

structure KeyMaterialValidator (PublicKey : Type) where
  options : JWTValidatorOptions
  keySet : List PublicKey
  keysByKid : FiniteMap String SigningKey

section Service

variable {Token ParsedKey PublicKey : Type} (jose : Jose Token ParsedKey PublicKey)
  (decryptPEM : String → String → Except String String)

/-- The loop of `CreateKeySet`. -/
def Jose.publicKeys (keys : List SigningKey) : Except GoError (List PublicKey) :=
  keys.foldlM (fun set key =>
    match jose.publicKeyOf key.privateJwk with
    | .error message => .error (.plain message)
    | .ok publicKey => .ok (set ++ [publicKey])) []

def KeyMaterialService.createKeySet (s : KeyMaterialService) (now : Int) :
    Except GoError (List PublicKey) × KeyMaterialService :=
  match s.getSigningKeys decryptPEM now with
  | (.error err, s) => (.error err, s)
  | (.ok keys, s) => (jose.publicKeys keys, s)

/-- The loop of the constructor that indexes the keys by their names. -/
def indexByKid (keys : List SigningKey) : FiniteMap String SigningKey :=
  keys.foldl (fun byKid key => byKid.insert key.kid key) ∅

/-- `Ctor`. It asks the key material twice, at two instants. -/
def KeyMaterialValidator.ctor (s : KeyMaterialService) (options : JWTValidatorOptions)
    (setAt keysAt : Int) : Except GoError (KeyMaterialValidator PublicKey) × KeyMaterialService :=
  match s.createKeySet jose decryptPEM setAt with
  | (.error err, s) => (.error err, s)
  | (.ok keySet, s) =>
    match s.getSigningKeys decryptPEM keysAt with
    | (.error err, s) => (.error err, s)
    | (.ok keys, s) => (.ok ⟨options, keySet, indexByKid keys⟩, s)

variable (unicode : Unicode) (formatRFC3339 : Int → String)

/-- The date of issue the window is tested against. A token without one counts as issued
now, and so does one with the zero time. -/
def issuedTime (claims : Claims) (now : Int) : Int :=
  let issued := (claims.issuedAt.map (· * second)).getD zeroTime
  if issued = zeroTime then now else issued

def KeyMaterialValidator.checkSigningKeyWindow (v : KeyMaterialValidator PublicKey)
    (accessToken : Token) (claims : Claims) (now : Int) : Except GoError Unit :=
  match jose.signatureKids accessToken with
  | .error message => .error (.plain message)
  | .ok [] => .error (.plain "token has no signature")
  | .ok (kid :: _) =>
    match v.keysByKid.lookup kid with
    | none => .error (.plain ("token signed with unknown key " ++ quote unicode kid))
    | some key =>
      let issued := issuedTime claims now
      let skew := v.options.clockSkew
      if issued < key.notBefore + duration (-skew) ∨ key.notAfter + skew < issued then
        .error (.plain ("token issued at " ++ formatRFC3339 issued ++ " outside signing key " ++
          quote unicode kid ++ " validity [" ++ formatRFC3339 key.notBefore ++ ", " ++
          formatRFC3339 key.notAfter ++ "]"))
      else .ok ()

/-- A result of the JOSE libraries. -/
def joseResult {α : Type} : Except String α → Except GoError α
  | .error message => .error (.plain message)
  | .ok value => .ok value

def KeyMaterialValidator.parseAccessTokenRaw (v : KeyMaterialValidator PublicKey)
    (accessToken : Token) (now : Int) : Except GoError Claims := do
  let claims ← joseResult (
    if v.options.shouldValidateSignature then jose.parseWithKeySet v.keySet accessToken
    else jose.parseUnverified accessToken)
  let issuer := if v.options.shouldValidateIssuer then some v.options.issuer else none
  joseResult (jose.validate issuer v.options.clockSkew claims now)
  if v.options.shouldValidateSignature then
    v.checkSigningKeyWindow jose unicode formatRFC3339 accessToken claims now
  return claims

def KeyMaterialValidator.validateAccessToken (v : KeyMaterialValidator PublicKey)
    (accessToken : Token) (now : Int) : Except GoError Bool := do
  let _ ← v.parseAccessTokenRaw jose unicode formatRFC3339 accessToken now
  return true

/-- What is assumed of the JOSE libraries for the configured keys: a token signed with the
private key of a configured key, under its name, verifies with the public keys of all of
them and has the claims that were signed; it carries one signature, with that name; and the
claims of the right issuer validate between their dates. -/
structure Jose.Correct (keys : List SigningKey) : Prop where
  verifies : ∀ key ∈ keys, ∀ pem parsed method claims token publicKeys,
    decryptPEM key.privateKey key.password = .ok pem →
    signingMethod key.privateJwk.alg = some method →
    jose.getKey key.privateJwk.alg pem = .ok parsed →
    jose.signedString method key.kid claims parsed = .ok token →
    jose.publicKeys keys = .ok publicKeys → jose.parseWithKeySet publicKeys token = .ok claims
  names : ∀ method kid claims parsed token, jose.signedString method kid claims parsed = .ok token →
    jose.signatureKids token = .ok [kid]
  validates : ∀ issuer skew claims issued expires now, claims.issuer = some issuer →
    claims.issuedAt = some issued → claims.expiration = some expires →
    issued * second ≤ now → now < expires * second →
    jose.validate (some issuer) skew claims now = .ok ()

/-- The signing key is a copy of a configured key that decrypts, and the call is after its
window opened and not after it closed. -/
theorem getSigningKey_configured (keys : List SigningKey) (s : KeyMaterialService) (now : Int)
    (cached : Cached decryptPEM keys s now) (signingKey : SigningKey)
    (returned : (s.getSigningKey decryptPEM now).1 = .ok (some signingKey)) :
    ∃ key ∈ keys, ∃ pem, decryptPEM key.privateKey key.password = .ok pem ∧
      signingKey = { key with decryptedPrivateKey := pem } ∧
      key.notBefore < now ∧ now ≤ key.notAfter := by
  obtain ⟨stored, rebuilt, stop, later, within, quiet, snapshot⟩ := afterReload_ok decryptPEM
    (·.signingKey) keys s _ now (some signingKey) cached (Prod.ext returned rfl)
  obtain ⟨key, pem, last, opened, same⟩ := snapshot.signingKey
  have active : key ∈ activeKeys keys rebuilt := List.mem_of_getLast? last
  refine ⟨key, (List.mem_filter.1 active).1, pem, opened, ?_,
    window_of_quiet keys rebuilt stop now quiet later within key active⟩
  exact Option.some.inj (stored.trans same)

/-- No call changes the configured keys. -/
theorem getSigningKeys_eq (s : KeyMaterialService) (now : Int) :
    (s.getSigningKeys decryptPEM now).2.signingKeys = s.signingKeys ∧
      ∀ keys, (s.getSigningKeys decryptPEM now).1 = .ok keys → keys = s.signingKeys := by
  have unchanged : (s.reloadKeys decryptPEM now).2.signingKeys = s.signingKeys := by
    unfold KeyMaterialService.reloadKeys
    split_ifs
    · rfl
    · rfl
    · split
      · rfl
      · split <;> rfl
  unfold KeyMaterialService.getSigningKeys KeyMaterialService.afterReload
  split
  · next err after reloaded =>
    rw [reloaded] at unchanged
    exact ⟨unchanged, fun keys failed => absurd failed (by simp)⟩
  · next after reloaded =>
    rw [reloaded] at unchanged
    exact ⟨unchanged, fun keys same => (Except.ok.inj same).symm.trans unchanged⟩

/-- The key set has the public keys of all configured keys, and making it changes none of them. -/
theorem createKeySet_eq (s : KeyMaterialService) (now : Int) :
    (s.createKeySet jose decryptPEM now).2.signingKeys = s.signingKeys ∧
      ∀ keySet, (s.createKeySet jose decryptPEM now).1 = .ok keySet →
        jose.publicKeys s.signingKeys = .ok keySet := by
  have asked := getSigningKeys_eq decryptPEM s now
  unfold KeyMaterialService.createKeySet
  split
  · next err after failed =>
    rw [failed] at asked
    exact ⟨asked.1, fun keySet isSet => absurd isSet (by simp)⟩
  · next keys after answered =>
    rw [answered] at asked
    exact ⟨asked.1, fun keySet isSet => asked.2 keys rfl ▸ isSet⟩

/-- What the constructor builds depends on the configured keys only. -/
theorem ctor_eq (s : KeyMaterialService) (options : JWTValidatorOptions) (setAt keysAt : Int)
    (v : KeyMaterialValidator PublicKey)
    (built : (KeyMaterialValidator.ctor jose decryptPEM s options setAt keysAt).1 = .ok v) :
    jose.publicKeys s.signingKeys = .ok v.keySet ∧ v.options = options ∧
      v.keysByKid = indexByKid s.signingKeys := by
  have created := createKeySet_eq jose decryptPEM s setAt
  unfold KeyMaterialValidator.ctor at built
  split at built
  · cases built
  · next keySet between isSet =>
    rw [isSet] at created
    have asked := getSigningKeys_eq decryptPEM between keysAt
    split at built
    · cases built
    · next keys after answered =>
      rw [answered] at asked
      obtain rfl := Except.ok.inj built
      refine ⟨created.2 keySet rfl, rfl, ?_⟩
      rw [asked.2 keys rfl, created.1]

/-- With distinct names every key is found under its own. -/
theorem lookup_indexByKid (keys : List SigningKey) (distinct : (keys.map (·.kid)).Nodup)
    (key : SigningKey) (configured : key ∈ keys) : (indexByKid keys).lookup key.kid = some key := by
  induction keys using List.reverseRecOn with
  | nil => cases configured
  | append_singleton before last inductionHypothesis =>
    rw [List.map_append, List.nodup_append] at distinct
    have unfolded : indexByKid (before ++ [last]) = (indexByKid before).insert last.kid last := by
      rw [indexByKid, List.foldl_append, List.foldl_cons, List.foldl_nil]
      rfl
    rw [unfolded]
    rcases List.mem_append.1 configured with earlier | isLast
    · have other : key.kid ≠ last.kid :=
        distinct.2.2 key.kid (List.mem_map.2 ⟨key, earlier, rfl⟩) last.kid (by simp)
      rw [Finmap.lookup_insert_of_ne _ other]
      exact inductionHypothesis distinct.1 earlier
    · obtain rfl : key = last := by simpa using isLast
      exact Finmap.lookup_insert _

/-- A date inside the window of a key, widened by the skew. -/
def InWindow (key : SigningKey) (skew : Int) (issued : Int) : Prop :=
  key.notBefore + duration (-skew) ≤ issued ∧ issued ≤ key.notAfter + skew

instance (key : SigningKey) (skew issued : Int) : Decidable (InWindow key skew issued) :=
  inferInstanceAs (Decidable (_ ∧ _))

/-- Once a token has verified and its claims have validated, it is accepted exactly when its
date is in the window of its key. -/
theorem validateAccessToken_iff (v : KeyMaterialValidator PublicKey) (token : Token)
    (claims : Claims) (now : Int) (key : SigningKey)
    (signature : v.options.shouldValidateSignature = true)
    (issuer : v.options.shouldValidateIssuer = true)
    (verified : jose.parseWithKeySet v.keySet token = .ok claims)
    (validated : jose.validate (some v.options.issuer) v.options.clockSkew claims now = .ok ())
    (named : jose.signatureKids token = .ok [key.kid])
    (known : v.keysByKid.lookup key.kid = some key) :
    v.validateAccessToken jose unicode formatRFC3339 token now = .ok true ↔
      InWindow key v.options.clockSkew (issuedTime claims now) := by
  have parsed : v.parseAccessTokenRaw jose unicode formatRFC3339 token now =
      (v.checkSigningKeyWindow jose unicode formatRFC3339 token claims now).map
        fun _ => claims := by
    rw [KeyMaterialValidator.parseAccessTokenRaw]
    simp only [signature, issuer, verified, validated, if_true, joseResult, bind, Except.bind,
      pure, Except.pure]
    cases v.checkSigningKeyWindow jose unicode formatRFC3339 token claims now <;> rfl
  rw [KeyMaterialValidator.validateAccessToken, parsed, KeyMaterialValidator.checkSigningKeyWindow]
  simp only [named, known]
  split
  · next outside =>
    simp only [Except.map, bind, Except.bind, reduceCtorEq, false_iff, InWindow]
    omega
  · next inside =>
    simp only [Except.map, bind, Except.bind, pure, Except.pure, true_iff, InWindow]
    omega

/-- When a key vouches for a token that was minted at an instant and ends at another: its
date of issue is in the key's window, or, if that date is the zero time and so not read as a
date, the whole life of the token is. -/
def Vouches (key : SigningKey) (skew : Int) (issued minted ends : Int) : Prop :=
  if issued = zeroTime then InWindow key skew minted ∧ InWindow key skew (ends - 1)
  else InWindow key skew issued

instance (key : SigningKey) (skew issued minted ends : Int) :
    Decidable (Vouches key skew issued minted ends) := by
  unfold Vouches
  infer_instance

/-- A key is in the window of every instant of a stretch if it is at both ends. -/
theorem forall_inWindow_iff (key : SigningKey) (skew : Int) (minted ends : Int)
    (nonempty : minted < ends) :
    (∀ now, minted ≤ now → now < ends → InWindow key skew now) ↔
      InWindow key skew minted ∧ InWindow key skew (ends - 1) := by
  constructor
  · intro throughout
    exact ⟨throughout minted le_rfl nonempty, throughout (ends - 1) (by omega) (by omega)⟩
  · rintro ⟨⟨opened, _⟩, ⟨_, notClosed⟩⟩ now later before
    exact ⟨opened.trans later, le_trans (by omega) notClosed⟩

/-- A count of nanoseconds that fits is kept. -/
theorem duration_of_fits (nanoseconds : Int) (low : -(2 ^ 63) ≤ nanoseconds)
    (high : nanoseconds < 2 ^ 63) : duration nanoseconds = nanoseconds := by
  refine Int.bmod_eq_of_le ?_ ?_ <;> norm_num <;> omega

/-- With a skew that fits a duration, the only way for a key not to vouch for a token it
signed is that the date of issue, rounded down, falls before the window and the skew. -/
theorem vouches_iff_of_fits (key : SigningKey) (options : JWTValidatorOptions)
    (issued minted ends : Int) (nonnegative : 0 ≤ options.clockSkewMinutes)
    (fits : options.clockSkewMinutes ≤ 153722867) (rounded : issued ≤ minted)
    (signed : minted ≤ key.notAfter) (dated : issued ≠ zeroTime) :
    Vouches key options.clockSkew issued minted ends ↔
      key.notBefore ≤ issued + 60 * second * options.clockSkewMinutes := by
  have skew : options.clockSkew = 60 * second * options.clockSkewMinutes := by
    refine duration_of_fits _ ?_ ?_ <;> simp only [second] <;> omega
  have back : duration (-(60 * second * options.clockSkewMinutes)) =
      -(60 * second * options.clockSkewMinutes) := by
    refine duration_of_fits _ ?_ ?_ <;> simp only [second] <;> omega
  rw [Vouches, if_neg dated, InWindow, skew, back]
  simp only [second]
  omega

/-- A minted token is accepted from the instant it was minted until it expires, whatever
happened to its signing key since, exactly when that key vouches for it: when the date of
issue, the instant rounded down to seconds, is in the key's window widened by the skew. With
a skew that fits a duration this fails only when the rounding falls before the window. -/
theorem minted_token_accepted_iff (keys : List SigningKey) (distinct : (keys.map (·.kid)).Nodup)
    (correct : jose.Correct decryptPEM keys)
    (history : List (MintingCall × Int)) (ordered : history.Pairwise (fun c d => c.2 ≤ d.2))
    (minted : Int) (past : ∀ call ∈ history, call.2 ≤ minted) (claims : Claims) (expires : Int)
    (token : Token) (signingKey : SigningKey)
    (signs : ((MintingService.run jose decryptPEM keys history).keyMaterial.getSigningKey
      decryptPEM minted).1 = .ok (some signingKey))
    (mints : ((MintingService.run jose decryptPEM keys history).mintToken jose decryptPEM claims
      minted).1 = .ok token)
    (source : KeyMaterialService) (sameKeys : source.signingKeys = keys)
    (options : JWTValidatorOptions) (setAt keysAt : Int) (v : KeyMaterialValidator PublicKey)
    (built : (KeyMaterialValidator.ctor jose decryptPEM source options setAt keysAt).1 = .ok v)
    (signature : options.shouldValidateSignature = true)
    (issuer : options.shouldValidateIssuer = true) (issued : claims.issuer = some options.issuer)
    (dated : claims.issuedAt = some (minted / second))
    (ends : claims.expiration = some expires) (later : minted < expires * second) :
    ((∀ now, minted ≤ now → now < expires * second →
        v.validateAccessToken jose unicode formatRFC3339 token now = .ok true) ↔
      Vouches signingKey options.clockSkew (minted / second * second) minted
        (expires * second)) ∧
    (0 ≤ options.clockSkewMinutes → options.clockSkewMinutes ≤ 153722867 →
      minted / second * second ≠ zeroTime →
      (Vouches signingKey options.clockSkew (minted / second * second) minted
        (expires * second) ↔
      signingKey.notBefore ≤
        minted / second * second + 60 * second * options.clockSkewMinutes)) := by
  have minting := run_minting jose decryptPEM keys history ordered minted past
  obtain ⟨key, configured, pem, opened, rfl, _, notClosed⟩ :=
    getSigningKey_configured decryptPEM keys _ minted minting.cached signingKey signs
  obtain ⟨other, method, parsed, asked, chosen, got, signed⟩ :=
    (mintToken_spec jose decryptPEM keys _ claims minted minting).2 token mints
  obtain rfl := Option.some.inj (Except.ok.inj (signs.symm.trans asked))
  obtain ⟨sameSet, rfl, sameIndex⟩ := ctor_eq jose decryptPEM source options setAt keysAt v built
  rw [sameKeys] at sameSet sameIndex
  have rounded : minted / second * second ≤ minted := Int.ediv_mul_le _ (by decide)
  refine ⟨?_, fun nonnegative fits isDate => vouches_iff_of_fits _ _ _ _ _ nonnegative fits
    rounded notClosed isDate⟩
  have accepted : ∀ now, minted ≤ now → now < expires * second →
      (v.validateAccessToken jose unicode formatRFC3339 token now = .ok true ↔
        InWindow key v.options.clockSkew (issuedTime claims now)) := by
    intro now notEarlier before
    refine validateAccessToken_iff jose unicode formatRFC3339 v token claims now key signature
      issuer ?_ ?_ ?_ ?_
    · exact correct.verifies key configured pem parsed method claims token v.keySet opened chosen
        got signed sameSet
    · exact correct.validates _ _ claims _ expires now issued dated ends
        (rounded.trans notEarlier) before
    · exact correct.names _ _ _ _ _ signed
    · rw [sameIndex]
      exact lookup_indexByKid keys distinct key configured
  have date : ∀ now, issuedTime claims now =
      if minted / second * second = zeroTime then now else minted / second * second := by
    intro now
    simp [issuedTime, dated]
  rw [Vouches]
  split
  · next zero =>
    refine Iff.trans ?_
      (forall_inWindow_iff key v.options.clockSkew minted (expires * second) later)
    refine forall_congr' fun now => forall_congr' fun notEarlier => forall_congr' fun before => ?_
    rw [accepted now notEarlier before, date, if_pos zero]
  · next isDate =>
    constructor
    · intro throughout
      have atOnce := (accepted minted le_rfl later).1 (throughout minted le_rfl later)
      rwa [date, if_neg isDate] at atOnce
    · intro inside now notEarlier before
      rw [accepted now notEarlier before, date, if_neg isDate]
      exact inside

end Service

/-- JOSE libraries in which a token is its key's name and its claims, a public key is a name,
and a signature verifies when the name is in the set. -/
def namedTokens : Jose (String × Claims) String String where
  parseEdPrivateKeyFromPEM pem := .ok pem
  parseECPrivateKeyFromPEM pem := .ok pem
  parseRSAPrivateKeyFromPEM pem := .ok pem
  signedString _ kid claims _ := .ok (kid, claims)
  publicKeyOf jwk := .ok jwk.kid
  parseWithKeySet keySet token :=
    if token.1 ∈ keySet then .ok token.2 else .error "could not verify message"
  parseUnverified token := .ok token.2
  signatureKids token := .ok [token.1]
  validate issuer skew claims now :=
    if issuer.isSome ∧ issuer ≠ claims.issuer then .error "iss not satisfied"
    else match claims.expiration with
      | none => .error "exp is required"
      | some expires =>
        if now < expires * second ∨ now < expires * second + skew then .ok ()
        else .error "exp not satisfied"

/-- The library of named tokens verifies what was signed. -/
theorem namedTokens_correct (decryptPEM : String → String → Except String String)
    (key : SigningKey) (named : key.privateJwk.kid = key.kid) :
    namedTokens.Correct decryptPEM [key] where
  verifies other configured pem parsed method claims token publicKeys _ _ _ signed collected := by
    obtain rfl := List.mem_singleton.1 configured
    obtain rfl := Except.ok.inj signed
    obtain rfl := Except.ok.inj collected
    simp [namedTokens, named]
  names method kid claims parsed token signed := by
    obtain rfl := Except.ok.inj signed
    rfl
  validates issuer skew claims issued expires now isIssuer _ ends _ before := by
    simp [namedTokens, isIssuer, ends, before]

/-- Claims of a token issued in the first second and valid for a minute. -/
def firstMinute : Claims := ⟨some "issuer", some 0, some 60⟩

/-- A token minted in the first second, by a key whose window opened half a second before
and closes half a minute later, is accepted at once and after its key was retired. -/
theorem minted_token_accepted_iff_retired_key :
    KeyMaterialValidator.validateAccessToken namedTokens asciiTables (fun _ => "")
        ⟨⟨0, none, none, "issuer"⟩, ["key"], indexByKid [sampleKey "key" 0 (30 * second)]⟩
        ("key", firstMinute) (second / 2) = .ok true ∧
      KeyMaterialValidator.validateAccessToken namedTokens asciiTables (fun _ => "")
        ⟨⟨0, none, none, "issuer"⟩, ["key"], indexByKid [sampleKey "key" 0 (30 * second)]⟩
        ("key", firstMinute) (59 * second) = .ok true := by
  have accepted := ((minted_token_accepted_iff namedTokens (fun pem _ => .ok pem)
    asciiTables (fun _ => "") [sampleKey "key" 0 (30 * second)] (by decide)
    (namedTokens_correct _ _ rfl) [] .nil (second / 2) (by decide) firstMinute 60
    ("key", firstMinute) { sampleKey "key" 0 (30 * second) with decryptedPrivateKey := "key" }
    rfl rfl { signingKeys := [sampleKey "key" 0 (30 * second)] } rfl ⟨0, none, none, "issuer"⟩
    (second / 2) (second / 2)
    ⟨⟨0, none, none, "issuer"⟩, ["key"], indexByKid [sampleKey "key" 0 (30 * second)]⟩
    rfl rfl rfl rfl rfl rfl (by decide)).1).2 (by decide)
  exact ⟨accepted _ (by decide) (by decide), accepted _ (by decide) (by decide)⟩

/-- The window of a key opens within a second and the key signs a token later in that second.
The date of issue is rounded down to before the window and the token is never accepted. -/
theorem minted_token_rejected_at_once :
    ((MintingService.run namedTokens (fun pem _ => .ok pem)
        [sampleKey "key" (second / 4) (30 * second)] []).mintToken namedTokens
          (fun pem _ => .ok pem) firstMinute (second / 2)).1 = .ok ("key", firstMinute) ∧
      (KeyMaterialValidator.ctor namedTokens (fun pem _ => .ok pem)
        { signingKeys := [sampleKey "key" (second / 4) (30 * second)] } ⟨0, none, none, "issuer"⟩
          (second / 2) (second / 2)).1 =
        .ok ⟨⟨0, none, none, "issuer"⟩, ["key"],
          indexByKid [sampleKey "key" (second / 4) (30 * second)]⟩ ∧
      ∃ err, KeyMaterialValidator.validateAccessToken namedTokens asciiTables (fun _ => "")
        ⟨⟨0, none, none, "issuer"⟩, ["key"],
          indexByKid [sampleKey "key" (second / 4) (30 * second)]⟩
        ("key", firstMinute) (second / 2) = .error err := by
  refine ⟨rfl, rfl, _, rfl⟩

end FluffyCore.JwtMinter
