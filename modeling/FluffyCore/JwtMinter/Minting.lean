import FluffyCore.JwtMinter.KeyMaterial

/-!
# Minting tokens

The minter asks the key material for the signing key, picks the method and the parser by the
key's algorithm, and signs. It keeps the last private key it parsed. The JOSE libraries are
parameters: parsing a private key, signing, and what a validator later does with a token.
Dates in a token are whole seconds.
-/

namespace FluffyCore.JwtMinter

/-- The registered claims that a validator looks at, with dates in seconds. -/
structure Claims where
  issuer : Option String
  issuedAt : Option Int
  expiration : Option Int
deriving DecidableEq

inductive SigningMethod where
  | rs256
  | rs384
  | rs512
  | es256
  | es384
  | es512
  | edDSA
deriving DecidableEq

/-- The functions of the JOSE libraries. A public key set is the list of keys added to it;
`validate` requires an expiration and checks the issuer when one is given. -/
structure Jose (Token ParsedKey PublicKey : Type) where
  parseEdPrivateKeyFromPEM : String → Except String ParsedKey
  parseECPrivateKeyFromPEM : String → Except String ParsedKey
  parseRSAPrivateKeyFromPEM : String → Except String ParsedKey
  signedString : SigningMethod → String → Claims → ParsedKey → Except String Token
  publicKeyOf : PrivateJwk → Except String PublicKey
  parseWithKeySet : List PublicKey → Token → Except String Claims
  parseUnverified : Token → Except String Claims
  signatureKids : Token → Except String (List String)
  validate : Option String → Int → Claims → Int → Except String Unit

/-- The switch over the algorithm names. -/
def signingMethod : String → Option SigningMethod
  | "RS256" => some .rs256
  | "RS384" => some .rs384
  | "RS512" => some .rs512
  | "ES256" => some .es256
  | "ES384" => some .es384
  | "ES512" => some .es512
  | "EdDSA" => some .edDSA
  | _ => none

variable {Token ParsedKey PublicKey : Type}

/-- The closure `getKey`: the parser for an algorithm. -/
def Jose.getKey (jose : Jose Token ParsedKey PublicKey) (alg pem : String) :
    Except String ParsedKey :=
  if "Ed".toList.isPrefixOf alg.toList then jose.parseEdPrivateKeyFromPEM pem
  else if "ES".toList.isPrefixOf alg.toList then jose.parseECPrivateKeyFromPEM pem
  else jose.parseRSAPrivateKeyFromPEM pem

/-- The last key the minter parsed. -/
structure Minter (ParsedKey : Type) where
  keyAlg : String := ""
  keyPEM : String := ""
  keyParsed : Option ParsedKey := none

/-- Parse a private key, or return the last one when the algorithm and the text are its. -/
def Minter.parsedKey (m : Minter ParsedKey) (alg pem : String)
    (parse : Except String ParsedKey) : Except GoError ParsedKey × Minter ParsedKey :=
  match m.keyParsed.filter fun _ => m.keyAlg = alg ∧ m.keyPEM = pem with
  | some key => (.ok key, m)
  | none =>
    match parse with
    | .error message => (.error (.plain message), m)
    | .ok key => (.ok key, ⟨alg, pem, some key⟩)

/-- The key material and the minter that uses it. -/
structure MintingService (ParsedKey : Type) where
  keyMaterial : KeyMaterialService
  minter : Minter ParsedKey := {}

section Service

variable (jose : Jose Token ParsedKey PublicKey)
  (decryptPEM : String → String → Except String String)

/-- `MintToken` at an instant. A missing signing key would be a nil pointer. -/
def MintingService.mintToken (s : MintingService ParsedKey) (claims : Claims) (now : Int) :
    Except GoError Token × MintingService ParsedKey :=
  match s.keyMaterial.getSigningKey decryptPEM now with
  | (.error err, keyMaterial) => (.error err, { s with keyMaterial })
  | (.ok none, keyMaterial) =>
    (.error (.plain "invalid memory address or nil pointer dereference"), { s with keyMaterial })
  | (.ok (some signingKey), keyMaterial) =>
    match signingMethod signingKey.privateJwk.alg with
    | none =>
      (.error (.status .invalidArgument
        ("unsupported signing method: " ++ signingKey.privateJwk.alg)), { s with keyMaterial })
    | some method =>
      match s.minter.parsedKey signingKey.privateJwk.alg signingKey.decryptedPrivateKey
          (jose.getKey signingKey.privateJwk.alg signingKey.decryptedPrivateKey) with
      | (.error err, minter) => (.error err, { keyMaterial, minter })
      | (.ok key, minter) =>
        match jose.signedString method signingKey.kid claims key with
        | .error message => (.error (.plain message), { keyMaterial, minter })
        | .ok token => (.ok token, { keyMaterial, minter })

/-- A call of the minter, or one of the key material it shares. -/
inductive MintingCall where
  | mintToken (claims : Claims)
  | keyMaterial (call : KeyCall)

/-- The services after a call at an instant. -/
def MintingService.apply (s : MintingService ParsedKey) :
    MintingCall × Int → MintingService ParsedKey
  | (.mintToken claims, now) => (s.mintToken jose decryptPEM claims now).2
  | (.keyMaterial call, now) =>
      { s with keyMaterial := s.keyMaterial.apply decryptPEM (call, now) }

/-- New services after a history of calls. -/
def MintingService.run (keys : List SigningKey) (history : List (MintingCall × Int)) :
    MintingService ParsedKey :=
  history.foldl (MintingService.apply jose decryptPEM) { keyMaterial := { signingKeys := keys } }

/-- What holds between calls: the key material caches keys, and the minter's last key is
the one its algorithm and text parse to. -/
structure Minting (keys : List SigningKey) (s : MintingService ParsedKey) (now : Int) : Prop where
  cached : Cached decryptPEM keys s.keyMaterial now
  parsed : ∀ key, s.minter.keyParsed = some key →
    jose.getKey s.minter.keyAlg s.minter.keyPEM = .ok key

/-- The key that the minter signs with is what the algorithm and the text parse to. -/
theorem parsedKey_spec (m after : Minter ParsedKey) (alg pem : String)
    (result : Except GoError ParsedKey)
    (parsed : ∀ key, m.keyParsed = some key → jose.getKey m.keyAlg m.keyPEM = .ok key)
    (ran : m.parsedKey alg pem (jose.getKey alg pem) = (result, after)) :
    (∀ key, result = .ok key → jose.getKey alg pem = .ok key) ∧
      ∀ key, after.keyParsed = some key → jose.getKey after.keyAlg after.keyPEM = .ok key := by
  unfold Minter.parsedKey at ran
  split at ran
  · next key hit =>
    obtain ⟨rfl, rfl⟩ := Prod.mk.inj ran
    obtain ⟨stored, same⟩ := Option.filter_eq_some_iff.1 hit
    obtain ⟨rfl, rfl⟩ := of_decide_eq_true same
    refine ⟨fun other isKey => ?_, parsed⟩
    obtain rfl := Except.ok.inj isKey
    exact parsed _ stored
  · split at ran
    · next message failed =>
      obtain ⟨rfl, rfl⟩ := Prod.mk.inj ran
      exact ⟨fun key isKey => absurd isKey (by simp), parsed⟩
    · next key succeeded =>
      obtain ⟨rfl, rfl⟩ := Prod.mk.inj ran
      refine ⟨fun other isKey => ?_, fun other isKey => ?_⟩
      · obtain rfl := Except.ok.inj isKey
        exact succeeded
      · obtain rfl := Option.some.inj isKey
        exact succeeded

/-- A call of the key material keeps its cache. -/
theorem getSigningKey_cached (keys : List SigningKey) (s : KeyMaterialService) (now : Int)
    (cached : Cached decryptPEM keys s now) :
    Cached decryptPEM keys (s.getSigningKey decryptPEM now).2 now := by
  have reloaded := apply_eq_reloadKeys decryptPEM s (.getSigningKey, now)
  rw [KeyMaterialService.apply] at reloaded
  rw [reloaded]
  exact (reloadKeys_cached decryptPEM keys s now cached).1

/-- What `MintToken` did when it returned a token: it signed with the parsed text of the
signing key, under that key's name and method. -/
theorem mintToken_spec (keys : List SigningKey) (s : MintingService ParsedKey) (claims : Claims)
    (now : Int) (minting : Minting jose decryptPEM keys s now) :
    Minting jose decryptPEM keys (s.mintToken jose decryptPEM claims now).2 now ∧
      ∀ token, (s.mintToken jose decryptPEM claims now).1 = .ok token →
        ∃ signingKey method key,
          (s.keyMaterial.getSigningKey decryptPEM now).1 = .ok (some signingKey) ∧
          signingMethod signingKey.privateJwk.alg = some method ∧
          jose.getKey signingKey.privateJwk.alg signingKey.decryptedPrivateKey = .ok key ∧
          jose.signedString method signingKey.kid claims key = .ok token := by
  have cached := getSigningKey_cached decryptPEM keys s.keyMaterial now minting.cached
  unfold MintingService.mintToken
  split
  · next err after asked =>
    rw [asked] at cached
    exact ⟨⟨cached, minting.parsed⟩, fun _ failed => absurd failed (by simp)⟩
  · next after asked =>
    rw [asked] at cached
    exact ⟨⟨cached, minting.parsed⟩, fun _ failed => absurd failed (by simp)⟩
  · next signingKey after asked =>
    rw [asked] at cached
    split
    · exact ⟨⟨cached, minting.parsed⟩, fun _ failed => absurd failed (by simp)⟩
    · next method chosen =>
      split
      · next err minter parsed =>
        obtain ⟨_, kept⟩ := parsedKey_spec jose _ _ _ _ _ minting.parsed parsed
        exact ⟨⟨cached, kept⟩, fun _ failed => absurd failed (by simp)⟩
      · next key minter parsed =>
        obtain ⟨got, kept⟩ := parsedKey_spec jose _ _ _ _ _ minting.parsed parsed
        split
        · exact ⟨⟨cached, kept⟩, fun _ failed => absurd failed (by simp)⟩
        · next token signed =>
          refine ⟨⟨cached, kept⟩, fun other same => ?_⟩
          obtain rfl := Except.ok.inj same
          exact ⟨signingKey, method, key, by rw [asked], chosen, got key rfl, signed⟩

/-- What holds between calls goes on to hold while time passes. -/
theorem Minting.later {keys : List SigningKey} {s : MintingService ParsedKey} {now after : Int}
    (minting : Minting jose decryptPEM keys s now) (passed : now ≤ after) :
    Minting jose decryptPEM keys s after :=
  ⟨minting.cached.later decryptPEM passed, minting.parsed⟩

/-- Every call keeps what holds between calls. -/
theorem apply_minting (keys : List SigningKey) (s : MintingService ParsedKey)
    (call : MintingCall × Int) (minting : Minting jose decryptPEM keys s call.2) :
    Minting jose decryptPEM keys (s.apply jose decryptPEM call) call.2 := by
  obtain ⟨call, now⟩ := call
  cases call with
  | mintToken claims => exact (mintToken_spec jose decryptPEM keys s claims now minting).1
  | keyMaterial call =>
    refine ⟨?_, minting.parsed⟩
    rw [MintingService.apply, apply_eq_reloadKeys]
    exact (reloadKeys_cached decryptPEM keys s.keyMaterial now minting.cached).1

/-- Every history of calls at times that do not decrease keeps it. -/
theorem run_minting (keys : List SigningKey) (history : List (MintingCall × Int))
    (ordered : history.Pairwise (fun c d => c.2 ≤ d.2)) (now : Int)
    (past : ∀ call ∈ history, call.2 ≤ now) :
    Minting jose decryptPEM keys (MintingService.run jose decryptPEM keys history) now := by
  refine Library.TimedHistory.invariant _ (Minting jose decryptPEM keys) _ ?_ ?_ ?_ history
    ordered now past
  · exact fun _ => ⟨⟨rfl, fun present => absurd rfl present⟩, fun key stored => by cases stored⟩
  · exact fun s now after minting passed => minting.later jose decryptPEM passed
  · exact apply_minting jose decryptPEM keys

end Service

end FluffyCore.JwtMinter
