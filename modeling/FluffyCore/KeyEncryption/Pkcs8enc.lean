import FluffyCore.Library.BlockPadding
import FluffyCore.Library.MapLoop
import FluffyCore.Status

/-!
# Encrypted PKCS#8 keys

`pkcs8enc` writes a private key as an encrypted PKCS#8 block and reads it again. What it
rests on are the ciphers, the key derivation and the ASN.1 encoding of the standard library,
which are parameters here with what the package relies on: a cipher fills a buffer of its
input's length, a digest and a derived key have their fixed lengths.

That the encodings and the ciphers invert is not part of these parameters. It is assumed by
name where a result needs it.
-/

namespace FluffyCore.KeyEncryption

open Library.ByteStrings Library.BlockPadding Library.MapLoop

/-- A PEM block. A nil map of headers reads as an empty one. -/
structure Block where
  type : Bytes
  headers : FiniteMap Bytes Bytes
  bytes : Bytes

/-- `aes.BlockSize` -/
def blockSize : Nat := 16

/-- A buffer of one cipher block, as it is filled with random bytes. -/
structure Filled where
  bytes : Bytes
  length : bytes.length = blockSize

/-- The hash constructors that key derivation is called with. -/
inductive Hash where
  | sha1
  | sha256
deriving DecidableEq

/-- The cryptography of the standard library. -/
structure Crypto where
  md5 : Bytes → Bytes
  md5_length : ∀ text, (md5 text).length = 16
  /-- `pbkdf2.Key` of a hash, a password, a salt, a number of iterations and a key length. -/
  pbkdf2Key : Hash → Bytes → Bytes → Int → Nat → Except GoError Bytes
  /-- With SHA-256, a salt of a whole block and a key of 32 bytes it does not fail. -/
  pbkdf2Key_sha256 : ∀ password (salt : Filled) iterations, 1 ≤ iterations →
    ∃ key, pbkdf2Key .sha256 password salt.bytes iterations 32 = .ok key ∧ key.length = 32
  /-- `CryptBlocks` of the CBC encrypter of a key and an initial vector. -/
  cbcEncrypt : Bytes → Bytes → Bytes → Bytes
  cbcDecrypt : Bytes → Bytes → Bytes → Bytes
  cbcEncrypt_length : ∀ key iv text, (cbcEncrypt key iv text).length = text.length
  cbcDecrypt_length : ∀ key iv text, (cbcDecrypt key iv text).length = text.length

/-- AES-CBC decryption inverts encryption for the same key and initial vector. -/
def Crypto.CbcInverts (crypto : Crypto) : Prop :=
  ∀ key iv text, key.length = 32 → iv.length = blockSize → text.length % blockSize = 0 →
    crypto.cbcDecrypt key iv (crypto.cbcEncrypt key iv text) = text

/-- `aes.NewCipher` accepts keys of three lengths. -/
def newCipher (key : Bytes) : Except GoError Unit :=
  if key.length = 16 ∨ key.length = 24 ∨ key.length = 32 then .ok ()
  else .error (.plain s!"crypto/aes: invalid key size {key.length}")

namespace Pkcs8enc

/-- A `pkix.AlgorithmIdentifier`. The parameters are a raw value, given by its encoding. -/
structure AlgorithmIdentifier where
  algorithm : List Nat
  parameters : Bytes
deriving DecidableEq

structure EncryptedPrivateKeyInfo where
  algorithm : AlgorithmIdentifier
  encryptedData : Bytes
deriving DecidableEq

structure Pbes2Params where
  keyDerivationFunc : AlgorithmIdentifier
  encryptionScheme : AlgorithmIdentifier
deriving DecidableEq

/-- The last two fields are optional: a zero length and an empty identifier are left out. -/
structure Pbkdf2Params where
  salt : Bytes
  iterationCount : Int
  keyLength : Int
  prf : AlgorithmIdentifier
deriving DecidableEq

/-- `asn1.Marshal` and `asn1.Unmarshal` at one type. Reading gives what is left over, too. -/
structure Codec (α : Type) where
  marshal : α → Except GoError Bytes
  unmarshal : Bytes → Except GoError (α × Bytes)

/-- The encodings the package uses. -/
structure Asn1 where
  info : Codec EncryptedPrivateKeyInfo
  pbes2 : Codec Pbes2Params
  pbkdf2 : Codec Pbkdf2Params
  octets : Codec Bytes

/-- The encoding of `asn1.NullRawValue`. -/
def nullRawValue : Bytes := [5, 0]

/-- `"ENCRYPTED PRIVATE KEY"` -/
def pemType : Bytes := ascii "ENCRYPTED PRIVATE KEY"

def iterations : Int := 600000

def maxIterations : Int := 10000000

def oidPBES2 : List Nat := [1, 2, 840, 113549, 1, 5, 13]

def oidPBKDF2 : List Nat := [1, 2, 840, 113549, 1, 5, 12]

def oidHMACSHA256 : List Nat := [1, 2, 840, 113549, 2, 9]

def oidAES256CBC : List Nat := [2, 16, 840, 1, 101, 3, 4, 1, 42]

/-- The errors of the package, and those it passes on. -/
inductive Error where
  /-- pkcs8enc: empty password -/
  | emptyPassword
  /-- pkcs8enc: PEM type %q, want %q -/
  | pemType (found : Bytes)
  /-- pkcs8enc: malformed EncryptedPrivateKeyInfo -/
  | malformedInfo
  /-- pkcs8enc: unsupported encryption algorithm %v -/
  | unsupportedEncryption (algorithm : List Nat)
  /-- pkcs8enc: malformed PBES2 parameters -/
  | malformedPbes2
  /-- pkcs8enc: unsupported key derivation %v -/
  | unsupportedKeyDerivation (algorithm : List Nat)
  /-- pkcs8enc: malformed PBKDF2 parameters -/
  | malformedPbkdf2
  /-- pkcs8enc: PBKDF2 iteration count %d out of range -/
  | iterationCount (count : Int)
  /-- pkcs8enc: unsupported cipher %v -/
  | unsupportedCipher (algorithm : List Nat)
  /-- pkcs8enc: malformed AES-256-CBC IV -/
  | malformedIv
  /-- pkcs8enc: encrypted data is not a whole number of AES blocks -/
  | notWholeBlocks
  /-- pkcs8enc: unsupported PBKDF2 PRF %v -/
  | unsupportedPrf (algorithm : List Nat)
  /-- pkcs8enc: decryption failed (wrong password?) -/
  | decryptionFailed
  | library (err : GoError)
deriving DecidableEq

/-- An error of the standard library is returned as it is. -/
def passOn {α : Type} (result : Except GoError α) : Except Error α := result.mapError .library

/-- A failure to read an encoding is reported without its reason. -/
def orElse {α : Type} (result : Except GoError α) (err : Error) : Except Error α :=
  result.mapError fun _ => err

/-- A value is passed on as it is. -/
@[simp]
theorem passOn_ok {α : Type} (value : α) : passOn (.ok value) = .ok value := rfl

/-- A value does not become another error. -/
@[simp]
theorem orElse_ok {α : Type} (value : α) (err : Error) : orElse (.ok value) err = .ok value :=
  rfl

section Functions

variable (crypto : Crypto) (asn1 : Asn1)

/-- `Encrypt`, with the random salt and initial vector it draws. -/
def encrypt (salt iv : Filled) (pkcs8DER password : Bytes) : Except Error Block := do
  if password = [] then throw .emptyPassword
  let key ← passOn (crypto.pbkdf2Key .sha256 password salt.bytes iterations 32)
  let padLen := blockSize - pkcs8DER.length % blockSize
  let padded := pkcs8DER ++ List.replicate padLen (UInt8.ofNat padLen)
  passOn (newCipher key)
  let encrypted := crypto.cbcEncrypt key iv.bytes padded
  let kdfParams ← passOn (asn1.pbkdf2.marshal
    { salt := salt.bytes, iterationCount := iterations, keyLength := 0
      prf := ⟨oidHMACSHA256, nullRawValue⟩ })
  let ivParam ← passOn (asn1.octets.marshal iv.bytes)
  let schemeParams ← passOn (asn1.pbes2.marshal
    { keyDerivationFunc := ⟨oidPBKDF2, kdfParams⟩, encryptionScheme := ⟨oidAES256CBC, ivParam⟩ })
  let der ← passOn (asn1.info.marshal
    { algorithm := ⟨oidPBES2, schemeParams⟩, encryptedData := encrypted })
  return { type := pemType, headers := ∅, bytes := der }

/-- The key that is derived as the parameters say. -/
def deriveKey (kdf : Pbkdf2Params) (password : Bytes) : Except Error Bytes :=
  if kdf.prf.algorithm.length = 0 then
    passOn (crypto.pbkdf2Key .sha1 password kdf.salt kdf.iterationCount 32)
  else if kdf.prf.algorithm = oidHMACSHA256 then
    passOn (crypto.pbkdf2Key .sha256 password kdf.salt kdf.iterationCount 32)
  else .error (.unsupportedPrf kdf.prf.algorithm)

/-- The text without its padding. The padding is compared with what it should be at once.
There is a last byte, since the encrypted data was not empty. -/
def unpad (decrypted : Bytes) : Except Error Bytes :=
  let padLen := (decrypted.getLast?.getD 0).toNat
  if padLen = 0 ∨ padLen > blockSize ∨ decrypted.drop (decrypted.length - padLen) ≠
      List.replicate padLen (UInt8.ofNat padLen) then
    .error .decryptionFailed
  else .ok (decrypted.take (decrypted.length - padLen))

/-- `Decrypt` -/
def decrypt (block : Block) (password : Bytes) : Except Error Bytes := do
  if block.type ≠ pemType then throw (.pemType block.type)
  let (info, rest) ← orElse (asn1.info.unmarshal block.bytes) .malformedInfo
  if rest.length ≠ 0 then throw .malformedInfo
  if info.algorithm.algorithm ≠ oidPBES2 then
    throw (.unsupportedEncryption info.algorithm.algorithm)
  let (scheme, _) ← orElse (asn1.pbes2.unmarshal info.algorithm.parameters) .malformedPbes2
  if scheme.keyDerivationFunc.algorithm ≠ oidPBKDF2 then
    throw (.unsupportedKeyDerivation scheme.keyDerivationFunc.algorithm)
  let (kdf, _) ← orElse (asn1.pbkdf2.unmarshal scheme.keyDerivationFunc.parameters)
    .malformedPbkdf2
  if kdf.iterationCount < 1 ∨ kdf.iterationCount > maxIterations then
    throw (.iterationCount kdf.iterationCount)
  if scheme.encryptionScheme.algorithm ≠ oidAES256CBC then
    throw (.unsupportedCipher scheme.encryptionScheme.algorithm)
  let (iv, _) ← orElse (asn1.octets.unmarshal scheme.encryptionScheme.parameters) .malformedIv
  if iv.length ≠ blockSize then throw .malformedIv
  if info.encryptedData.length = 0 ∨ info.encryptedData.length % blockSize ≠ 0 then
    throw .notWholeBlocks
  let key ← deriveKey crypto kdf password
  passOn (newCipher key)
  unpad (crypto.cbcDecrypt key iv info.encryptedData)

end Functions

section Inversion

/-- An object identifier that has an encoding: at least two arcs, of which the first is at
most two and leaves the second less than forty unless it is two. -/
def ProperOid : List Nat → Prop
  | first :: second :: rest => first ≤ 2 ∧ (first < 2 → second < 40) ∧
    ∀ arc ∈ second :: rest, arc < 2 ^ 31 - 80
  | _ => False

/-- An identifier with an encoding of one value as its parameters. -/
def AlgorithmIdentifier.Proper (element : Bytes → Prop) (identifier : AlgorithmIdentifier) :
    Prop :=
  ProperOid identifier.algorithm ∧ element identifier.parameters

/-- Every proper value is encoded as one element and read back with nothing left over. -/
def Codec.Inverts {α : Type} (codec : Codec α) (element : Bytes → Prop) (proper : α → Prop) :
    Prop :=
  ∀ value, proper value → ∃ bytes, codec.marshal value = .ok bytes ∧ element bytes ∧
    codec.unmarshal bytes = .ok (value, [])

/-- The encodings invert on values that are proper, where `element` says which bytes are the
encoding of one value. -/
structure Asn1.Inverts (asn1 : Asn1) (element : Bytes → Prop) : Prop where
  null : element nullRawValue
  octets : asn1.octets.Inverts element fun _ => True
  pbkdf2 : asn1.pbkdf2.Inverts element fun params =>
    (0 ≤ params.iterationCount ∧ params.iterationCount < 2 ^ 31) ∧
    (0 ≤ params.keyLength ∧ params.keyLength < 2 ^ 31) ∧ params.prf.Proper element
  pbes2 : asn1.pbes2.Inverts element fun params =>
    params.keyDerivationFunc.Proper element ∧ params.encryptionScheme.Proper element
  info : asn1.info.Inverts element fun value => value.algorithm.Proper element

/-- The padding of every text is recognised. -/
theorem unpad_pad (text : Bytes) : unpad (pad blockSize text) = .ok text := by
  have positive : 0 < blockSize := by decide
  have padLen : ((pad blockSize text).getLast?.getD 0).toNat =
      paddingLen blockSize text.length := by
    rw [getLast?_pad positive, Option.getD_some, toNat_paddingLen (by decide)]
  have some_left := paddingLen_pos positive text.length
  have at_most : paddingLen blockSize text.length ≤ blockSize := paddingLen_le text.length
  simp only [unpad, padLen, drop_pad, take_pad]
  rw [if_neg]
  simp only [ne_eq, not_true_eq_false, or_false]
  omega

variable {crypto : Crypto} {asn1 : Asn1}

/-- The block that is written is read with the password it was written with. -/
theorem decrypt_encrypt {element : Bytes → Prop} (cbc : crypto.CbcInverts)
    (inverts : asn1.Inverts element) (salt iv : Filled) (pkcs8DER password : Bytes)
    (given : password ≠ []) :
    ∃ der, encrypt crypto asn1 salt iv pkcs8DER password =
        .ok { type := pemType, headers := ∅, bytes := der } ∧
      decrypt crypto asn1 { type := pemType, headers := ∅, bytes := der } password =
        .ok pkcs8DER := by
  obtain ⟨key, derived, keyLength⟩ :=
    crypto.pbkdf2Key_sha256 password salt iterations (by decide)
  have cipher : newCipher key = .ok () := by simp [newCipher, keyLength]
  have count : 0 ≤ iterations ∧ iterations < 2 ^ 31 := by decide
  obtain ⟨kdfParams, kdfWritten, kdfElement, kdfRead⟩ := inverts.pbkdf2
    { salt := salt.bytes, iterationCount := iterations, keyLength := 0
      prf := ⟨oidHMACSHA256, nullRawValue⟩ }
    ⟨count, by simp, ⟨by decide, by decide, by decide⟩, inverts.null⟩
  obtain ⟨ivParam, ivWritten, ivElement, ivRead⟩ := inverts.octets iv.bytes trivial
  obtain ⟨schemeParams, schemeWritten, schemeElement, schemeRead⟩ := inverts.pbes2
    { keyDerivationFunc := ⟨oidPBKDF2, kdfParams⟩, encryptionScheme := ⟨oidAES256CBC, ivParam⟩ }
    ⟨⟨⟨by decide, by decide, by decide⟩, kdfElement⟩,
      ⟨⟨by decide, by decide, by decide⟩, ivElement⟩⟩
  obtain ⟨der, infoWritten, _, infoRead⟩ := inverts.info
    { algorithm := ⟨oidPBES2, schemeParams⟩
      encryptedData := crypto.cbcEncrypt key iv.bytes (pad blockSize pkcs8DER) }
    ⟨⟨by decide, by decide, by decide⟩, schemeElement⟩
  have positive : 0 < blockSize := by decide
  have whole := length_pad_mod positive pkcs8DER
  have notEmpty : (pad blockSize pkcs8DER).length ≠ 0 := by
    rw [ne_eq, List.length_eq_zero_iff]
    exact pad_ne_nil positive pkcs8DER
  have restored := cbc key iv.bytes (pad blockSize pkcs8DER) keyLength iv.length whole
  refine ⟨der, ?_, ?_⟩
  · have padded : pkcs8DER ++ List.replicate (blockSize - pkcs8DER.length % blockSize)
        (UInt8.ofNat (blockSize - pkcs8DER.length % blockSize)) = pad blockSize pkcs8DER := rfl
    simp [encrypt, given, derived, cipher, padded, kdfWritten, ivWritten, schemeWritten,
      infoWritten, bind, Except.bind, pure, Except.pure]
  · have inRange : ¬ (iterations < 1 ∨ iterations > maxIterations) := by decide
    have prf : oidHMACSHA256.length ≠ 0 := by decide
    simp [decrypt, deriveKey, infoRead, schemeRead, kdfRead, ivRead, inRange, iv.length,
      crypto.cbcEncrypt_length, whole, notEmpty, prf, derived, cipher, restored, unpad_pad,
      bind, Except.bind]

end Inversion

end Pkcs8enc

end FluffyCore.KeyEncryption
