import FluffyCore.KeyEncryption.Pkcs8enc
import FluffyCore.Library.HexText

/-!
# Encrypted PEM blocks

The older format keeps the type of a block and says in two headers how its bytes are
encrypted. `ecdsa` writes and reads it in place. `keymaterial` has a reader of its own that
goes from text to text, for both formats.

The two readers parse the headers differently. One accepts any process type that holds
`ENCRYPTED` and cuts the cipher information at its first comma, the other compares the whole
process type and cuts at every comma.
-/

namespace FluffyCore.KeyEncryption

open Library.ByteStrings Library.BlockPadding Library.HexText Library.MapLoop

def procType : Bytes := ascii "Proc-Type"

def dekInfo : Bytes := ascii "DEK-Info"

def encryptedProcType : Bytes := ascii "4,ENCRYPTED"

def aes256Cbc : Bytes := ascii "AES-256-CBC"

def comma : UInt8 := 44

/-- What is wrong with the padding of a decrypted text. -/
inductive PaddingError where
  /-- decrypted data is empty -/
  | empty
  /-- invalid PKCS7 padding length: %d -/
  | length (found : Nat)
  /-- invalid PKCS7 padding at byte %d -/
  | atByte (index : Nat)
deriving DecidableEq

/-- Both readers check the padding byte by byte from the end. -/
def stripPadding (decrypted : Bytes) : Except PaddingError Bytes :=
  match decrypted.getLast? with
  | none => .error .empty
  | some last =>
    let paddingLen := last.toNat
    if paddingLen = 0 ∨ paddingLen > blockSize ∨ paddingLen > decrypted.length then
      .error (.length paddingLen)
    else
      match (List.range paddingLen).find? fun i =>
          decrypted[decrypted.length - 1 - i]? ≠ some (UInt8.ofNat paddingLen) with
      | some i => .error (.atByte i)
      | none => .ok (decrypted.take (decrypted.length - paddingLen))

/-- The padding of every text is recognised. -/
theorem stripPadding_pad (text : Bytes) : stripPadding (pad blockSize text) = .ok text := by
  have positive : 0 < blockSize := by decide
  have padLen := toNat_paddingLen (by decide : blockSize < 256) text.length
  have some_left := paddingLen_pos positive text.length
  have at_most : paddingLen blockSize text.length ≤ blockSize := paddingLen_le text.length
  have short : paddingLen blockSize text.length ≤ (pad blockSize text).length := by
    rw [pad, List.length_append, List.length_replicate]
    omega
  have consistent : (List.range (paddingLen blockSize text.length)).find? (fun i =>
      decide ((pad blockSize text)[(pad blockSize text).length - 1 - i]? ≠
        some (UInt8.ofNat (paddingLen blockSize text.length)))) = none := by
    rw [List.find?_eq_none]
    intro i inside
    rw [getElem?_pad text (List.mem_range.1 inside)]
    simp
  rw [stripPadding, getLast?_pad positive]
  simp only [padLen]
  rw [if_neg (by omega), consistent]
  simp only [take_pad]

section KeyDerivation

variable (crypto : Crypto) (password salt : Bytes) (keyLen : Nat)

/-- Digests are appended until there are enough bytes. Each is taken of all the bytes so far
with the password and the salt. -/
def extendKey (result : Bytes) : Bytes :=
  if result.length < keyLen then
    extendKey (result ++ crypto.md5 (result ++ password ++ salt))
  else result
termination_by keyLen - result.length
decreasing_by
  rw [List.length_append, crypto.md5_length]
  omega

/-- The key derivation that both packages have. -/
def bytesToKey : Bytes :=
  (extendKey crypto password salt keyLen (crypto.md5 (password ++ salt))).take keyLen

/-- The derivation goes on until the key is long enough. -/
theorem le_length_extendKey (result : Bytes) :
    keyLen ≤ (extendKey crypto password salt keyLen result).length := by
  fun_induction extendKey crypto password salt keyLen result with
  | case1 result short inductionHypothesis => exact inductionHypothesis
  | case2 result enough => exact Nat.not_lt.1 enough

/-- The key is as long as it was asked for. -/
theorem length_bytesToKey : (bytesToKey crypto password salt keyLen).length = keyLen := by
  rw [bytesToKey, List.length_take]
  exact Nat.min_eq_left (le_length_extendKey crypto password salt keyLen _)

/-- A derived key of 32 bytes is accepted by the cipher. -/
theorem newCipher_bytesToKey : newCipher (bytesToKey crypto password salt 32) = .ok () := by
  simp [newCipher, length_bytesToKey]

end KeyDerivation

namespace Ecdsa

def generateKeyFromPassword (crypto : Crypto) (password salt : Bytes) (keyLen : Nat) : Bytes :=
  bytesToKey crypto password salt keyLen

/-- `strings.SplitN` at commas, into at most two parts. -/
def splitN2 (text : Bytes) : List Bytes :=
  match text.idxOf? comma with
  | none => [text]
  | some i => [text.take i, text.drop (i + 1)]

inductive Error where
  /-- failed to create cipher: %w -/
  | createCipher (err : GoError)
  /-- encrypted PEM block missing DEK-Info header -/
  | missingDekInfo
  /-- malformed DEK-Info header -/
  | malformedDekInfo
  /-- unsupported cipher: %s -/
  | unsupportedCipher (name : Bytes)
  /-- invalid IV in DEK-Info: %w -/
  | invalidIv (err : DecodeError)
  /-- invalid IV length: expected %d, got %d -/
  | ivLength (found : Nat)
  /-- encrypted data length %d is not a multiple of the AES block size -/
  | dataLength (found : Nat)
  | padding (err : PaddingError)
deriving DecidableEq

def isEncryptedPEMBlock (b : Block) : Bool :=
  match b.headers.lookup procType with
  | none => false
  | some procType => decide (ascii "ENCRYPTED" <:+: procType)

/-- The two headers of a block that was encrypted with an initial vector. -/
def legacyHeaders (headers : FiniteMap Bytes Bytes) (iv : Bytes) : FiniteMap Bytes Bytes :=
  (headers.insert procType encryptedProcType).insert dekInfo
    (ascii "AES-256-CBC," ++ toUpper (encodeToString iv))

/-- `EncryptPemBlock`, with the random initial vector it draws. The block is changed in
place: it is returned as it is left. -/
def encryptPemBlock (crypto : Crypto) (iv : Filled) (block : Block) (password : Bytes) :
    Except Error Unit × Block :=
  if password.length > 0 then
    let key := generateKeyFromPassword crypto password (iv.bytes.take 8) 32
    let paddingLen := blockSize - block.bytes.length % blockSize
    let padded := block.bytes ++ List.replicate paddingLen (UInt8.ofNat paddingLen)
    match newCipher key with
    | .error err => (.error (.createCipher err), block)
    | .ok () =>
      let encrypted := crypto.cbcEncrypt key iv.bytes padded
      (.ok (), { block with headers := legacyHeaders block.headers iv.bytes, bytes := encrypted })
  else (.ok (), block)

/-- `DecryptPemBlock`. The block is changed in place: it is returned as it is left. -/
def decryptPemBlock (crypto : Crypto) (block : Block) (password : Bytes) :
    Except Error Unit × Block :=
  if isEncryptedPEMBlock block then
    match block.headers.lookup dekInfo with
    | none => (.error .missingDekInfo, block)
    | some info =>
      match splitN2 info with
      | [cipherName, ivText] =>
        if cipherName ≠ aes256Cbc then (.error (.unsupportedCipher cipherName), block)
        else
          match decodeString ivText with
          | .error err => (.error (.invalidIv err), block)
          | .ok iv =>
            if iv.length ≠ blockSize then (.error (.ivLength iv.length), block)
            else if block.bytes.length = 0 ∨ block.bytes.length % blockSize ≠ 0 then
              (.error (.dataLength block.bytes.length), block)
            else
              let key := generateKeyFromPassword crypto password (iv.take 8) 32
              match newCipher key with
              | .error err => (.error (.createCipher err), block)
              | .ok () =>
                match stripPadding (crypto.cbcDecrypt key iv block.bytes) with
                | .error err => (.error (.padding err), block)
                | .ok decrypted =>
                  (.ok (),
                    { block with
                      headers := (block.headers.erase procType).erase dekInfo
                      bytes := decrypted })
      | _ => (.error .malformedDekInfo, block)
  else (.ok (), block)

end Ecdsa

/-- `pem.Encode` and `pem.Decode`. Decoding gives the first block of a text; what follows it
is not used here. `nothing` is the nil text. -/
structure Pem (Text : Type) where
  encode : Block → Except GoError Text
  decode : Text → Option Block
  nothing : Text

/-- `pem.EncodeToMemory` returns nil if the block cannot be encoded. -/
def Pem.encodeToMemory {Text : Type} (pem : Pem Text) (block : Block) : Text :=
  match pem.encode block with
  | .ok text => text
  | .error _ => pem.nothing

/-- Names and values that a header line keeps: not empty, without blanks and colons. -/
def HeaderText (text : Bytes) : Prop :=
  text ≠ [] ∧ ∀ char ∈ text, 33 ≤ char ∧ char ≤ 126 ∧ char ≠ 58

/-- Blocks of a type are written and read back, with all headers a line can hold. -/
def Pem.Inverts {Text : Type} (pem : Pem Text) (type : Bytes) : Prop :=
  ∀ headers bytes, (∀ name value, headers.lookup name = some value →
      HeaderText name ∧ HeaderText value) →
    ∃ text, pem.encode { type, headers, bytes } = .ok text ∧
      pem.decode text = some { type, headers, bytes }

namespace KeyMaterial

def generateKeyFromPassword (crypto : Crypto) (password salt : Bytes) (keyLen : Nat) : Bytes :=
  bytesToKey crypto password salt keyLen

inductive Error where
  /-- failed to decode PEM block -/
  | decodePem
  /-- failed to decrypt signing key: %w -/
  | decryptSigningKey (err : Pkcs8enc.Error)
  /-- malformed DEK-Info header -/
  | malformedDekInfo
  /-- unsupported cipher: %s -/
  | unsupportedCipher (name : Bytes)
  /-- invalid IV: %w -/
  | invalidIv (err : DecodeError)
  /-- invalid IV length: expected %d, got %d -/
  | ivLength (found : Nat)
  /-- encrypted data length (%d) is not a multiple of AES block size (%d) -/
  | dataLength (found : Nat)
  /-- failed to create cipher: %w -/
  | createCipher (err : GoError)
  | padding (err : PaddingError)
  /-- failed to encode decrypted key: %w -/
  | encodeKey (err : GoError)
deriving DecidableEq

/-- `DecryptPEM` -/
def decryptPEM {Text : Type} (crypto : Crypto) (asn1 : Pkcs8enc.Asn1) (pem : Pem Text)
    (encryptedPEM : Text) (password : Bytes) : Except Error Text :=
  match pem.decode encryptedPEM with
  | none => .error .decodePem
  | some block =>
    if block.type = Pkcs8enc.pemType then
      match Pkcs8enc.decrypt crypto asn1 block password with
      | .error err => .error (.decryptSigningKey err)
      | .ok der => .ok (pem.encodeToMemory ⟨ascii "PRIVATE KEY", ∅, der⟩)
    else if (block.headers.lookup procType).getD [] ≠ encryptedProcType then .ok encryptedPEM
    else
      match ((block.headers.lookup dekInfo).getD []).splitOn comma with
      | [cipherType, ivText] =>
        if cipherType ≠ aes256Cbc then .error (.unsupportedCipher cipherType)
        else
          match decodeString ivText with
          | .error err => .error (.invalidIv err)
          | .ok iv =>
            if iv.length ≠ blockSize then .error (.ivLength iv.length)
            else if block.bytes.length = 0 ∨ block.bytes.length % blockSize ≠ 0 then
              .error (.dataLength block.bytes.length)
            else
              let key := generateKeyFromPassword crypto password (iv.take 8) 32
              match newCipher key with
              | .error err => .error (.createCipher err)
              | .ok () =>
                match stripPadding (crypto.cbcDecrypt key iv block.bytes) with
                | .error err => .error (.padding err)
                | .ok decrypted =>
                  match pem.encode ⟨block.type, ∅, decrypted⟩ with
                  | .error err => .error (.encodeKey err)
                  | .ok out => .ok out
      | _ => .error .malformedDekInfo

end KeyMaterial

end FluffyCore.KeyEncryption
