import FluffyCore.KeyEncryption.LegacyPem
import Mathlib.Logic.Equiv.List

/-!
# Encrypted keys round-trip

What one of the two writers encrypts, every reader of its format decrypts to the same bytes,
for data of every length. A block that cannot be decrypted in place is left as it was.
-/

namespace FluffyCore.KeyEncryption

open Library.ByteStrings Library.BlockPadding Library.HexText Library.MapLoop

namespace Ecdsa

/-- A block that cannot be decrypted is not changed. -/
theorem decryptPemBlock_unchanged (crypto : Crypto) (block : Block) (password : Bytes)
    (err : Error) (failed : (decryptPemBlock crypto block password).1 = .error err) :
    (decryptPemBlock crypto block password).2 = block := by
  -- The result and the block come from one run: each test is decided once for both.
  revert failed
  unfold decryptPemBlock
  split
  · split
    · exact fun _ => rfl
    · split
      · split
        · exact fun _ => rfl
        · split
          · exact fun _ => rfl
          · split
            · exact fun _ => rfl
            · split
              · exact fun _ => rfl
              · dsimp only
                split
                · exact fun _ => rfl
                · split
                  · exact fun _ => rfl
                  · intro failed
                    cases failed
      · exact fun _ => rfl
  · exact fun _ => rfl

end Ecdsa

section Legacy

open Ecdsa

variable (crypto : Crypto) (iv : Filled) (type data password : Bytes)

/-- The information about the cipher, cut where the readers cut it. -/
theorem cipherInfo_eq (ivText : Bytes) :
    ascii "AES-256-CBC," ++ ivText = aes256Cbc ++ comma :: ivText := by
  have start : ascii "AES-256-CBC," = aes256Cbc ++ [comma] := by decide
  rw [start, List.append_assoc, List.singleton_append]

/-- The name of the cipher has no comma. -/
theorem comma_notMem_aes256Cbc : comma ∉ aes256Cbc := by decide

/-- Hexadecimal text has no comma. -/
theorem comma_notMem_hex (bytes : Bytes) : comma ∉ toUpper (encodeToString bytes) := by
  intro inside
  have digit := (mem_toUpper_encodeToString inside).1
  revert digit
  decide

/-- The DEK-Info header is cut at its only comma. -/
theorem splitN2_cipherInfo (ivText : Bytes) :
    splitN2 (ascii "AES-256-CBC," ++ ivText) = [aes256Cbc, ivText] := by
  rw [cipherInfo_eq, splitN2, idxOf?_append_cons comma aes256Cbc ivText comma_notMem_aes256Cbc]
  simp

/-- So is it by the reader that cuts at every comma. -/
theorem splitOn_cipherInfo (bytes : Bytes) :
    (ascii "AES-256-CBC," ++ toUpper (encodeToString bytes)).splitOn comma =
      [aes256Cbc, toUpper (encodeToString bytes)] := by
  rw [cipherInfo_eq, List.splitOn_append_cons_self_of_not_mem comma_notMem_aes256Cbc,
    List.splitOn_eq_singleton (comma_notMem_hex bytes)]

/-- The two headers have different names. -/
theorem procType_ne_dekInfo : procType ≠ dekInfo := by decide

/-- An encrypted block says so in its Proc-Type header. -/
theorem lookup_procType (headers : FiniteMap Bytes Bytes) (ivBytes : Bytes) :
    (legacyHeaders headers ivBytes).lookup procType = some encryptedProcType := by
  rw [legacyHeaders, Finmap.lookup_insert_of_ne _ procType_ne_dekInfo, Finmap.lookup_insert]

/-- An encrypted block has its cipher and initial vector in its DEK-Info header. -/
theorem lookup_dekInfo (headers : FiniteMap Bytes Bytes) (ivBytes : Bytes) :
    (legacyHeaders headers ivBytes).lookup dekInfo =
      some (ascii "AES-256-CBC," ++ toUpper (encodeToString ivBytes)) := by
  rw [legacyHeaders, Finmap.lookup_insert]

/-- Without the two headers there are none. -/
theorem erase_legacyHeaders (ivBytes : Bytes) :
    ((legacyHeaders ∅ ivBytes).erase procType).erase dekInfo = ∅ := by
  apply Finmap.ext_lookup
  intro name
  by_cases second : name = dekInfo
  · rw [second, Finmap.lookup_erase, Finmap.lookup_empty]
  · rw [Finmap.lookup_erase_ne second]
    by_cases first : name = procType
    · rw [first, Finmap.lookup_erase, Finmap.lookup_empty]
    · rw [Finmap.lookup_erase_ne first, legacyHeaders, Finmap.lookup_insert_of_ne _ second,
        Finmap.lookup_insert_of_ne _ first]

/-- A header is checked byte by byte. -/
theorem headerText_of_all {text : Bytes} (notEmpty : text ≠ [])
    (plain : text.all (fun char => decide (33 ≤ char ∧ char ≤ 126 ∧ char ≠ 58)) = true) :
    HeaderText text :=
  ⟨notEmpty, fun char inside => of_decide_eq_true (List.all_eq_true.1 plain char inside)⟩

/-- The two headers fit on header lines. -/
theorem legacyHeaders_headerText (ivBytes name value : Bytes)
    (found : (legacyHeaders ∅ ivBytes).lookup name = some value) :
    HeaderText name ∧ HeaderText value := by
  by_cases second : name = dekInfo
  · subst second
    rw [lookup_dekInfo, Option.some.injEq] at found
    subst found
    refine ⟨headerText_of_all (by decide) (by decide), by simp [ascii], ?_⟩
    intro char inside
    rcases List.mem_append.1 inside with inside | inside
    · have plain : HeaderText (ascii "AES-256-CBC,") :=
        headerText_of_all (by decide) (by decide)
      exact plain.2 char inside
    · obtain ⟨low, high, other⟩ := mem_toUpper_encodeToString inside
      have printable : (33 : UInt8) ≤ 48 ∧ (70 : UInt8) ≤ 126 := by decide
      exact ⟨UInt8.le_trans printable.1 low, UInt8.le_trans high printable.2, other⟩
  · rw [legacyHeaders, Finmap.lookup_insert_of_ne _ second] at found
    by_cases first : name = procType
    · subst first
      rw [Finmap.lookup_insert, Option.some.injEq] at found
      subst found
      exact ⟨headerText_of_all (by decide) (by decide), headerText_of_all (by decide) (by decide)⟩
    · rw [Finmap.lookup_insert_of_ne _ first, Finmap.lookup_empty] at found
      cases found

/-- The key for a block, as all three functions derive it. -/
def legacyKey : Bytes := bytesToKey crypto password (iv.bytes.take 8) 32

/-- A block without headers, encrypted. -/
def legacyBlock : Block where
  type := type
  headers := legacyHeaders ∅ iv.bytes
  bytes := crypto.cbcEncrypt (legacyKey crypto iv password) iv.bytes (pad blockSize data)

/-- A block without headers is encrypted to the legacy block. -/
theorem encryptPemBlock_eq (given : password ≠ []) :
    encryptPemBlock crypto iv ⟨type, ∅, data⟩ password =
      (.ok (), legacyBlock crypto iv type data password) := by
  have long : password.length > 0 := List.length_pos_iff.2 given
  have cipher := newCipher_bytesToKey crypto password (iv.bytes.take 8)
  simp only [encryptPemBlock, long, ↓reduceIte, generateKeyFromPassword, cipher]
  rfl

/-- The encrypted bytes are what the readers expect: whole blocks, and not none. -/
theorem legacyBlock_length :
    ¬ ((legacyBlock crypto iv type data password).bytes.length = 0 ∨
      (legacyBlock crypto iv type data password).bytes.length % blockSize ≠ 0) := by
  have positive : 0 < blockSize := by decide
  have whole := length_pad_mod positive data
  have notEmpty : (pad blockSize data).length ≠ 0 := by
    rw [ne_eq, List.length_eq_zero_iff]
    exact pad_ne_nil positive data
  rw [legacyBlock, crypto.cbcEncrypt_length]
  simp [whole, notEmpty]

variable {crypto}

/-- With the same key, the readers see the padded data. -/
theorem stripPadding_legacyBlock (cbc : crypto.CbcInverts) :
    stripPadding (crypto.cbcDecrypt (legacyKey crypto iv password) iv.bytes
      (legacyBlock crypto iv type data password).bytes) = .ok data := by
  have restored := cbc (legacyKey crypto iv password) iv.bytes (pad blockSize data)
    (length_bytesToKey crypto password _ 32) iv.length (length_pad_mod (by decide) data)
  rw [legacyBlock, restored, stripPadding_pad]

/-- The legacy block is decrypted to the block without headers. -/
theorem decryptPemBlock_legacyBlock (cbc : crypto.CbcInverts) :
    decryptPemBlock crypto (legacyBlock crypto iv type data password) password =
      (.ok (), ⟨type, ∅, data⟩) := by
  have encrypted : isEncryptedPEMBlock (legacyBlock crypto iv type data password) = true := by
    rw [isEncryptedPEMBlock, legacyBlock, lookup_procType]
    decide
  have info : (legacyBlock crypto iv type data password).headers.lookup dekInfo =
      some (ascii "AES-256-CBC," ++ toUpper (encodeToString iv.bytes)) :=
    lookup_dekInfo ∅ iv.bytes
  have cipher := newCipher_bytesToKey crypto password (iv.bytes.take 8)
  have stripped := stripPadding_legacyBlock iv type data password cbc
  rw [legacyKey] at stripped
  have erased : ((legacyBlock crypto iv type data password).headers.erase procType).erase
      dekInfo = ∅ := erase_legacyHeaders iv.bytes
  simp only [decryptPemBlock, encrypted, ↓reduceIte, info, splitN2_cipherInfo, ne_eq,
    not_true_eq_false, decodeString_toUpper, iv.length,
    legacyBlock_length crypto iv type data password, generateKeyFromPassword, cipher, stripped,
    erased]
  rfl

end Legacy

section Text

variable {Text : Type} {crypto : Crypto} {asn1 : Pkcs8enc.Asn1} {pem : Pem Text}

/-- The text reader decrypts the text of a legacy block to the text of the block. -/
theorem decryptPEM_legacyBlock (iv : Filled) (type data password : Bytes)
    (cbc : crypto.CbcInverts) (other : type ≠ Pkcs8enc.pemType) {text plain : Text}
    (read : pem.decode text = some (legacyBlock crypto iv type data password))
    (written : pem.encode ⟨type, ∅, data⟩ = .ok plain) :
    KeyMaterial.decryptPEM crypto asn1 pem text password = .ok plain := by
  have notPkcs8 : (legacyBlock crypto iv type data password).type ≠ Pkcs8enc.pemType := other
  have proc : (legacyBlock crypto iv type data password).headers.lookup procType =
      some encryptedProcType := lookup_procType ∅ iv.bytes
  have info : (legacyBlock crypto iv type data password).headers.lookup dekInfo =
      some (ascii "AES-256-CBC," ++ toUpper (encodeToString iv.bytes)) :=
    lookup_dekInfo ∅ iv.bytes
  have cipher := newCipher_bytesToKey crypto password (iv.bytes.take 8)
  have stripped := stripPadding_legacyBlock iv type data password cbc
  rw [legacyKey] at stripped
  have encoded : pem.encode ⟨(legacyBlock crypto iv type data password).type, ∅, data⟩ =
      .ok plain := written
  simp only [KeyMaterial.decryptPEM, read, notPkcs8, ↓reduceIte, proc, Option.getD_some, ne_eq,
    not_true_eq_false, info, splitOn_cipherInfo, decodeString_toUpper, iv.length,
    legacyBlock_length crypto iv type data password, KeyMaterial.generateKeyFromPassword, cipher,
    stripped, encoded]

/-- The text of a block without headers is returned as it is. -/
theorem decryptPEM_plain (type data password : Bytes) (other : type ≠ Pkcs8enc.pemType)
    {text : Text} (read : pem.decode text = some ⟨type, ∅, data⟩) :
    KeyMaterial.decryptPEM crypto asn1 pem text password = .ok text := by
  have differ : ([] : Bytes) ≠ encryptedProcType := by decide
  simp [KeyMaterial.decryptPEM, read, other, differ]

/-- A block without headers has nothing that the text format could not keep. -/
theorem noHeaders (name value : Bytes)
    (found : (∅ : FiniteMap Bytes Bytes).lookup name = some value) :
    HeaderText name ∧ HeaderText value := by
  rw [Finmap.lookup_empty] at found
  cases found

/-- **Encrypted keys round-trip through every reader.** An encrypted PKCS#8 block is read by
`Decrypt`, and its text by `DecryptPEM` as the text of a `PRIVATE KEY` block. A block without
headers that `EncryptPemBlock` has encrypted is restored by `DecryptPemBlock`, and its text is
read by `DecryptPEM` as the text of the block. An empty password leaves it unencrypted. If
`DecryptPemBlock` fails, the block is unchanged. -/
theorem encryptedKeys_roundTrip (crypto : Crypto) (asn1 : Pkcs8enc.Asn1) (pem : Pem Text)
    (element : Bytes → Prop) (cbc : crypto.CbcInverts) (asn1Inverts : asn1.Inverts element) :
    (∀ (salt iv : Filled) (d password : Bytes), password ≠ [] →
      ∃ block, Pkcs8enc.encrypt crypto asn1 salt iv d password = .ok block ∧
        Pkcs8enc.decrypt crypto asn1 block password = .ok d ∧
        (pem.Inverts Pkcs8enc.pemType → pem.Inverts (ascii "PRIVATE KEY") →
          ∃ text plain, pem.encode block = .ok text ∧
            pem.encode ⟨ascii "PRIVATE KEY", ∅, d⟩ = .ok plain ∧
            KeyMaterial.decryptPEM crypto asn1 pem text password = .ok plain)) ∧
    (∀ (iv : Filled) (b : Block) (password : Bytes), b.headers = ∅ →
      ∃ encrypted, Ecdsa.encryptPemBlock crypto iv b password = (.ok (), encrypted) ∧
        Ecdsa.decryptPemBlock crypto encrypted password = (.ok (), ⟨b.type, ∅, b.bytes⟩) ∧
        (b.type ≠ Pkcs8enc.pemType → pem.Inverts b.type →
          ∃ text plain, pem.encode encrypted = .ok text ∧ pem.encode b = .ok plain ∧
            KeyMaterial.decryptPEM crypto asn1 pem text password = .ok plain)) ∧
    (∀ (block : Block) (password : Bytes) (err : Ecdsa.Error),
      (Ecdsa.decryptPemBlock crypto block password).1 = .error err →
      (Ecdsa.decryptPemBlock crypto block password).2 = block) := by
  refine ⟨?_, ?_, Ecdsa.decryptPemBlock_unchanged crypto⟩
  · intro salt iv d password given
    obtain ⟨der, encrypted, decrypted⟩ :=
      Pkcs8enc.decrypt_encrypt cbc asn1Inverts salt iv d password given
    refine ⟨_, encrypted, decrypted, ?_⟩
    intro encryptedInverts plainInverts
    obtain ⟨text, written, read⟩ := encryptedInverts ∅ der noHeaders
    obtain ⟨plain, plainWritten, _⟩ := plainInverts ∅ d noHeaders
    refine ⟨text, plain, written, plainWritten, ?_⟩
    simp only [KeyMaterial.decryptPEM, read, ↓reduceIte, decrypted, Pem.encodeToMemory,
      plainWritten]
  · rintro iv ⟨type, headers, data⟩ password rfl
    by_cases given : password = []
    · subst given
      refine ⟨⟨type, ∅, data⟩, by simp [Ecdsa.encryptPemBlock], ?_, ?_⟩
      · simp [Ecdsa.decryptPemBlock, Ecdsa.isEncryptedPEMBlock]
      · intro other inverts
        obtain ⟨text, written, read⟩ := inverts ∅ data noHeaders
        exact ⟨text, text, written, written, decryptPEM_plain type data [] other read⟩
    · refine ⟨_, encryptPemBlock_eq crypto iv type data password given,
        decryptPemBlock_legacyBlock iv type data password cbc, ?_⟩
      intro other inverts
      obtain ⟨text, written, read⟩ := inverts _
        (legacyBlock crypto iv type data password).bytes (legacyHeaders_headerText iv.bytes)
      obtain ⟨plain, plainWritten, _⟩ := inverts ∅ data noHeaders
      exact ⟨text, plain, written, plainWritten,
        decryptPEM_legacyBlock iv type data password cbc other read plainWritten⟩

end Text

section Chained

/-- A byte that depends on all bytes of a text and on their order. -/
def checksum (text : Bytes) : UInt8 :=
  text.foldl (fun sum byte => 31 * sum + byte) 7

/-- Chained encryption of single bytes: the key and the byte that was sent before are added to
every byte. -/
def chain (key : UInt8) : UInt8 → Bytes → Bytes
  | _, [] => []
  | last, byte :: text => (byte + last + key) :: chain key (byte + last + key) text

/-- The key and the byte that was sent before are taken off again. -/
def unchain (key : UInt8) : UInt8 → Bytes → Bytes
  | _, [] => []
  | last, sent :: text => (sent - key - last) :: unchain key sent text

/-- Chaining keeps the length of a text. -/
theorem chain_length (key last : UInt8) (text : Bytes) :
    (chain key last text).length = text.length := by
  induction text generalizing last with
  | nil => rfl
  | cons byte text ih => simp only [chain, List.length_cons, ih]

/-- Unchaining keeps the length of a text. -/
theorem unchain_length (key last : UInt8) (text : Bytes) :
    (unchain key last text).length = text.length := by
  induction text generalizing last with
  | nil => rfl
  | cons sent text ih => simp only [unchain, List.length_cons, ih]

/-- The receiver sees the byte that was sent before, so it can undo every step. -/
theorem unchain_chain (key last : UInt8) (text : Bytes) :
    unchain key last (chain key last text) = text := by
  induction text generalizing last with
  | nil => rfl
  | cons byte text ih => rw [chain, unchain, UInt8.add_sub_cancel, UInt8.add_sub_cancel, ih]

/-- Chained single bytes, where both key derivations depend on the password and the salt, and
the cipher on the key and the initial vector. -/
def chainedCrypto : Crypto where
  md5 text := List.replicate 16 (checksum text)
  md5_length _ := List.length_replicate
  pbkdf2Key _ password salt _ keyLength :=
    .ok (List.replicate keyLength (checksum (password ++ salt)))
  pbkdf2Key_sha256 _ _ _ _ := ⟨_, rfl, List.length_replicate⟩
  cbcEncrypt key iv text := chain (checksum key) (checksum iv) text
  cbcDecrypt key iv text := unchain (checksum key) (checksum iv) text
  cbcEncrypt_length key iv text := chain_length (checksum key) (checksum iv) text
  cbcDecrypt_length key iv text := unchain_length (checksum key) (checksum iv) text

/-- Decryption with the key and the initial vector of the encryption restores the text. -/
theorem chainedCrypto_cbcInverts : chainedCrypto.CbcInverts :=
  fun key iv text _ _ _ => unchain_chain (checksum key) (checksum iv) text

-- Another key or another initial vector does not restore it.
example :
    chainedCrypto.cbcDecrypt [2] [0] (chainedCrypto.cbcEncrypt [1] [0] [1, 2, 3]) ≠ [1, 2, 3] ∧
    chainedCrypto.cbcDecrypt [1] [4] (chainedCrypto.cbcEncrypt [1] [0] [1, 2, 3]) ≠
      [1, 2, 3] := by
  decide

/-- An encoding that numbers the values and writes as many zero bytes. -/
def numberedCodec {α β : Type} [Encodable β] (enter : α → β) (leave : β → α) :
    Pkcs8enc.Codec α where
  marshal value := .ok (List.replicate (Encodable.encode (enter value)) 0)
  unmarshal bytes :=
    match (Encodable.decode bytes.length : Option β) with
    | some value => .ok (leave value, [])
    | none => .error (.plain "no such number")

/-- Values that can be numbered are read as they were written. -/
theorem numberedCodec_inverts {α β : Type} [Encodable β] {enter : α → β} {leave : β → α}
    (inverse : ∀ value, leave (enter value) = value) (proper : α → Prop) :
    (numberedCodec enter leave).Inverts (fun _ => True) proper := by
  intro value _
  refine ⟨_, rfl, trivial, ?_⟩
  simp [numberedCodec, inverse]

def numbers (bytes : Bytes) : List Nat := bytes.map UInt8.toNat

def bytesOf (numbers : List Nat) : Bytes := numbers.map UInt8.ofNat

/-- Bytes are read back from their numbers. -/
theorem bytesOf_numbers (bytes : Bytes) : bytesOf (numbers bytes) = bytes := by
  simp [bytesOf, numbers, Function.comp_def]

def numberedAsn1 : Pkcs8enc.Asn1 where
  info := numberedCodec
    (fun info => ((info.algorithm.algorithm, numbers info.algorithm.parameters),
      numbers info.encryptedData))
    (fun parts => ⟨⟨parts.1.1, bytesOf parts.1.2⟩, bytesOf parts.2⟩)
  pbes2 := numberedCodec
    (fun params => ((params.keyDerivationFunc.algorithm,
      numbers params.keyDerivationFunc.parameters),
      (params.encryptionScheme.algorithm, numbers params.encryptionScheme.parameters)))
    (fun parts => ⟨⟨parts.1.1, bytesOf parts.1.2⟩, ⟨parts.2.1, bytesOf parts.2.2⟩⟩)
  pbkdf2 := numberedCodec
    (fun params => (numbers params.salt, (params.iterationCount, params.keyLength),
      (params.prf.algorithm, numbers params.prf.parameters)))
    (fun parts => ⟨bytesOf parts.1, parts.2.1.1, parts.2.1.2,
      ⟨parts.2.2.1, bytesOf parts.2.2.2⟩⟩)
  octets := numberedCodec numbers bytesOf

/-- Every structure of the format is read as it was written. -/
theorem numberedAsn1_inverts : numberedAsn1.Inverts fun _ => True where
  null := trivial
  octets := numberedCodec_inverts bytesOf_numbers _
  pbkdf2 := numberedCodec_inverts (fun _ => by simp only [bytesOf_numbers]) _
  pbes2 := numberedCodec_inverts (fun _ => by simp only [bytesOf_numbers]) _
  info := numberedCodec_inverts (fun _ => by simp only [bytesOf_numbers]) _

/-- Blocks as their own text. -/
def blockPem : Pem (Option Block) where
  encode block := .ok (some block)
  decode text := text
  nothing := none

/-- A block that is its own text is read as it was written. -/
theorem blockPem_inverts (type : Bytes) : blockPem.Inverts type :=
  fun _ _ _ => ⟨_, rfl, rfl⟩

/-- A salt of a whole cipher block. -/
def salted : Filled := ⟨List.replicate 16 9, rfl⟩

/-- An initial vector of a whole cipher block. -/
def vector : Filled := ⟨List.replicate 16 4, rfl⟩

/-- Data of three bytes in the new format, and of a whole cipher block in the old one. -/
theorem encryptedKeys_roundTrip_chained :
    (∃ block, Pkcs8enc.encrypt chainedCrypto numberedAsn1 salted vector [1, 2, 3]
          (ascii "secret") = .ok block ∧
        Pkcs8enc.decrypt chainedCrypto numberedAsn1 block (ascii "secret") =
          .ok [1, 2, 3] ∧
        ∃ text plain, blockPem.encode block = .ok text ∧
          blockPem.encode ⟨ascii "PRIVATE KEY", ∅, [1, 2, 3]⟩ = .ok plain ∧
          KeyMaterial.decryptPEM chainedCrypto numberedAsn1 blockPem text (ascii "secret") =
            .ok plain) ∧
    (∃ encrypted, Ecdsa.encryptPemBlock chainedCrypto vector
          ⟨ascii "EC PRIVATE KEY", ∅, List.replicate 16 7⟩ (ascii "secret") =
            (.ok (), encrypted) ∧
        Ecdsa.decryptPemBlock chainedCrypto encrypted (ascii "secret") =
          (.ok (), ⟨ascii "EC PRIVATE KEY", ∅, List.replicate 16 7⟩) ∧
        ∃ text plain, blockPem.encode encrypted = .ok text ∧
          blockPem.encode ⟨ascii "EC PRIVATE KEY", ∅, List.replicate 16 7⟩ = .ok plain ∧
          KeyMaterial.decryptPEM chainedCrypto numberedAsn1 blockPem text (ascii "secret") =
            .ok plain) := by
  obtain ⟨pkcs8, legacy, _⟩ := encryptedKeys_roundTrip chainedCrypto numberedAsn1 blockPem
    (fun _ => True) chainedCrypto_cbcInverts numberedAsn1_inverts
  constructor
  · obtain ⟨block, encrypted, decrypted, text⟩ :=
      pkcs8 salted vector [1, 2, 3] (ascii "secret") (by decide)
    exact ⟨block, encrypted, decrypted, text (blockPem_inverts _) (blockPem_inverts _)⟩
  · obtain ⟨encrypted, written, restored, text⟩ := legacy vector
      ⟨ascii "EC PRIVATE KEY", ∅, List.replicate 16 7⟩ (ascii "secret") rfl
    exact ⟨encrypted, written, restored, text (by decide) (blockPem_inverts _)⟩

end Chained

end FluffyCore.KeyEncryption
