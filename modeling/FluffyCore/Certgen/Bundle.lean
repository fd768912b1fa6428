import FluffyCore.Library.ByteStrings
import FluffyCore.Status
import Mathlib.Algebra.Group.Nat.Defs

/-!
# Certificate bundles

`certgen` makes a certificate authority and a server and a client certificate signed by it.
Each certificate is made at a moment of its own: its key is drawn, then its serial number,
then the clock is read for the validity. The cryptography, the encoding and the parsers of
host addresses and URIs are parameters.

Durations are signed words that count nanoseconds. Times are numbers of nanoseconds without a
bound, since the years a certificate can hold are far inside of what a time can represent.
-/

namespace FluffyCore.Certgen

open Library.ByteStrings

/-- A time, in nanoseconds since the start of some second. -/
abbrev Time : Type := Int

/-- A `time.Duration`. -/
abbrev Duration : Type := Int64

/-- `Time.Add` -/
def later (t : Time) (d : Duration) : Time := t + d.toInt

def minute : Duration := 60000000000

def hour : Duration := 3600000000000

/-- A hundred years, which stand for a certificate that does not expire. -/
def forever : Duration := 100 * 365 * 24 * hour

/-- The time a certificate holds for a time: its whole seconds. -/
def roundDown (t : Time) : Time := t / 1000000000 * 1000000000

inductive KeyUsage where
  | certSign
  | digitalSignature
  | crlSign
  | keyEncipherment
deriving DecidableEq

inductive ExtKeyUsage where
  | clientAuth
  | serverAuth
deriving DecidableEq

/-- The fields of an `x509.Certificate` that are set. -/
structure Certificate (IP URL : Type) where
  serialNumber : Nat
  commonName : Bytes
  organization : List Bytes
  notBefore : Time
  notAfter : Time
  keyUsage : List KeyUsage
  extKeyUsage : List ExtKeyUsage := []
  dnsNames : List Bytes := []
  ipAddresses : List IP := []
  uris : List URL := []
  basicConstraintsValid : Bool := false
  isCA : Bool := false

structure CAOptions where
  commonName : Bytes
  org : Bytes
  validFor : Duration

structure CertOptions (IP URL : Type) where
  commonName : Bytes
  org : Bytes
  dnsNames : List Bytes := []
  ipAddresses : List IP := []
  uris : List URL := []
  validFor : Duration
  isServer : Bool

structure BundleOptions where
  serverCommonName : Bytes
  serverHosts : List Bytes
  clientCommonName : Bytes
  clientURIs : List Bytes
  org : Bytes
  validFor : Duration

/-- A certificate with its key, parsed and encoded: a `CA` or a `Cert`. -/
structure Issued (Key IP URL : Type) where
  cert : Certificate IP URL
  key : Key
  certPEM : Bytes
  keyPEM : Bytes

structure Bundle (Key IP URL : Type) where
  ca : Issued Key IP URL
  server : Issued Key IP URL
  client : Issued Key IP URL

/-- Whether a certificate is an authority's or one that is signed by it. -/
inductive Role where
  /-- Text: `CA` -/
  | ca
  /-- Text: `leaf` -/
  | leaf
deriving DecidableEq

/-- The members of a bundle, by their names in error texts. -/
inductive Member where
  /-- Text: `CA` -/
  | ca
  /-- Text: `server certificate` -/
  | server
  /-- Text: `client certificate` -/
  | client
deriving DecidableEq

inductive Error where
  /-- Text: `certgen: generate <role> key: %w` -/
  | generateKey (role : Role) (err : GoError)
  /-- Text: `certgen: generate serial number: %w` -/
  | serialNumber (err : GoError)
  /-- Text: `certgen: create <role> certificate: %w` -/
  | create (role : Role) (err : GoError)
  /-- Text: `certgen: parse <role> certificate: %w` -/
  | parse (role : Role) (err : GoError)
  /-- Text: `certgen: marshal EC private key: %w` -/
  | marshalKey (err : GoError)
  /-- Text: `certgen: invalid URI %q: %w` -/
  | invalidURI (text : Bytes) (err : GoError)
  /-- Text: `certgen: generate <member>: %w` -/
  | generate (member : Member) (err : Error)
deriving DecidableEq

/-- The libraries that are used. What they draw at random depends on a source of entropy. -/
structure CertLibrary (Entropy Key IP URL : Type) where
  generateKey : Entropy → Except GoError Key
  randInt : Entropy → Nat → Except GoError Nat
  /-- The arguments are those of `x509.CreateCertificate`: template, parent, the key that is
  certified and the one that signs. -/
  createCertificate : Entropy → Certificate IP URL → Certificate IP URL → Key → Key →
    Except GoError Bytes
  parseCertificate : Bytes → Except GoError (Certificate IP URL)
  marshalECPrivateKey : Key → Except GoError Bytes
  /-- `pem.EncodeToMemory`, for a type and some bytes. -/
  encodeToMemory : Bytes → Bytes → Bytes
  parseIP : Bytes → Option IP
  parseURL : Bytes → Except GoError URL

/-- When a certificate is made: what the clock reads, and what is drawn. -/
structure Moment (Entropy : Type) where
  now : Time
  entropy : Entropy

section Certificates

variable {Entropy Key IP URL : Type} (library : CertLibrary Entropy Key IP URL)

def newSerialNumber (entropy : Entropy) : Except Error Nat :=
  (library.randInt entropy (2 ^ 128)).mapError .serialNumber

def orgOrDefault (org : Bytes) : List Bytes := if org = [] then [] else [org]

def encodeCertPEM (der : Bytes) : Bytes := library.encodeToMemory (ascii "CERTIFICATE") der

def encodeECKey (key : Key) : Except Error Bytes := do
  let der ← (library.marshalECPrivateKey key).mapError .marshalKey
  return library.encodeToMemory (ascii "EC PRIVATE KEY") der

/-- Both kinds of certificates are made in the same steps. An authority signs its own template
with the key it was made for. -/
def issue (role : Role) (entropy : Entropy) (template : Nat → Certificate IP URL)
    (signer : Option (Issued Key IP URL)) : Except Error (Issued Key IP URL) := do
  let key ← (library.generateKey entropy).mapError (.generateKey role)
  let serial ← newSerialNumber library entropy
  let parent := (signer.map (·.cert)).getD (template serial)
  let signingKey := (signer.map (·.key)).getD key
  let der ← (library.createCertificate entropy (template serial) parent key signingKey).mapError
    (.create role)
  let cert ← (library.parseCertificate der).mapError (.parse role)
  let keyPEM ← encodeECKey library key
  return { cert, key, certPEM := encodeCertPEM library der, keyPEM }

def newCA (moment : Moment Entropy) (opts : CAOptions) : Except Error (Issued Key IP URL) :=
  let validFor := if opts.validFor ≤ 0 then 5 * 365 * 24 * hour else opts.validFor
  issue library .ca moment.entropy (fun serial =>
    { serialNumber := serial
      commonName := opts.commonName
      organization := orgOrDefault opts.org
      notBefore := later moment.now (-5 * minute)
      notAfter := later moment.now validFor
      keyUsage := [.certSign, .digitalSignature, .crlSign]
      basicConstraintsValid := true
      isCA := true }) none

def newLeafCert (moment : Moment Entropy) (ca : Issued Key IP URL) (opts : CertOptions IP URL) :
    Except Error (Issued Key IP URL) :=
  let validFor := if opts.validFor ≤ 0 then 90 * 24 * hour else opts.validFor
  let extKeyUsage := if opts.isServer then ExtKeyUsage.serverAuth else .clientAuth
  issue library .leaf moment.entropy (fun serial =>
    { serialNumber := serial
      commonName := opts.commonName
      organization := orgOrDefault opts.org
      notBefore := later moment.now (-5 * minute)
      notAfter := later moment.now validFor
      keyUsage := [.digitalSignature, .keyEncipherment]
      extKeyUsage := [extKeyUsage]
      dnsNames := opts.dnsNames
      ipAddresses := opts.ipAddresses
      uris := opts.uris }) (some ca)

end Certificates

/-- Five times the validity of a leaf, unless the product does not come back when it is
divided by five. -/
def caValidForFrom (leafValidFor : Duration) : Duration :=
  let caValidFor := leafValidFor * 5
  if caValidFor / 5 ≠ leafValidFor then leafValidFor else caValidFor

section Bundles

variable {Entropy Key IP URL : Type} (library : CertLibrary Entropy Key IP URL)

/-- Addresses are told from names by parsing them. -/
def splitHosts (hosts : List Bytes) : List Bytes × List IP :=
  hosts.foldl (fun (dnsNames, ips) h =>
    match library.parseIP h with
    | some ip => (dnsNames, ips ++ [ip])
    | none => (dnsNames ++ [h], ips)) ([], [])

def parseURIs (raw : List Bytes) : Except Error (List URL) :=
  raw.mapM fun u => (library.parseURL u).mapError (.invalidURI u)

/-- `NewBundle`. The authority, the server and the client certificate are made one after the
other, each at its own moment. -/
def newBundle (caMoment serverMoment clientMoment : Moment Entropy) (opts : BundleOptions) :
    Except Error (Bundle Key IP URL) := do
  let validFor := if opts.validFor ≤ 0 then 90 * 24 * hour else opts.validFor
  let ca ← (newCA library caMoment
    { commonName := ascii "fluffycore-dev-ca"
      org := opts.org
      validFor := caValidForFrom validFor }).mapError (.generate .ca)
  let (dnsNames, ips) := splitHosts library opts.serverHosts
  let server ← (newLeafCert library serverMoment ca
    { commonName := opts.serverCommonName
      org := opts.org
      dnsNames
      ipAddresses := ips
      validFor
      isServer := true }).mapError (.generate .server)
  let parsedClientURIs ← parseURIs library opts.clientURIs
  let client ← (newLeafCert library clientMoment ca
    { commonName := opts.clientCommonName
      org := opts.org
      uris := parsedClientURIs
      validFor
      isServer := false }).mapError (.generate .client)
  return { ca, server, client }

end Bundles

end FluffyCore.Certgen
