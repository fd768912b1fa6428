import FluffyCore.Library.Interleaving
import FluffyCore.Status
import Mathlib.Data.Finset.Basic

/-!
# The reloading certificate

A server re-reads its certificate, its key and the client CA bundle when their modification
times change. A reload stats the files, reads them, and commits what it read under a lock.
Several reloads and rewrites of the files interleave, and a file may be rewritten between the
stat and the read, so a reload may commit contents that are newer than the modification
times it records. It never records a modification time with contents that are older.

Every section under the lock is one step, as is the stat or the read of one file. The key
pair and the certificate pool are what the TLS library builds from contents. Each commit is
logged with the reload that made it and the contents it read.
-/

namespace FluffyCore.ServerTls

open Library.Interleaving

/-- A file, with the modification times it has had so far. -/
structure File where
  content : String
  modTime : Int
  used : Finset Int
  current : modTime ∈ used

/-- A rewrite gives the file a modification time it never had. -/
def File.rewrite (f : File) (content : String) (modTime : Int) : Option File :=
  if modTime ∉ f.used then
    some ⟨content, modTime, insert modTime f.used, Finset.mem_insert_self modTime f.used⟩
  else none

structure ModTimes where
  cert : Int
  key : Int
  ca : Option Int

structure Contents where
  cert : String
  key : String
  ca : Option String

/-- What a reload committed: the times it had from its stats, the contents it read and what
the library built from them. -/
structure Commit (Cert Pool : Type) where
  reload : Nat
  modTimes : ModTimes
  contents : Contents
  cert : Cert
  pool : Option Pool

/-- The fields of the reloading certificate, with the clock, the files by their paths and the
log of commits, the latest first. Whether the constructor has returned is part of the state. -/
structure ReloadingCertificate (Cert Pool : Type) where
  cert : Option Cert := none
  clientCAs : Option Pool := none
  certModTime : Int
  keyModTime : Int
  caModTime : Int
  lastChecked : Int
  clock : Int
  constructed : Bool := false
  files : String → File
  commits : List (Commit Cert Pool) := []

/-- The functions that reload. -/
inductive Caller where
  | newReloadingCertificate
  | getCertificate
  | clientCAPool
deriving DecidableEq

/-- What a call returned. -/
inductive Answer (Cert Pool : Type) where
  | constructed
  | certificate (cert : Option Cert)
  | pool (pool : Option Pool)

/-- Where a call is, with the local variables of `reload`. `finish` has the error that
`reload` returned, if any. -/
inductive Phase (Cert Pool : Type) where
  | due
  | statCert
  | statKey (cert : Int)
  | statCA (cert key : Int)
  | compare (modTimes : ModTimes)
  | unchanged
  | readCert (modTimes : ModTimes)
  | readKey (modTimes : ModTimes) (certPEM : String)
  | readCA (modTimes : ModTimes) (certPEM keyPEM : String) (cert : Cert)
  | commit (modTimes : ModTimes) (contents : Contents) (cert : Cert) (pool : Option Pool)
  | finish (err : Option GoError)
  | done (err : Option GoError) (answer : Answer Cert Pool)

structure Call (Cert Pool : Type) where
  caller : Caller
  phase : Phase Cert Pool

/-- What happens around the calls: time passes, or a file is rewritten. -/
inductive DiskEvent where
  | tick (elapsed : Nat)
  | rewrite (path content : String) (modTime : Int)

/-- The configured paths; without client CAs the last one is empty. -/
structure Paths where
  certFile : String
  keyFile : String
  clientCAFile : String

variable {Cert Pool : Type}

section Program

variable (paths : Paths) (minCheckInterval : Int)
  (keyPair : String → String → Except String Cert) (certPool : String → Option Pool)

/-- The test of `reload` that no modification time has changed. -/
def ReloadingCertificate.unchanged (r : ReloadingCertificate Cert Pool) (modTimes : ModTimes) :
    Bool :=
  r.cert.isSome && modTimes.cert = r.certModTime && modTimes.key = r.keyModTime &&
    (paths.clientCAFile = "" || modTimes.ca = some r.caModTime)

/-- The section of `reload` under the exclusive lock. -/
def ReloadingCertificate.commit (r : ReloadingCertificate Cert Pool)
    (commit : Commit Cert Pool) : ReloadingCertificate Cert Pool :=
  { r with
    cert := some commit.cert
    clientCAs := commit.pool
    certModTime := commit.modTimes.cert
    keyModTime := commit.modTimes.key
    caModTime := commit.modTimes.ca.getD r.caModTime
    lastChecked := r.clock
    commits := commit :: r.commits }

/-- `reload` returns an error. -/
def failed (context message : String) : Phase Cert Pool :=
  .finish (some (.plain ("servertls: " ++ context ++ ": " ++ message)))

/-- What the caller of `reload` does after it: only the constructor looks at the error. -/
def ReloadingCertificate.answer (r : ReloadingCertificate Cert Pool) :
    Caller → Answer Cert Pool
  | .newReloadingCertificate => .constructed
  | .getCertificate => .certificate r.cert
  | .clientCAPool => .pool r.clientCAs

/-- The phase after one in which the operating system may fail, and the shared state. -/
def Phase.next (diskError : Option String) (r : ReloadingCertificate Cert Pool) (id : Nat)
    (caller : Caller) :
    Phase Cert Pool → Option (ReloadingCertificate Cert Pool × Phase Cert Pool)
  | .due =>
    if !r.constructed then none
    else if r.clock - r.lastChecked ≥ minCheckInterval then some (r, .statCert)
    else some (r, .finish none)
  | .statCert =>
    match diskError with
    | some message => some (r, failed "stat cert file" message)
    | none => some (r, .statKey (r.files paths.certFile).modTime)
  | .statKey cert =>
    match diskError with
    | some message => some (r, failed "stat key file" message)
    | none => some (r, .statCA cert (r.files paths.keyFile).modTime)
  | .statCA cert key =>
    if paths.clientCAFile = "" then some (r, .compare ⟨cert, key, none⟩)
    else match diskError with
      | some message => some (r, failed "stat client CA file" message)
      | none => some (r, .compare ⟨cert, key, some (r.files paths.clientCAFile).modTime⟩)
  | .compare modTimes =>
    if r.unchanged paths modTimes then some (r, .unchanged) else some (r, .readCert modTimes)
  | .unchanged => some ({ r with lastChecked := r.clock }, .finish none)
  | .readCert modTimes =>
    match diskError with
    | some message => some (r, failed "load server key pair" message)
    | none => some (r, .readKey modTimes (r.files paths.certFile).content)
  | .readKey modTimes certPEM =>
    match diskError with
    | some message => some (r, failed "load server key pair" message)
    | none =>
      match keyPair certPEM (r.files paths.keyFile).content with
      | .error message => some (r, failed "load server key pair" message)
      | .ok cert => some (r, .readCA modTimes certPEM (r.files paths.keyFile).content cert)
  | .readCA modTimes certPEM keyPEM cert =>
    if paths.clientCAFile = "" then
      some (r, .commit modTimes ⟨certPEM, keyPEM, none⟩ cert none)
    else match diskError with
      | some message => some (r, failed "read client CA file" message)
      | none =>
        match certPool (r.files paths.clientCAFile).content with
        | none => some (r, .finish (some (.plain ("servertls: client CA file " ++
            paths.clientCAFile ++ " contains no usable certificates"))))
        | some pool => some (r, .commit modTimes
            ⟨certPEM, keyPEM, some (r.files paths.clientCAFile).content⟩ cert (some pool))
  | .commit modTimes contents cert pool =>
    some (r.commit ⟨id, modTimes, contents, cert, pool⟩, .finish none)
  | .finish err =>
    some ({ r with constructed := r.constructed ||
        (decide (caller = .newReloadingCertificate) && err.isNone) },
      .done err (r.answer caller))
  | .done _ _ => none

/-- A file is rewritten, or time passes. -/
def ReloadingCertificate.event (r : ReloadingCertificate Cert Pool) :
    DiskEvent → Option (ReloadingCertificate Cert Pool)
  | .tick elapsed => some { r with clock := r.clock + elapsed }
  | .rewrite path content modTime =>
      ((r.files path).rewrite content modTime).map fun f =>
        { r with files := Function.update r.files path f }

/-- The constructor forces a reload; the other calls wait until it has returned. -/
def Call.begin (caller : Caller) : Call Cert Pool :=
  ⟨caller, if caller = .newReloadingCertificate then .statCert else .due⟩

/-- Calls on one certificate, which starts with files in any state. -/
def tlsSystem (files : String → File) (zeroTime : Int) :
    System (ReloadingCertificate Cert Pool) (Call Cert Pool) Caller (Option String) DiskEvent where
  initial :=
    { certModTime := zeroTime, keyModTime := zeroTime, caModTime := zeroTime,
      lastChecked := zeroTime, clock := zeroTime, files }
  begin := Call.begin
  move diskError id r call :=
    (call.phase.next paths minCheckInterval keyPair certPool diskError r id call.caller).map
      fun moved => (moved.1, { call with phase := moved.2 })
  event event r := r.event event

end Program

end FluffyCore.ServerTls
