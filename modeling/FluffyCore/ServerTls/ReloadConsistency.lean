import FluffyCore.ServerTls.ReloadingCertificate

/-!
# Reloads stay consistent

A modification time that a reload has seen is never used again for other contents. So what a
reload reads after its stat is the content of that time, or the time has passed for good:
stale contents are only ever recorded under stale times. Together with the log of commits
this gives what the server serves in every interleaving.
-/

namespace FluffyCore.ServerTls

open Library.Interleaving

variable {Cert Pool : Type}

section Files

/-- A modification time the file has had. -/
def Seen (r : ReloadingCertificate Cert Pool) (path : String) (modTime : Int) : Prop :=
  modTime ∈ (r.files path).used

/-- If the file still has a modification time, then it still has the content. -/
def NotOlder (r : ReloadingCertificate Cert Pool) (path : String) (modTime : Int)
    (content : String) : Prop :=
  (r.files path).modTime = modTime → (r.files path).content = content

/-- Files at a later moment: a file that has one of its former times is unchanged. -/
def Later (r after : ReloadingCertificate Cert Pool) : Prop :=
  ∀ path, (r.files path).used ⊆ (after.files path).used ∧
    ((after.files path).modTime ∈ (r.files path).used →
      (after.files path).modTime = (r.files path).modTime ∧
        (after.files path).content = (r.files path).content)

/-- Files that were not touched are at a later moment, too. -/
theorem later_of_files_eq {r after : ReloadingCertificate Cert Pool}
    (same : after.files = r.files) : Later r after := by
  intro path
  rw [same]
  exact ⟨Finset.Subset.refl _, fun _ => ⟨rfl, rfl⟩⟩

/-- A rewrite uses a new modification time. -/
theorem event_later (r after : ReloadingCertificate Cert Pool) (event : DiskEvent)
    (happened : r.event event = some after) : Later r after := by
  cases event with
  | tick elapsed =>
    obtain rfl := Option.some.inj happened
    exact later_of_files_eq rfl
  | rewrite path content modTime =>
    obtain ⟨f, rewritten, rfl⟩ := Option.map_eq_some_iff.1 happened
    unfold File.rewrite at rewritten
    split at rewritten
    · next unused =>
      obtain rfl := Option.some.inj rewritten
      intro other
      by_cases same : other = path
      · subst other
        simp only [Function.update_self]
        exact ⟨Finset.subset_insert _ _, fun used => absurd used unused⟩
      · simp [Function.update_of_ne same]
    · cases rewritten

/-- A modification time that was seen once has been seen ever since. -/
theorem Seen.later {r after : ReloadingCertificate Cert Pool} {path : String} {modTime : Int}
    (seen : Seen r path modTime) (later : Later r after) : Seen after path modTime :=
  (later path).1 seen

/-- Stale contents stay under stale modification times. -/
theorem NotOlder.later {r after : ReloadingCertificate Cert Pool} {path content : String}
    {modTime : Int} (notOlder : NotOlder r path modTime content) (seen : Seen r path modTime)
    (later : Later r after) : NotOlder after path modTime content := by
  intro current
  obtain ⟨sameTime, sameContent⟩ := (later path).2 (current.symm ▸ seen)
  rw [sameContent]
  exact notOlder (sameTime.symm.trans current)

end Files

section Consistency

variable (paths : Paths) (keyPair : String → String → Except String Cert)
  (certPool : String → Option Pool)

/-- Modification times that a reload has from its stats. -/
structure Stated (r : ReloadingCertificate Cert Pool) (modTimes : ModTimes) : Prop where
  cert : Seen r paths.certFile modTimes.cert
  key : Seen r paths.keyFile modTimes.key
  ca : ∀ modTime, modTimes.ca = some modTime → Seen r paths.clientCAFile modTime
  configured : modTimes.ca = none ↔ paths.clientCAFile = ""

/-- Contents that are not older than the modification times. -/
structure Matching (r : ReloadingCertificate Cert Pool) (modTimes : ModTimes)
    (contents : Contents) : Prop where
  cert : NotOlder r paths.certFile modTimes.cert contents.cert
  key : NotOlder r paths.keyFile modTimes.key contents.key
  ca : ∀ modTime, modTimes.ca = some modTime →
    ∃ content, contents.ca = some content ∧ NotOlder r paths.clientCAFile modTime content
  noCA : modTimes.ca = none → contents.ca = none

/-- A pair that the library accepted, with the pool it built from the bundle. -/
def Accepted (contents : Contents) (cert : Cert) (pool : Option Pool) : Prop :=
  keyPair contents.cert contents.key = .ok cert ∧ contents.ca.map certPool = pool.map some

/-- The times from the stats stay times the files have had. -/
theorem Stated.later {r after : ReloadingCertificate Cert Pool} {modTimes : ModTimes}
    (stated : Stated paths r modTimes) (later : Later r after) : Stated paths after modTimes :=
  ⟨stated.cert.later later, stated.key.later later,
    fun modTime isTime => (stated.ca modTime isTime).later later, stated.configured⟩

/-- Contents that are not older than their times stay so: a file that is rewritten gets a new
time. -/
theorem Matching.later {r after : ReloadingCertificate Cert Pool} {modTimes : ModTimes}
    {contents : Contents} (matching : Matching paths r modTimes contents)
    (stated : Stated paths r modTimes) (later : Later r after) :
    Matching paths after modTimes contents := by
  refine ⟨matching.cert.later stated.cert later, matching.key.later stated.key later, ?_,
    matching.noCA⟩
  intro modTime isTime
  obtain ⟨content, isContent, notOlder⟩ := matching.ca modTime isTime
  exact ⟨content, isContent, notOlder.later (stated.ca modTime isTime) later⟩

/-- What the local variables of a reload satisfy. -/
def Phase.Sound (r : ReloadingCertificate Cert Pool) : Phase Cert Pool → Prop
  | .statKey cert => Seen r paths.certFile cert
  | .statCA cert key => Seen r paths.certFile cert ∧ Seen r paths.keyFile key
  | .compare modTimes => Stated paths r modTimes
  | .readCert modTimes => Stated paths r modTimes
  | .readKey modTimes certPEM =>
      Stated paths r modTimes ∧ NotOlder r paths.certFile modTimes.cert certPEM
  | .readCA modTimes certPEM keyPEM cert =>
      Stated paths r modTimes ∧ NotOlder r paths.certFile modTimes.cert certPEM ∧
        NotOlder r paths.keyFile modTimes.key keyPEM ∧ keyPair certPEM keyPEM = .ok cert
  | .commit modTimes contents cert pool =>
      Stated paths r modTimes ∧ Matching paths r modTimes contents ∧
        Accepted keyPair certPool contents cert pool
  | _ => True

/-- They go on to satisfy it while the files are rewritten. -/
theorem Phase.Sound.later {r after : ReloadingCertificate Cert Pool} {phase : Phase Cert Pool}
    (sound : phase.Sound paths keyPair certPool r) (later : Later r after) :
    phase.Sound paths keyPair certPool after := by
  cases phase with
  | statKey cert => exact Seen.later sound later
  | statCA cert key => exact ⟨sound.1.later later, sound.2.later later⟩
  | compare modTimes => exact Stated.later paths sound later
  | readCert modTimes => exact Stated.later paths sound later
  | readKey modTimes certPEM =>
    exact ⟨sound.1.later paths later, sound.2.later sound.1.cert later⟩
  | readCA modTimes certPEM keyPEM cert =>
    obtain ⟨stated, certMatches, keyMatches, loaded⟩ := sound
    exact ⟨stated.later paths later, certMatches.later stated.cert later,
      keyMatches.later stated.key later, loaded⟩
  | commit modTimes contents cert pool =>
    obtain ⟨stated, matching, accepted⟩ := sound
    exact ⟨stated.later paths later, matching.later paths stated later, accepted⟩
  | _ => trivial

/-- What the certificate, the pool and the recorded times have in common with a commit. -/
structure Serves (r : ReloadingCertificate Cert Pool) (commit : Commit Cert Pool) : Prop where
  cert : r.cert = some commit.cert
  clientCAs : r.clientCAs = commit.pool
  certModTime : r.certModTime = commit.modTimes.cert
  keyModTime : r.keyModTime = commit.modTimes.key
  caModTime : ∀ modTime, commit.modTimes.ca = some modTime → r.caModTime = modTime
  stated : Stated paths r commit.modTimes
  matching : Matching paths r commit.modTimes commit.contents

/-- The certificate, the pool and the recorded times. -/
def ReloadingCertificate.served (r : ReloadingCertificate Cert Pool) :
    Option Cert × Option Pool × Int × Int × Int :=
  (r.cert, r.clientCAs, r.certModTime, r.keyModTime, r.caModTime)

/-- While nothing is committed, the commit goes on to be served. -/
theorem Serves.later {r after : ReloadingCertificate Cert Pool} {commit : Commit Cert Pool}
    (serves : Serves paths r commit) (same : after.served = r.served) (later : Later r after) :
    Serves paths after commit := by
  simp only [ReloadingCertificate.served, Prod.mk.injEq] at same
  obtain ⟨sameCert, samePool, sameCertTime, sameKeyTime, sameCaTime⟩ := same
  constructor
  · exact sameCert.trans serves.cert
  · exact samePool.trans serves.clientCAs
  · exact sameCertTime.trans serves.certModTime
  · exact sameKeyTime.trans serves.keyModTime
  · exact fun modTime isTime => sameCaTime.trans (serves.caModTime modTime isTime)
  · exact serves.stated.later paths later
  · exact serves.matching.later paths serves.stated later

/-- The invariant of the certificate: it serves the latest commit, and each commit is of a
pair that was accepted. -/
structure Consistency (count : Nat) (r : ReloadingCertificate Cert Pool) : Prop where
  started : ∀ commit ∈ r.commits, commit.reload < count
  accepted : ∀ commit ∈ r.commits,
    Accepted keyPair certPool commit.contents commit.cert commit.pool
  latest : ∀ commit, r.commits.head? = some commit → Serves paths r commit
  unloaded : r.commits = [] → r.cert = none ∧ r.constructed = false

/-- The phases after a reload that returned no error. -/
def Phase.reloaded : Phase Cert Pool → Bool
  | .finish none => true
  | .done none _ => true
  | _ => false

/-- The invariant of a call. A call whose reload has not returned, or has returned an error,
has committed nothing. -/
structure Conforms (id : Nat) (r : ReloadingCertificate Cert Pool) (call : Call Cert Pool) :
    Prop where
  sound : call.phase.Sound paths keyPair certPool r
  uncommitted : call.phase.reloaded = false → ∀ commit ∈ r.commits, commit.reload ≠ id
  loaded : call.phase.reloaded = true ∨ call.phase = .unchanged → r.commits ≠ []
  begun : call.caller ≠ .newReloadingCertificate → call.phase ≠ .due → r.commits ≠ []
  certificate : ∀ err cert, call.phase = .done err (.certificate cert) →
    ∃ commit ∈ r.commits, cert = some commit.cert
  pool : ∀ err pool, call.phase = .done err (.pool pool) →
    ∃ commit ∈ r.commits, pool = commit.pool

/-- What a move of a call can do: any step of the reload may fail, and only the commit changes
what is served. -/
inductive Moves (r : ReloadingCertificate Cert Pool) (id : Nat) (caller : Caller) :
    Phase Cert Pool → ReloadingCertificate Cert Pool → Phase Cert Pool → Prop
  | due (constructed : r.constructed = true) : Moves r id caller .due r .statCert
  | notDue (constructed : r.constructed = true) : Moves r id caller .due r (.finish none)
  | statCert : Moves r id caller .statCert r (.statKey (r.files paths.certFile).modTime)
  | statKey (cert : Int) :
      Moves r id caller (.statKey cert) r (.statCA cert (r.files paths.keyFile).modTime)
  | statCA (cert key : Int) (configured : paths.clientCAFile ≠ "") :
      Moves r id caller (.statCA cert key) r
        (.compare ⟨cert, key, some (r.files paths.clientCAFile).modTime⟩)
  | statNoCA (cert key : Int) (unconfigured : paths.clientCAFile = "") :
      Moves r id caller (.statCA cert key) r (.compare ⟨cert, key, none⟩)
  | same (modTimes : ModTimes) (loaded : r.cert.isSome = true) :
      Moves r id caller (.compare modTimes) r .unchanged
  | changed (modTimes : ModTimes) : Moves r id caller (.compare modTimes) r (.readCert modTimes)
  | checked : Moves r id caller .unchanged { r with lastChecked := r.clock } (.finish none)
  | readCert (modTimes : ModTimes) :
      Moves r id caller (.readCert modTimes) r
        (.readKey modTimes (r.files paths.certFile).content)
  | readKey (modTimes : ModTimes) (certPEM : String) (cert : Cert)
      (loaded : keyPair certPEM (r.files paths.keyFile).content = .ok cert) :
      Moves r id caller (.readKey modTimes certPEM) r
        (.readCA modTimes certPEM (r.files paths.keyFile).content cert)
  | readCA (modTimes : ModTimes) (certPEM keyPEM : String) (cert : Cert) (pool : Pool)
      (configured : paths.clientCAFile ≠ "")
      (usable : certPool (r.files paths.clientCAFile).content = some pool) :
      Moves r id caller (.readCA modTimes certPEM keyPEM cert) r (.commit modTimes
        ⟨certPEM, keyPEM, some (r.files paths.clientCAFile).content⟩ cert (some pool))
  | readNoCA (modTimes : ModTimes) (certPEM keyPEM : String) (cert : Cert)
      (unconfigured : paths.clientCAFile = "") :
      Moves r id caller (.readCA modTimes certPEM keyPEM cert) r
        (.commit modTimes ⟨certPEM, keyPEM, none⟩ cert none)
  | commit (modTimes : ModTimes) (contents : Contents) (cert : Cert) (pool : Option Pool) :
      Moves r id caller (.commit modTimes contents cert pool)
        (r.commit ⟨id, modTimes, contents, cert, pool⟩) (.finish none)
  | finish (err : Option GoError) :
      Moves r id caller (.finish err)
        { r with constructed := r.constructed ||
            (decide (caller = .newReloadingCertificate) && err.isNone) }
        (.done err (r.answer caller))
  | fails (phase : Phase Cert Pool) (err : GoError) (begun : phase ≠ .due)
      (reloading : phase.reloaded = false) :
      Moves r id caller phase r (.finish (some err))

variable (minCheckInterval : Int)

/-- Every step of the program is one of these moves. -/
theorem next_moves (diskError : Option String) (id : Nat) (caller : Caller)
    (r after : ReloadingCertificate Cert Pool) (phase next : Phase Cert Pool)
    (moved : phase.next paths minCheckInterval keyPair certPool diskError r id caller =
      some (after, next)) : Moves paths keyPair certPool r id caller phase after next := by
  have failing : ∀ err, phase ≠ .due → phase.reloaded = false →
      some (r, .finish (some err)) = some (after, next) →
        Moves paths keyPair certPool r id caller phase after next := by
    intro err begun reloading failed
    obtain ⟨rfl, rfl⟩ := Prod.mk.inj (Option.some.inj failed)
    exact .fails phase err begun reloading
  cases phase with
  | due =>
    simp only [Phase.next] at moved
    split_ifs at moved with unconstructed isDue <;>
      obtain ⟨rfl, rfl⟩ := Prod.mk.inj (Option.some.inj moved)
    · exact .due (by simpa using unconstructed)
    · exact .notDue (by simpa using unconstructed)
  | statCert =>
    cases diskError with
    | some message => exact failing _ (by simp) rfl moved
    | none =>
      obtain ⟨rfl, rfl⟩ := Prod.mk.inj (Option.some.inj moved)
      exact .statCert
  | statKey cert =>
    cases diskError with
    | some message => exact failing _ (by simp) rfl moved
    | none =>
      obtain ⟨rfl, rfl⟩ := Prod.mk.inj (Option.some.inj moved)
      exact .statKey cert
  | statCA cert key =>
    simp only [Phase.next] at moved
    split_ifs at moved with unconfigured
    · obtain ⟨rfl, rfl⟩ := Prod.mk.inj (Option.some.inj moved)
      exact .statNoCA cert key unconfigured
    · cases diskError with
      | some message => exact failing _ (by simp) rfl moved
      | none =>
        obtain ⟨rfl, rfl⟩ := Prod.mk.inj (Option.some.inj moved)
        exact .statCA cert key unconfigured
  | compare modTimes =>
    simp only [Phase.next] at moved
    split_ifs at moved with isSame <;> obtain ⟨rfl, rfl⟩ := Prod.mk.inj (Option.some.inj moved)
    · exact .same modTimes (by simp [ReloadingCertificate.unchanged] at isSame; simp [isSame])
    · exact .changed modTimes
  | unchanged =>
    obtain ⟨rfl, rfl⟩ := Prod.mk.inj (Option.some.inj moved)
    exact .checked
  | readCert modTimes =>
    cases diskError with
    | some message => exact failing _ (by simp) rfl moved
    | none =>
      obtain ⟨rfl, rfl⟩ := Prod.mk.inj (Option.some.inj moved)
      exact .readCert modTimes
  | readKey modTimes certPEM =>
    simp only [Phase.next] at moved
    split at moved
    · exact failing _ (by simp) rfl moved
    · split at moved
      · exact failing _ (by simp) rfl moved
      · next loaded =>
        obtain ⟨rfl, rfl⟩ := Prod.mk.inj (Option.some.inj moved)
        exact .readKey modTimes certPEM _ loaded
  | readCA modTimes certPEM keyPEM cert =>
    simp only [Phase.next] at moved
    split_ifs at moved with unconfigured
    · obtain ⟨rfl, rfl⟩ := Prod.mk.inj (Option.some.inj moved)
      exact .readNoCA modTimes certPEM keyPEM cert unconfigured
    · split at moved
      · exact failing _ (by simp) rfl moved
      · split at moved
        · exact failing _ (by simp) rfl moved
        · next usable =>
          obtain ⟨rfl, rfl⟩ := Prod.mk.inj (Option.some.inj moved)
          exact .readCA modTimes certPEM keyPEM cert _ unconfigured usable
  | commit modTimes contents cert pool =>
    obtain ⟨rfl, rfl⟩ := Prod.mk.inj (Option.some.inj moved)
    exact .commit modTimes contents cert pool
  | finish err =>
    obtain ⟨rfl, rfl⟩ := Prod.mk.inj (Option.some.inj moved)
    exact .finish err
  | done err answer => cases moved

/-- A move commits, or it leaves the served values, the files and the commits alone. -/
theorem Moves.effect {id : Nat} {caller : Caller} {r after : ReloadingCertificate Cert Pool}
    {phase next : Phase Cert Pool}
    (moves : Moves paths keyPair certPool r id caller phase after next) :
    (∃ modTimes contents cert pool, phase = .commit modTimes contents cert pool ∧
      after = r.commit ⟨id, modTimes, contents, cert, pool⟩ ∧ next = .finish none) ∨
    (after.served = r.served ∧ after.files = r.files ∧ after.commits = r.commits ∧
      (after.constructed = r.constructed ∨ phase = .finish none)) := by
  cases moves with
  | commit modTimes contents cert pool =>
    exact Or.inl ⟨modTimes, contents, cert, pool, rfl, rfl, rfl⟩
  | finish err =>
    refine Or.inr ⟨rfl, rfl, rfl, ?_⟩
    cases err with
    | none => exact Or.inr rfl
    | some err => simp
  | _ => exact Or.inr ⟨rfl, rfl, rfl, Or.inl rfl⟩

/-- After a commit its own values are served. -/
theorem commit_serves (r : ReloadingCertificate Cert Pool) (commit : Commit Cert Pool)
    (stated : Stated paths r commit.modTimes)
    (matching : Matching paths r commit.modTimes commit.contents) :
    Serves paths (r.commit commit) commit := by
  have later : Later r (r.commit commit) := later_of_files_eq rfl
  constructor
  case cert => rfl
  case clientCAs => rfl
  case certModTime => rfl
  case keyModTime => rfl
  case caModTime =>
    intro modTime isTime
    simp [ReloadingCertificate.commit, isTime]
  case stated => exact stated.later paths later
  case matching => exact matching.later paths stated later

/-- A move leaves the files alone. -/
theorem Moves.later {id : Nat} {caller : Caller} {r after : ReloadingCertificate Cert Pool}
    {phase next : Phase Cert Pool}
    (moves : Moves paths keyPair certPool r id caller phase after next) : Later r after := by
  rcases moves.effect with ⟨_, _, _, _, _, rfl, _⟩ | ⟨_, sameFiles, _⟩
  · exact later_of_files_eq rfl
  · exact later_of_files_eq sameFiles

/-- Commits are kept, and a new one is the mover's. -/
theorem Moves.commits {id : Nat} {caller : Caller} {r after : ReloadingCertificate Cert Pool}
    {phase next : Phase Cert Pool}
    (moves : Moves paths keyPair certPool r id caller phase after next) :
    r.commits ⊆ after.commits ∧
      ∀ commit ∈ after.commits, commit ∈ r.commits ∨ commit.reload = id := by
  rcases moves.effect with ⟨_, _, _, _, _, rfl, _⟩ | ⟨_, _, sameCommits, _⟩
  · refine ⟨List.subset_cons_self _ _, fun commit logged => ?_⟩
    rcases List.mem_cons.1 logged with rfl | earlier
    · exact Or.inr rfl
    · exact Or.inl earlier
  · rw [sameCommits]
    exact ⟨List.Subset.refl _, fun commit logged => Or.inl logged⟩

/-- The certificate stays consistent while nothing is committed. -/
theorem Consistency.stable {count : Nat} {r after : ReloadingCertificate Cert Pool}
    (consistency : Consistency paths keyPair certPool count r)
    (sameServed : after.served = r.served)
    (later : Later r after) (sameCommits : after.commits = r.commits)
    (built : after.constructed = r.constructed ∨ r.commits ≠ []) :
    Consistency paths keyPair certPool count after := by
  constructor
  case started => exact sameCommits ▸ consistency.started
  case accepted => exact sameCommits ▸ consistency.accepted
  case latest =>
    intro commit isLatest
    rw [sameCommits] at isLatest
    exact (consistency.latest commit isLatest).later paths sameServed later
  case unloaded =>
    intro empty
    rw [sameCommits] at empty
    obtain ⟨noCert, notConstructed⟩ := consistency.unloaded empty
    refine ⟨(congrArg Prod.fst sameServed).trans noCert, ?_⟩
    exact (built.resolve_right (not_not_intro empty)).trans notConstructed

/-- A move keeps the invariant of the certificate. -/
theorem Moves.consistency {count id : Nat} {r after : ReloadingCertificate Cert Pool}
    {call : Call Cert Pool} {next : Phase Cert Pool}
    (moves : Moves paths keyPair certPool r id call.caller call.phase after next)
    (began : id < count) (consistency : Consistency paths keyPair certPool count r)
    (conforms : Conforms paths keyPair certPool id r call) :
    Consistency paths keyPair certPool count after := by
  rcases moves.effect with
    ⟨modTimes, contents, cert, pool, isCommit, rfl, _⟩ | ⟨sameServed, sameFiles, sameCommits, built⟩
  · have sound := conforms.sound
    rw [isCommit] at sound
    obtain ⟨stated, matching, accepted⟩ := sound
    constructor
    case started => exact List.forall_mem_cons.2 ⟨began, consistency.started⟩
    case accepted => exact List.forall_mem_cons.2 ⟨accepted, consistency.accepted⟩
    case latest =>
      intro commit isLatest
      obtain rfl := Option.some.inj isLatest
      exact commit_serves paths r _ stated matching
    case unloaded =>
      intro empty
      cases empty
  · refine consistency.stable paths keyPair certPool sameServed (later_of_files_eq sameFiles)
      sameCommits ?_
    rcases built with same | finished
    · exact Or.inl same
    · exact Or.inr (conforms.loaded (Or.inl (by rw [finished]; rfl)))

/-- The local variables of a call satisfy their invariant after its own move. -/
theorem Moves.sound {id : Nat} {caller : Caller} {r after : ReloadingCertificate Cert Pool}
    {phase next : Phase Cert Pool}
    (moves : Moves paths keyPair certPool r id caller phase after next)
    (sound : phase.Sound paths keyPair certPool r) : next.Sound paths keyPair certPool after := by
  cases moves with
  | statCert => exact (r.files paths.certFile).current
  | statKey cert => exact ⟨sound, (r.files paths.keyFile).current⟩
  | statCA cert key configured =>
    refine ⟨sound.1, sound.2, ?_, by simp [configured]⟩
    intro modTime isTime
    obtain rfl := Option.some.inj isTime
    exact (r.files paths.clientCAFile).current
  | statNoCA cert key unconfigured =>
    exact ⟨sound.1, sound.2, by simp, by simp [unconfigured]⟩
  | changed modTimes => exact sound
  | readCert modTimes => exact ⟨sound, fun _ => rfl⟩
  | readKey modTimes certPEM cert loaded => exact ⟨sound.1, sound.2, fun _ => rfl, loaded⟩
  | readCA modTimes certPEM keyPEM cert pool configured usable =>
    obtain ⟨stated, certMatches, keyMatches, loaded⟩ := sound
    refine ⟨stated, ⟨certMatches, keyMatches, ?_, ?_⟩, loaded, congrArg some usable⟩
    · exact fun modTime isTime => ⟨_, rfl, fun _ => rfl⟩
    · exact fun noTime => absurd (stated.configured.1 noTime) configured
  | readNoCA modTimes certPEM keyPEM cert unconfigured =>
    obtain ⟨stated, certMatches, keyMatches, loaded⟩ := sound
    refine ⟨stated, ⟨certMatches, keyMatches, ?_, fun _ => rfl⟩, loaded, rfl⟩
    intro modTime isTime
    rw [stated.configured.2 unconfigured] at isTime
    cases isTime
  | _ => trivial

/-- The constructor returns a certificate only after a commit. -/
theorem Consistency.loaded_of_constructed {count : Nat} {r : ReloadingCertificate Cert Pool}
    (consistency : Consistency paths keyPair certPool count r)
    (constructed : r.constructed = true) : r.commits ≠ [] := by
  intro empty
  simp [(consistency.unloaded empty).2] at constructed

/-- Once there is a commit, the latest one is served. -/
theorem Consistency.serves {count : Nat} {r : ReloadingCertificate Cert Pool}
    (consistency : Consistency paths keyPair certPool count r) (loaded : r.commits ≠ []) :
    ∃ commit ∈ r.commits, Serves paths r commit := by
  obtain ⟨commit, rest, isLatest⟩ := List.exists_cons_of_ne_nil loaded
  exact ⟨commit, by simp [isLatest], consistency.latest commit (by simp [isLatest])⟩

/-- There is a commit once a reload returns no error or finds the files unchanged. -/
theorem Moves.loaded {count id : Nat} {r after : ReloadingCertificate Cert Pool}
    {call : Call Cert Pool} {next : Phase Cert Pool}
    (moves : Moves paths keyPair certPool r id call.caller call.phase after next)
    (consistency : Consistency paths keyPair certPool count r)
    (conforms : Conforms paths keyPair certPool id r call)
    (returned : next.reloaded = true ∨ next = .unchanged) : after.commits ≠ [] := by
  have loaded := conforms.loaded
  generalize call.phase = phase at moves loaded
  cases moves with
  | notDue constructed => exact consistency.loaded_of_constructed paths keyPair certPool constructed
  | same modTimes hasCert =>
    intro empty
    simp [(consistency.unloaded empty).1] at hasCert
  | checked => exact loaded (Or.inr rfl)
  | commit modTimes contents cert pool => exact List.cons_ne_nil _ _
  | finish err =>
    cases err with
    | none => exact loaded (Or.inl rfl)
    | some err => simp [Phase.reloaded] at returned
  | _ => simp [Phase.reloaded] at returned

/-- An answer is what the fields held after the reload. -/
theorem Moves.answered {id : Nat} {caller : Caller} {r after : ReloadingCertificate Cert Pool}
    {phase : Phase Cert Pool} {err : Option GoError} {answer : Answer Cert Pool}
    (moves : Moves paths keyPair certPool r id caller phase after (.done err answer)) :
    phase = .finish err ∧ answer = r.answer caller ∧ after.commits = r.commits := by
  cases moves
  exact ⟨rfl, rfl, rfl⟩

/-- A call that is about to answer a handshake finds a commit that is served. -/
theorem Conforms.serves {count id : Nat} {r : ReloadingCertificate Cert Pool}
    {call : Call Cert Pool} {err : Option GoError}
    (conforms : Conforms paths keyPair certPool id r call)
    (consistency : Consistency paths keyPair certPool count r)
    (finishing : call.phase = .finish err) (handshake : call.caller ≠ .newReloadingCertificate) :
    ∃ commit ∈ r.commits, Serves paths r commit :=
  consistency.serves paths keyPair certPool (conforms.begun handshake (by simp [finishing]))

/-- A call conforms to its invariant after its own move. -/
theorem Moves.conforms {count id : Nat} {r after : ReloadingCertificate Cert Pool}
    {call : Call Cert Pool} {next : Phase Cert Pool}
    (moves : Moves paths keyPair certPool r id call.caller call.phase after next)
    (consistency : Consistency paths keyPair certPool count r)
    (conforms : Conforms paths keyPair certPool id r call) :
    Conforms paths keyPair certPool id after { call with phase := next } := by
  constructor
  case sound => exact moves.sound paths keyPair certPool conforms.sound
  case uncommitted =>
    intro notReloaded commit logged
    have before : call.phase.reloaded = false := by
      generalize call.phase = phase at moves
      cases moves with
      | finish err => cases err <;> simp_all [Phase.reloaded]
      | fails _ err begun reloading => exact reloading
      | _ => rfl
    rcases moves.effect with ⟨_, _, _, _, _, _, rfl⟩ | ⟨_, _, sameCommits, _⟩
    · simp [Phase.reloaded] at notReloaded
    · rw [sameCommits] at logged
      exact conforms.uncommitted before commit logged
  case loaded => exact moves.loaded paths keyPair certPool consistency conforms
  case begun =>
    intro handshake _
    have loaded : r.commits ≠ [] := by
      by_cases notBegun : call.phase = .due
      · rw [notBegun] at moves
        refine consistency.loaded_of_constructed paths keyPair certPool ?_
        cases moves with
        | due constructed => exact constructed
        | notDue constructed => exact constructed
        | fails _ err begun reloading => exact absurd rfl begun
      · exact conforms.begun handshake notBegun
    exact fun empty => loaded (List.subset_nil.1 (empty ▸ moves.commits.1))
  case certificate =>
    rintro err cert rfl
    obtain ⟨finishing, isAnswer, sameCommits⟩ := moves.answered
    have isCaller : call.caller = .getCertificate := by
      cases isCall : call.caller <;> simp_all [ReloadingCertificate.answer]
    obtain ⟨commit, logged, serves⟩ :=
      conforms.serves paths keyPair certPool consistency finishing (by simp [isCaller])
    rw [isCaller] at isAnswer
    exact ⟨commit, sameCommits ▸ logged, (Answer.certificate.inj isAnswer).trans serves.cert⟩
  case pool =>
    rintro err pool rfl
    obtain ⟨finishing, isAnswer, sameCommits⟩ := moves.answered
    have isCaller : call.caller = .clientCAPool := by
      cases isCall : call.caller <;> simp_all [ReloadingCertificate.answer]
    obtain ⟨commit, logged, serves⟩ :=
      conforms.serves paths keyPair certPool consistency finishing (by simp [isCaller])
    rw [isCaller] at isAnswer
    exact ⟨commit, sameCommits ▸ logged, (Answer.pool.inj isAnswer).trans serves.clientCAs⟩

/-- A call conforms to its invariant while others commit and files are rewritten. -/
theorem Conforms.stable {id : Nat} {r after : ReloadingCertificate Cert Pool}
    {call : Call Cert Pool} (conforms : Conforms paths keyPair certPool id r call)
    (later : Later r after) (kept : r.commits ⊆ after.commits)
    (others : ∀ commit ∈ after.commits, commit ∈ r.commits ∨ commit.reload ≠ id) :
    Conforms paths keyPair certPool id after call := by
  have stillLoaded : r.commits ≠ [] → after.commits ≠ [] := fun loaded empty =>
    loaded (List.subset_nil.1 (empty ▸ kept))
  constructor
  case sound => exact conforms.sound.later paths keyPair certPool later
  case uncommitted =>
    intro notReloaded commit logged
    rcases others commit logged with before | different
    · exact conforms.uncommitted notReloaded commit before
    · exact different
  case loaded => exact fun returned => stillLoaded (conforms.loaded returned)
  case begun => exact fun handshake begun => stillLoaded (conforms.begun handshake begun)
  case certificate =>
    intro err cert isDone
    obtain ⟨commit, logged, isCert⟩ := conforms.certificate err cert isDone
    exact ⟨commit, kept logged, isCert⟩
  case pool =>
    intro err pool isDone
    obtain ⟨commit, logged, isPool⟩ := conforms.pool err pool isDone
    exact ⟨commit, kept logged, isPool⟩

/-- Both invariants hold in every schedule of calls and rewrites. -/
theorem tls_invariant (files : String → File) (zeroTime : Int) :
    (tlsSystem paths minCheckInterval keyPair certPool files zeroTime).Invariant
      (Consistency paths keyPair certPool) (Conforms paths keyPair certPool) where
  initially := by constructor <;> simp [tlsSystem]
  begins caller count r consistency := by
    constructor
    · exact { consistency with
        started := fun commit logged => Nat.lt_succ_of_lt (consistency.started commit logged) }
    · constructor
      case uncommitted =>
        exact fun _ commit logged => Nat.ne_of_lt (consistency.started commit logged)
      all_goals cases caller <;> simp [tlsSystem, Call.begin, Phase.Sound, Phase.reloaded]
  moves diskError count id r call after call' began consistency conforms moved := by
    obtain ⟨⟨after, next⟩, isNext, isMove⟩ := Option.map_eq_some_iff.1 moved
    obtain ⟨rfl, rfl⟩ := Prod.mk.inj isMove
    have moves := next_moves paths keyPair certPool minCheckInterval _ _ _ _ _ _ _ isNext
    exact ⟨moves.consistency paths keyPair certPool began consistency conforms,
      moves.conforms paths keyPair certPool consistency conforms⟩
  interferes diskError count id r call after call' other bystander different _ _ conforms
      moved := by
    obtain ⟨⟨after, next⟩, isNext, isMove⟩ := Option.map_eq_some_iff.1 moved
    obtain ⟨rfl, rfl⟩ := Prod.mk.inj isMove
    have moves := next_moves paths keyPair certPool minCheckInterval _ _ _ _ _ _ _ isNext
    refine conforms.stable paths keyPair certPool moves.later moves.commits.1 ?_
    intro commit logged
    exact (moves.commits.2 commit logged).imp_right fun mine theirs =>
      different (theirs.symm.trans mine)
  events event count r after consistency happened := by
    have later := event_later r after event happened
    have same : after.served = r.served ∧ after.commits = r.commits ∧
        after.constructed = r.constructed := by
      cases event with
      | tick elapsed =>
        obtain rfl := Option.some.inj happened
        exact ⟨rfl, rfl, rfl⟩
      | rewrite path content modTime =>
        obtain ⟨f, _, rfl⟩ := Option.map_eq_some_iff.1 happened
        exact ⟨rfl, rfl, rfl⟩
    obtain ⟨sameServed, sameCommits, sameConstructed⟩ := same
    constructor
    · exact consistency.stable paths keyPair certPool sameServed later sameCommits
        (Or.inl sameConstructed)
    · intro id call conforms
      refine conforms.stable paths keyPair certPool later (sameCommits ▸ List.Subset.refl _) ?_
      exact fun commit logged => Or.inl (sameCommits ▸ logged)

/-- The reload of a call has returned an error. -/
def ReloadFailed (config : Config (ReloadingCertificate Cert Pool) (Call Cert Pool)) (id : Nat) :
    Prop :=
  ∃ call err, config.calls[id]? = some call ∧
    (call.phase = .finish (some err) ∨ ∃ answer, call.phase = .done (some err) answer)

/-- Steps keep the commits. -/
theorem step_keeps_commit (files : String → File) (zeroTime : Int) (commit : Commit Cert Pool)
    (config after : Config (ReloadingCertificate Cert Pool) (Call Cert Pool))
    (action : Action Caller (Option String) DiskEvent) (logged : commit ∈ config.shared.commits)
    (taken : (tlsSystem paths minCheckInterval keyPair certPool files zeroTime).step config action =
      some after) : commit ∈ after.shared.commits := by
  cases action with
  | call caller =>
    obtain rfl := Option.some.inj taken
    exact logged
  | move id diskError =>
    obtain ⟨call, _, moved⟩ := Option.bind_eq_some_iff.1 taken
    obtain ⟨_, isMove, rfl⟩ := Option.map_eq_some_iff.1 moved
    obtain ⟨⟨r, next⟩, isNext, rfl⟩ := Option.map_eq_some_iff.1 isMove
    have moves := next_moves paths keyPair certPool minCheckInterval _ _ _ _ _ _ _ isNext
    exact moves.commits.1 logged
  | event event =>
    obtain ⟨r, happened, rfl⟩ := Option.map_eq_some_iff.1 taken
    cases event with
    | tick elapsed =>
      obtain rfl := Option.some.inj happened
      exact logged
    | rewrite path content modTime =>
      obtain ⟨f, _, rfl⟩ := Option.map_eq_some_iff.1 happened
      exact logged

/-- A step that changes what is served is logged as a commit of the call that took it. -/
theorem step_served (files : String → File) (zeroTime : Int) (id : Nat)
    (config after : Config (ReloadingCertificate Cert Pool) (Call Cert Pool))
    (diskError : Option String)
    (taken : (tlsSystem paths minCheckInterval keyPair certPool files zeroTime).step config
      (.move id diskError) = some after) :
    after.shared.served = config.shared.served ∨
      ∃ commit ∈ after.shared.commits, commit.reload = id := by
  obtain ⟨call, _, moved⟩ := Option.bind_eq_some_iff.1 taken
  obtain ⟨_, isMove, rfl⟩ := Option.map_eq_some_iff.1 moved
  obtain ⟨⟨r, next⟩, isNext, rfl⟩ := Option.map_eq_some_iff.1 isMove
  have moves := next_moves paths keyPair certPool minCheckInterval _ _ _ _ _ _ _ isNext
  rcases moves.effect with ⟨_, _, _, _, _, isAfter, _⟩ | ⟨same, _⟩
  · exact Or.inr ⟨_, by rw [isAfter]; exact List.mem_cons_self, rfl⟩
  · exact Or.inl same

/-- When the recorded times are the current ones, the contents of the latest commit are the
current ones. -/
theorem Serves.current {r : ReloadingCertificate Cert Pool} {commit : Commit Cert Pool}
    (serves : Serves paths r commit)
    (accepted : Accepted keyPair certPool commit.contents commit.cert commit.pool)
    (certTime : r.certModTime = (r.files paths.certFile).modTime)
    (keyTime : r.keyModTime = (r.files paths.keyFile).modTime)
    (caTime : paths.clientCAFile ≠ "" → r.caModTime = (r.files paths.clientCAFile).modTime) :
    (∃ cert, r.cert = some cert ∧
      keyPair (r.files paths.certFile).content (r.files paths.keyFile).content = .ok cert) ∧
    (paths.clientCAFile = "" → r.clientCAs = none) ∧
    (paths.clientCAFile ≠ "" → ∃ pool, r.clientCAs = some pool ∧
      certPool (r.files paths.clientCAFile).content = some pool) := by
  obtain ⟨loaded, isPool⟩ := accepted
  have certContent := serves.matching.cert (certTime.symm.trans serves.certModTime)
  have keyContent := serves.matching.key (keyTime.symm.trans serves.keyModTime)
  refine ⟨⟨commit.cert, serves.cert, by rw [certContent, keyContent, loaded]⟩, ?_, ?_⟩
  · intro unconfigured
    rw [serves.matching.noCA (serves.stated.configured.2 unconfigured)] at isPool
    exact serves.clientCAs.trans (Option.map_eq_none_iff.1 isPool.symm)
  · intro configured
    obtain ⟨modTime, isTime⟩ :=
      Option.ne_none_iff_exists'.1 (mt serves.stated.configured.1 configured)
    obtain ⟨content, isContent, notOlder⟩ := serves.matching.ca modTime isTime
    have caContent := notOlder ((caTime configured).symm.trans (serves.caModTime modTime isTime))
    rw [isContent, Option.map_some] at isPool
    obtain ⟨pool, isCommitPool, isBuilt⟩ := Option.map_eq_some_iff.1 isPool.symm
    exact ⟨pool, serves.clientCAs.trans isCommitPool, by rw [caContent, ← isBuilt]⟩

/-- In every interleaving of handshakes with rewrites of the files. Once the constructor has
returned, the certificate is one that the library accepted, with the pool of the same reload,
and handshakes are answered with such certificates and pools. A call whose reload fails has
changed nothing. When the recorded times are those of the files, the certificate and the pool
are built from what the files hold. -/
theorem reload_consistent (files : String → File) (zeroTime : Int)
    (schedule : List (Action Caller (Option String) DiskEvent))
    (config : Config (ReloadingCertificate Cert Pool) (Call Cert Pool))
    (ran : (tlsSystem paths minCheckInterval keyPair certPool files zeroTime).run schedule =
      some config) :
    (config.shared.constructed = true → ∃ commit ∈ config.shared.commits,
      Accepted keyPair certPool commit.contents commit.cert commit.pool ∧
        config.shared.cert = some commit.cert ∧ config.shared.clientCAs = commit.pool) ∧
    (∀ (id : Nat) (call : Call Cert Pool) (err : Option GoError), config.calls[id]? = some call →
      (∀ cert, call.phase = .done err (.certificate cert) → ∃ commit ∈ config.shared.commits,
        Accepted keyPair certPool commit.contents commit.cert commit.pool ∧
          cert = some commit.cert) ∧
      (∀ pool, call.phase = .done err (.pool pool) → ∃ commit ∈ config.shared.commits,
        Accepted keyPair certPool commit.contents commit.cert commit.pool ∧
          pool = commit.pool)) ∧
    (∀ before after id diskError start moved, schedule = before ++ .move id diskError :: after →
      (tlsSystem paths minCheckInterval keyPair certPool files zeroTime).run before = some start →
      (tlsSystem paths minCheckInterval keyPair certPool files zeroTime).run
        (before ++ [.move id diskError]) = some moved →
      ReloadFailed config id → moved.shared.served = start.shared.served) ∧
    (config.shared.constructed = true →
      config.shared.certModTime = (config.shared.files paths.certFile).modTime →
      config.shared.keyModTime = (config.shared.files paths.keyFile).modTime →
      (paths.clientCAFile ≠ "" →
        config.shared.caModTime = (config.shared.files paths.clientCAFile).modTime) →
      (∃ cert, config.shared.cert = some cert ∧
        keyPair (config.shared.files paths.certFile).content
          (config.shared.files paths.keyFile).content = .ok cert) ∧
      (paths.clientCAFile = "" → config.shared.clientCAs = none) ∧
      (paths.clientCAFile ≠ "" → ∃ pool, config.shared.clientCAs = some pool ∧
        certPool (config.shared.files paths.clientCAFile).content = some pool)) := by
  obtain ⟨consistency, conforms⟩ :=
    (tls_invariant paths keyPair certPool minCheckInterval files zeroTime).run schedule config ran
  have served (constructed : config.shared.constructed = true) :=
    consistency.serves paths keyPair certPool
      (consistency.loaded_of_constructed paths keyPair certPool constructed)
  refine ⟨?_, ?_, ?_, ?_⟩
  · intro constructed
    obtain ⟨commit, logged, serves⟩ := served constructed
    exact ⟨commit, logged, consistency.accepted commit logged, serves.cert, serves.clientCAs⟩
  · intro id call err found
    constructor
    · intro cert isDone
      obtain ⟨commit, logged, isCert⟩ := (conforms id call found).certificate err cert isDone
      exact ⟨commit, logged, consistency.accepted commit logged, isCert⟩
    · intro pool isDone
      obtain ⟨commit, logged, isPool⟩ := (conforms id call found).pool err pool isDone
      exact ⟨commit, logged, consistency.accepted commit logged, isPool⟩
  · rintro before after id diskError start moved rfl reached taken ⟨call, err, found, returned⟩
    have stepped := taken
    rw [System.run_append_singleton, reached, Option.bind_some] at stepped
    refine (step_served paths keyPair certPool minCheckInterval files zeroTime id start moved
      diskError stepped).resolve_right ?_
    rintro ⟨commit, logged, isMine⟩
    have kept : commit ∈ config.shared.commits :=
      System.run_keeps _ (fun config => commit ∈ config.shared.commits)
        (step_keeps_commit paths keyPair certPool minCheckInterval files zeroTime commit)
        (before ++ [.move id diskError]) after moved config taken logged (by simpa using ran)
    refine (conforms id call found).uncommitted ?_ commit kept isMine
    rcases returned with isFinish | ⟨answer, isDone⟩
    · rw [isFinish]; rfl
    · rw [isDone]; rfl
  · intro constructed certTime keyTime caTime
    obtain ⟨commit, logged, serves⟩ := served constructed
    exact serves.current paths keyPair certPool (consistency.accepted commit logged) certTime
      keyTime caTime

end Consistency

/-- A library that accepts equal contents. -/
def sampleSystem : System (ReloadingCertificate String String) (Call String String) Caller
    (Option String) DiskEvent :=
  tlsSystem ⟨"cert", "key", "ca"⟩ 5 (fun cert key => if cert = key then .ok cert else .error "")
    some (fun _ => ⟨"one", 1, {1}, by simp⟩) 0

/-- The certificate is rewritten, and the key after its stat in the first reload. The second
reload fails, the third one finds the new key. -/
def rotation : List (Action Caller (Option String) DiskEvent) :=
  let steps (id count : Nat) : List (Action Caller (Option String) DiskEvent) :=
    List.replicate count (.move id none)
  [.call .newReloadingCertificate] ++ steps 0 9 ++
  [.event (.rewrite "cert" "two" 2), .event (.tick 5), .call .getCertificate] ++ steps 1 6 ++
  [.event (.rewrite "key" "two" 2)] ++ steps 1 4 ++
  [.event (.tick 5), .call .clientCAPool] ++ steps 2 1 ++ [.move 2 (some "busy")] ++ steps 2 1 ++
  [.call .getCertificate] ++ steps 3 10

/-- After the rotation the recorded times are those of the files, so the new pair is served. -/
theorem reload_consistent_rotation :
    ∃ config, sampleSystem.run rotation = some config ∧ config.shared.constructed = true ∧
      config.shared.certModTime = (config.shared.files "cert").modTime ∧
      config.shared.keyModTime = (config.shared.files "key").modTime ∧
      config.shared.caModTime = (config.shared.files "ca").modTime ∧
      (config.shared.files "cert").content = "two" ∧
      ∃ cert, config.shared.cert = some cert ∧
        (if (config.shared.files "cert").content = (config.shared.files "key").content then
          Except.ok (config.shared.files "cert").content else .error "") = .ok cert := by
  have reached : (sampleSystem.run rotation).any (fun config => config.shared.constructed &&
      config.shared.certModTime = (config.shared.files "cert").modTime &&
      config.shared.keyModTime = (config.shared.files "key").modTime &&
      config.shared.caModTime = (config.shared.files "ca").modTime &&
      (config.shared.files "cert").content = "two") = true := by decide +kernel
  obtain ⟨isSome, facts⟩ := (Option.any_eq_true_iff_get _ _).1 reached
  have ran := (Option.some_get isSome).symm
  generalize (sampleSystem.run rotation).get isSome = config at ran facts
  simp only [Bool.and_eq_true, decide_eq_true_eq] at facts
  obtain ⟨⟨⟨⟨constructed, certTime⟩, keyTime⟩, caTime⟩, rewritten⟩ := facts
  have current := (reload_consistent _ _ _ _ _ _ rotation config ran).2.2.2 constructed certTime
    keyTime (fun _ => caTime)
  exact ⟨config, ran, constructed, certTime, keyTime, caTime, rewritten, current.1⟩

end FluffyCore.ServerTls
