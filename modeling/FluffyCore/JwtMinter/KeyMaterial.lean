import FluffyCore.Library.TimedHistory
import FluffyCore.Library.ValidityWindows
import FluffyCore.Status
import Mathlib.Algebra.Group.Int.Defs
import Mathlib.Data.Int.Order.Basic
import Mathlib.Data.List.Induction

/-!
# The rotation cache of the key material

The service keeps the active signing key and the published keys, and rebuilds them once
the clock has passed the next boundary of any configured window. Instants are nanoseconds
since the Unix epoch. Decrypting a private key is a parameter.

A snapshot is what a rebuild at some instant leaves. Every successful call answers from the
snapshot of an instant from which the stretch up to the call is quiet, so it is the snapshot
of the call's own instant unless that is a boundary.
-/

namespace FluffyCore.JwtMinter

open Library Library.ValidityWindows

/-- Nanoseconds in a second. -/
def second : Int := 1000000000

structure PublicJwk where
  alg : String
  crv : String
  kid : String
  kty : String
  use : String
  x : String
  y : String
  e : String
  n : String
deriving DecidableEq

structure PrivateJwk where
  alg : String
  crv : String
  d : String
  kid : String
  kty : String
  use : String
  x : String
  y : String
  e : String
  n : String
  p : String
  q : String
  dp : String
  dq : String
  qi : String
deriving DecidableEq

structure SigningKey where
  privateKey : String
  decryptedPrivateKey : String
  notBefore : Int
  notAfter : Int
  password : String
  kid : String
  publicJwk : PublicJwk
  privateJwk : PrivateJwk
deriving DecidableEq

/-- The zero value of a time: the first instant of the year 1. -/
def zeroTime : Int := -62135596800 * second

/-- The fields of the service. -/
structure KeyMaterialService where
  signingKeys : List SigningKey
  nextFetchTime : Int := zeroTime
  signingKey : Option SigningKey := none
  jwks : List PublicJwk := []

def isActive (key : SigningKey) (now : Int) : Bool :=
  decide (key.notBefore < now) && decide (now < key.notAfter)

/-- The time beyond every boundary, `time.Unix(1<<62, 0)`. -/
def farFuture : Int := 2 ^ 62 * second

/-- The two nested loops over the keys and the ends of their windows. -/
def nextKeyBoundary (keys : List SigningKey) (now : Int) : Int :=
  keys.foldl (fun next key =>
    [key.notBefore, key.notAfter].foldl (fun next t =>
      if ¬ t < now ∧ t < next then t else next) next) farFuture

def KeyMaterialService.reloadDue (s : KeyMaterialService) (now : Int) : Bool :=
  s.signingKey.isNone || decide (s.nextFetchTime < now)

section Service

variable (decryptPEM : String → String → Except String String)

/-- The loop of `_reloadKeys` over the configured keys: the last active key, and the
published keys of all of them. -/
def collectActive (keys : List SigningKey) (now : Int) : Option SigningKey × List PublicJwk :=
  keys.foldl (fun found key =>
    if isActive key now then (some key, found.2 ++ [key.publicJwk]) else found) (none, [])

/-- `_reloadKeys` at an instant. -/
def KeyMaterialService.reloadKeys (s : KeyMaterialService) (now : Int) :
    Except GoError Unit × KeyMaterialService :=
  if !s.reloadDue now then (.ok (), s)
  -- The same test again, under the exclusive lock.
  else if s.signingKey.isSome && !decide (s.nextFetchTime < now) then (.ok (), s)
  else
    match collectActive s.signingKeys now with
    | (none, _) => (.error (.plain "no valid signing keys found for current time"), s)
    | (some active, jwks) =>
      match decryptPEM active.privateKey active.password with
      | .error message => (.error (.plain ("failed to decrypt signing key: " ++ message)), s)
      | .ok decryptedPrivateKey =>
        (.ok (), { s with
          signingKey := some { active with decryptedPrivateKey := decryptedPrivateKey }
          jwks := jwks
          nextFetchTime := nextKeyBoundary s.signingKeys now })

/-- `_reloadKeys`, and then a field of the service when it returned no error. -/
def KeyMaterialService.afterReload {α : Type} (field : KeyMaterialService → α)
    (s : KeyMaterialService) (now : Int) : Except GoError α × KeyMaterialService :=
  match s.reloadKeys decryptPEM now with
  | (.error err, s) => (.error err, s)
  | (.ok (), s) => (.ok (field s), s)

def KeyMaterialService.getSigningKey (s : KeyMaterialService) (now : Int) :
    Except GoError (Option SigningKey) × KeyMaterialService :=
  s.afterReload decryptPEM (·.signingKey) now

def KeyMaterialService.getSigningKeys (s : KeyMaterialService) (now : Int) :
    Except GoError (List SigningKey) × KeyMaterialService :=
  s.afterReload decryptPEM (·.signingKeys) now

def KeyMaterialService.getPublicWebKeys (s : KeyMaterialService) (now : Int) :
    Except GoError (List PublicJwk) × KeyMaterialService :=
  s.afterReload decryptPEM (·.jwks) now

/-- A call of the service. -/
inductive KeyCall where
  | getSigningKey
  | getSigningKeys
  | getPublicWebKeys

/-- The service after a call at an instant. -/
def KeyMaterialService.apply (s : KeyMaterialService) : KeyCall × Int → KeyMaterialService
  | (.getSigningKey, now) => (s.getSigningKey decryptPEM now).2
  | (.getSigningKeys, now) => (s.getSigningKeys decryptPEM now).2
  | (.getPublicWebKeys, now) => (s.getPublicWebKeys decryptPEM now).2

/-- A new service after a history of calls. -/
def KeyMaterialService.run (keys : List SigningKey) (history : List (KeyCall × Int)) :
    KeyMaterialService :=
  history.foldl (KeyMaterialService.apply decryptPEM) { signingKeys := keys }

end Service

/-- The ends of all windows. -/
def boundaries (keys : List SigningKey) : List Int :=
  keys.flatMap fun key => [key.notBefore, key.notAfter]

/-- Both ends of a configured key's window are boundaries. -/
theorem mem_boundaries {keys : List SigningKey} {key : SigningKey} (configured : key ∈ keys) :
    key.notBefore ∈ boundaries keys ∧ key.notAfter ∈ boundaries keys := by
  constructor <;> exact List.mem_flatMap.2 ⟨key, configured, by simp⟩

/-- The loop finds the earliest boundary after an instant. -/
theorem nextKeyBoundary_eq (keys : List SigningKey) (now : Int) :
    nextKeyBoundary keys now = earliest now farFuture (boundaries keys) := by
  rw [nextKeyBoundary, earliest, boundaries, List.foldl_flatMap]

/-- A key is active while its window is open. -/
theorem isActive_iff (key : SigningKey) (now : Int) :
    isActive key now = true ↔ Open key.notBefore key.notAfter now := by
  simp [isActive, Open]

/-- The configured keys that are active at an instant, in order. -/
def activeKeys (keys : List SigningKey) (now : Int) : List SigningKey :=
  keys.filter (isActive · now)

/-- The loop keeps the last of the active keys and publishes all of them. -/
theorem collectActive_eq (keys : List SigningKey) (now : Int) :
    collectActive keys now =
      ((activeKeys keys now).getLast?, (activeKeys keys now).map (·.publicJwk)) := by
  induction keys using List.reverseRecOn with
  | nil => rfl
  | append_singleton before key inductionHypothesis =>
    have unfolded : collectActive (before ++ [key]) now =
        if isActive key now then
          (some key, (collectActive before now).2 ++ [key.publicJwk])
        else collectActive before now := by
      rw [collectActive, collectActive, List.foldl_append, List.foldl_cons, List.foldl_nil]
    rw [unfolded, inductionHypothesis]
    by_cases active : isActive key now = true <;> simp [activeKeys, List.filter_append, active]

section Rotation

variable (decryptPEM : String → String → Except String String)

/-- A reload that is not due does nothing. -/
theorem reloadKeys_not_due (s : KeyMaterialService) (now : Int) (undue : s.reloadDue now = false) :
    s.reloadKeys decryptPEM now = (.ok (), s) := by
  simp [KeyMaterialService.reloadKeys, undue]

/-- A reload that is due passes the second test and looks at the active keys. -/
theorem reloadKeys_due (s : KeyMaterialService) (now : Int) (due : s.reloadDue now = true) :
    s.reloadKeys decryptPEM now =
      match (activeKeys s.signingKeys now).getLast? with
      | none => (.error (.plain "no valid signing keys found for current time"), s)
      | some active =>
        match decryptPEM active.privateKey active.password with
        | .error message => (.error (.plain ("failed to decrypt signing key: " ++ message)), s)
        | .ok decryptedPrivateKey =>
          (.ok (), { s with
            signingKey := some { active with decryptedPrivateKey := decryptedPrivateKey }
            jwks := (activeKeys s.signingKeys now).map (·.publicJwk)
            nextFetchTime := nextKeyBoundary s.signingKeys now }) := by
  have again : (s.signingKey.isSome && !decide (s.nextFetchTime < now)) = false := by
    rw [KeyMaterialService.reloadDue] at due
    cases present : s.signingKey <;> simp_all
  rw [KeyMaterialService.reloadKeys, collectActive_eq, again, due]
  cases (activeKeys s.signingKeys now).getLast? <;> rfl

/-- What a rebuild at an instant leaves in the service. -/
structure Snapshot (keys : List SigningKey) (s : KeyMaterialService) (rebuilt : Int) : Prop where
  signingKey : ∃ key decrypted, (activeKeys keys rebuilt).getLast? = some key ∧
    decryptPEM key.privateKey key.password = .ok decrypted ∧
    s.signingKey = some { key with decryptedPrivateKey := decrypted }
  jwks : s.jwks = (activeKeys keys rebuilt).map (·.publicJwk)

/-- What holds between calls: the cached keys are a snapshot, and nothing happens from then
until the next fetch. -/
structure Cached (keys : List SigningKey) (s : KeyMaterialService) (now : Int) : Prop where
  configured : s.signingKeys = keys
  snapshot : s.signingKey ≠ none → ∃ rebuilt ≤ now, Snapshot decryptPEM keys s rebuilt ∧
    Quiet (boundaries keys) rebuilt s.nextFetchTime

/-- The snapshot a call answers from: the stretch from the rebuild to the call is quiet. -/
def AnswersFrom (keys : List SigningKey) (s : KeyMaterialService) (now : Int) : Prop :=
  ∃ rebuilt stop, rebuilt ≤ now ∧ now ≤ stop ∧ Quiet (boundaries keys) rebuilt stop ∧
    Snapshot decryptPEM keys s rebuilt

/-- A reload keeps the cache. It fails only when the last active key is missing or does not
decrypt, and otherwise the service then answers from a snapshot. -/
theorem reloadKeys_cached (keys : List SigningKey) (s : KeyMaterialService) (now : Int)
    (cached : Cached decryptPEM keys s now) :
    Cached decryptPEM keys (s.reloadKeys decryptPEM now).2 now ∧
      ((s.reloadKeys decryptPEM now).1 = .ok () ∧
          AnswersFrom decryptPEM keys (s.reloadKeys decryptPEM now).2 now ∨
        (∃ err, (s.reloadKeys decryptPEM now).1 = .error err) ∧
          ∀ key, (activeKeys keys now).getLast? = some key →
            ∀ decrypted, decryptPEM key.privateKey key.password ≠ .ok decrypted) := by
  obtain rfl : s.signingKeys = keys := cached.configured
  by_cases due : s.reloadDue now = true
  · rw [reloadKeys_due decryptPEM s now due]
    cases last : (activeKeys s.signingKeys now).getLast? with
    | none => exact ⟨cached, Or.inr ⟨⟨_, rfl⟩, fun _ found => absurd found (by simp)⟩⟩
    | some key =>
      dsimp only
      cases opened : decryptPEM key.privateKey key.password with
      | error message =>
        refine ⟨cached, Or.inr ⟨⟨_, rfl⟩, fun other found decrypted isOpened => ?_⟩⟩
        obtain rfl := Option.some.inj found
        exact absurd (opened.symm.trans isOpened) (by simp)
      | ok decrypted =>
        have snapshot : Snapshot decryptPEM s.signingKeys
            { s with
              signingKey := some { key with decryptedPrivateKey := decrypted }
              jwks := (activeKeys s.signingKeys now).map (·.publicJwk)
              nextFetchTime := nextKeyBoundary s.signingKeys now } now :=
          ⟨⟨key, decrypted, last, opened, rfl⟩, rfl⟩
        refine ⟨⟨rfl, fun _ => ⟨now, le_rfl, snapshot, ?_⟩⟩,
          Or.inl ⟨rfl, now, now, le_rfl, le_rfl, fun _ _ later => later, snapshot⟩⟩
        rw [nextKeyBoundary_eq]
        exact (earliest_le now farFuture (boundaries s.signingKeys)).2
  · have undue := Bool.eq_false_iff.2 due
    have present : s.signingKey ≠ none := by
      intro missing
      simp [KeyMaterialService.reloadDue, missing] at due
    have within : now ≤ s.nextFetchTime := by
      simpa [KeyMaterialService.reloadDue] using (Bool.or_eq_false_iff.1 undue).2
    obtain ⟨rebuilt, earlier, snapshot, quiet⟩ := cached.snapshot present
    rw [reloadKeys_not_due decryptPEM s now undue]
    exact ⟨cached, Or.inl ⟨rfl, rebuilt, s.nextFetchTime, earlier, within, quiet, snapshot⟩⟩

/-- Every call reloads the keys and changes nothing else. -/
theorem apply_eq_reloadKeys (s : KeyMaterialService) (call : KeyCall × Int) :
    s.apply decryptPEM call = (s.reloadKeys decryptPEM call.2).2 := by
  obtain ⟨call, now⟩ := call
  cases call <;>
    · simp only [KeyMaterialService.apply, KeyMaterialService.getSigningKey,
        KeyMaterialService.getSigningKeys, KeyMaterialService.getPublicWebKeys,
        KeyMaterialService.afterReload]
      rcases s.reloadKeys decryptPEM now with ⟨_ | _, _⟩ <;> rfl

/-- A cache stays one while time passes. -/
theorem Cached.later {keys : List SigningKey} {s : KeyMaterialService} {now after : Int}
    (cached : Cached decryptPEM keys s now) (passed : now ≤ after) :
    Cached decryptPEM keys s after := by
  refine ⟨cached.configured, fun present => ?_⟩
  obtain ⟨rebuilt, earlier, rest⟩ := cached.snapshot present
  exact ⟨rebuilt, earlier.trans passed, rest⟩

/-- Every history of calls at times that do not decrease leaves a cache. -/
theorem run_cached (keys : List SigningKey) (history : List (KeyCall × Int))
    (ordered : history.Pairwise (fun c d => c.2 ≤ d.2)) (now : Int)
    (past : ∀ call ∈ history, call.2 ≤ now) :
    Cached decryptPEM keys (KeyMaterialService.run decryptPEM keys history) now := by
  refine TimedHistory.invariant _ (Cached decryptPEM keys) _ ?_ ?_ ?_ history ordered now past
  · exact fun _ => ⟨rfl, fun present => absurd rfl present⟩
  · exact fun s now after cached passed => cached.later decryptPEM passed
  · intro s call cached
    rw [apply_eq_reloadKeys]
    exact (reloadKeys_cached decryptPEM keys s call.2 cached).1

/-- Apart from the boundaries the keys a call answers from are those active at its own
instant. -/
theorem activeKeys_eq_of_quiet (keys : List SigningKey) (rebuilt stop now : Int)
    (quiet : Quiet (boundaries keys) rebuilt stop) (later : rebuilt ≤ now) (within : now ≤ stop)
    (apart : now ∉ boundaries keys) : activeKeys keys now = activeKeys keys rebuilt := by
  refine List.filter_congr fun key configured => ?_
  obtain ⟨opensListed, closesListed⟩ := mem_boundaries configured
  rw [Bool.eq_iff_iff, isActive_iff, isActive_iff]
  exact quiet.open_iff opensListed closesListed later within apart

/-- The keys a call answers from have opened, and none has closed before the call. -/
theorem window_of_quiet (keys : List SigningKey) (rebuilt stop now : Int)
    (quiet : Quiet (boundaries keys) rebuilt stop) (later : rebuilt ≤ now) (within : now ≤ stop)
    (key : SigningKey) (active : key ∈ activeKeys keys rebuilt) :
    key.notBefore < now ∧ now ≤ key.notAfter := by
  obtain ⟨configured, isOpen⟩ := List.mem_filter.1 active
  exact ((isActive_iff key rebuilt).1 isOpen).during quiet (mem_boundaries configured).2 later
    within

/-- A call that succeeds answers from a snapshot. -/
theorem afterReload_ok {α : Type} (field : KeyMaterialService → α) (keys : List SigningKey)
    (s after : KeyMaterialService) (now : Int) (value : α)
    (cached : Cached decryptPEM keys s now)
    (answered : s.afterReload decryptPEM field now = (.ok value, after)) :
    value = field after ∧ AnswersFrom decryptPEM keys after now := by
  obtain ⟨_, outcome⟩ := reloadKeys_cached decryptPEM keys s now cached
  rw [KeyMaterialService.afterReload] at answered
  generalize s.reloadKeys decryptPEM now = reloaded at outcome answered
  obtain ⟨result, left⟩ := reloaded
  rcases outcome with ⟨rfl, answers⟩ | ⟨⟨err, rfl⟩, _⟩
  · obtain ⟨same, rfl⟩ := Prod.mk.inj answered
    exact ⟨(Except.ok.inj same).symm, answers⟩
  · exact absurd (congrArg Prod.fst answered) (by simp)

/-- Where all keys decrypt, a call answers from a snapshot or fails because no key is
active. -/
theorem afterReload_answers {α : Type} (field : KeyMaterialService → α) (keys : List SigningKey)
    (s : KeyMaterialService) (now : Int)
    (decrypts : ∀ key ∈ keys, ∃ decrypted, decryptPEM key.privateKey key.password = .ok decrypted)
    (cached : Cached decryptPEM keys s now) :
    (∃ after, (s.afterReload decryptPEM field now).1 = .ok (field after) ∧
        AnswersFrom decryptPEM keys after now) ∨
      (∃ err, (s.afterReload decryptPEM field now).1 = .error err) ∧ activeKeys keys now = [] := by
  obtain ⟨_, outcome⟩ := reloadKeys_cached decryptPEM keys s now cached
  rw [KeyMaterialService.afterReload]
  generalize s.reloadKeys decryptPEM now = reloaded at outcome ⊢
  obtain ⟨result, after⟩ := reloaded
  rcases outcome with ⟨rfl, answers⟩ | ⟨⟨err, rfl⟩, broken⟩
  · exact Or.inl ⟨after, rfl, answers⟩
  · refine Or.inr ⟨⟨err, rfl⟩, List.getLast?_eq_none_iff.1 (Option.eq_none_iff_forall_ne_some.2 ?_)⟩
    intro key last
    have configured : key ∈ keys := (List.mem_filter.1 (List.mem_of_getLast? last)).1
    obtain ⟨decrypted, opened⟩ := decrypts key configured
    exact broken key last decrypted opened

/-- Apart from the boundaries a call answers from the snapshot of its own instant. -/
theorem AnswersFrom.snapshot {keys : List SigningKey} {s : KeyMaterialService} {now : Int}
    (answers : AnswersFrom decryptPEM keys s now) (apart : now ∉ boundaries keys) :
    Snapshot decryptPEM keys s now := by
  obtain ⟨rebuilt, stop, later, within, quiet, snapshot⟩ := answers
  have same := activeKeys_eq_of_quiet keys rebuilt stop now quiet later within apart
  exact ⟨same ▸ snapshot.signingKey, same ▸ snapshot.jwks⟩

/-- A snapshot holds an active key. -/
theorem Snapshot.activeKeys_ne_nil {keys : List SigningKey} {s : KeyMaterialService} {now : Int}
    (snapshot : Snapshot decryptPEM keys s now) : activeKeys keys now ≠ [] := by
  obtain ⟨key, _, last, _⟩ := snapshot.signingKey
  exact List.ne_nil_of_mem (List.mem_of_getLast? last)

/-- Apart from the boundaries a call fails exactly when no key is active. -/
theorem afterReload_error_iff {α : Type} (field : KeyMaterialService → α) (keys : List SigningKey)
    (s : KeyMaterialService) (now : Int)
    (decrypts : ∀ key ∈ keys, ∃ decrypted, decryptPEM key.privateKey key.password = .ok decrypted)
    (cached : Cached decryptPEM keys s now) (apart : now ∉ boundaries keys) :
    (∃ err, (s.afterReload decryptPEM field now).1 = .error err) ↔ activeKeys keys now = [] := by
  rcases afterReload_answers decryptPEM field keys s now decrypts cached with
    ⟨after, answered, answers⟩ | ⟨failed, none⟩
  · have present := (answers.snapshot decryptPEM apart).activeKeys_ne_nil decryptPEM
    rw [answered]
    simp [present]
  · exact ⟨fun _ => none, fun _ => failed⟩

/-- The rotation cache never serves a wrong key. A call at any time after a history of calls
returns only keys whose window has opened and has not closed before that time. Unless the
time is an end of some window, the signing key is the last configured key whose window
contains it, the published keys are those of all such keys in order, and both calls fail
exactly when there is none. -/
theorem rotation_cache_exact (keys : List SigningKey)
    (decrypts : ∀ key ∈ keys, ∃ decrypted, decryptPEM key.privateKey key.password = .ok decrypted)
    (history : List (KeyCall × Int)) (ordered : history.Pairwise (fun c d => c.2 ≤ d.2))
    (now : Int) (past : ∀ call ∈ history, call.2 ≤ now) :
    (∀ key, ((KeyMaterialService.run decryptPEM keys history).getSigningKey decryptPEM now).1 =
      .ok key → ∃ valid, key = some valid ∧ valid.notBefore < now ∧ now ≤ valid.notAfter) ∧
    (∀ jwks, ((KeyMaterialService.run decryptPEM keys history).getPublicWebKeys decryptPEM now).1 =
      .ok jwks → ∃ published : List SigningKey, published.Sublist keys ∧
        jwks = published.map (·.publicJwk) ∧
        ∀ key ∈ published, key.notBefore < now ∧ now ≤ key.notAfter) ∧
    ((∀ key ∈ keys, now ≠ key.notBefore ∧ now ≠ key.notAfter) →
      let valid := keys.filter fun key => key.notBefore < now ∧ now < key.notAfter
      (∀ key, valid.getLast? = some key → ∃ decrypted,
        decryptPEM key.privateKey key.password = .ok decrypted ∧
        ((KeyMaterialService.run decryptPEM keys history).getSigningKey decryptPEM now).1 =
          .ok (some { key with decryptedPrivateKey := decrypted })) ∧
      (valid ≠ [] →
        ((KeyMaterialService.run decryptPEM keys history).getPublicWebKeys decryptPEM now).1 =
          .ok (valid.map (·.publicJwk))) ∧
      ((∃ err, ((KeyMaterialService.run decryptPEM keys history).getSigningKey
        decryptPEM now).1 = .error err) ↔ valid = []) ∧
      ((∃ err, ((KeyMaterialService.run decryptPEM keys history).getPublicWebKeys
        decryptPEM now).1 = .error err) ↔ valid = [])) := by
  have cached := run_cached decryptPEM keys history ordered now past
  have signing := afterReload_answers decryptPEM (·.signingKey) keys _ now decrypts cached
  have publishing := afterReload_answers decryptPEM (·.jwks) keys _ now decrypts cached
  refine ⟨?_, ?_, ?_⟩
  · intro key returned
    rcases signing with ⟨after, answered, rebuilt, stop, later, within, quiet, snapshot⟩ |
      ⟨⟨err, failed⟩, _⟩
    · obtain ⟨valid, decrypted, last, _, stored⟩ := snapshot.signingKey
      obtain rfl := Except.ok.inj (returned.symm.trans answered)
      exact ⟨_, stored, window_of_quiet keys rebuilt stop now quiet later within valid
        (List.mem_of_getLast? last)⟩
    · exact absurd (returned.symm.trans failed) (by simp)
  · intro jwks returned
    rcases publishing with ⟨after, answered, rebuilt, stop, later, within, quiet, snapshot⟩ |
      ⟨⟨err, failed⟩, _⟩
    · obtain rfl := Except.ok.inj (returned.symm.trans answered)
      exact ⟨activeKeys keys rebuilt, List.filter_sublist, snapshot.jwks,
        window_of_quiet keys rebuilt stop now quiet later within⟩
    · exact absurd (returned.symm.trans failed) (by simp)
  · intro apart valid
    have same : valid = activeKeys keys now := by
      refine List.filter_congr fun key _ => ?_
      rw [isActive, Bool.decide_and]
    have apart : now ∉ boundaries keys := by
      intro boundary
      obtain ⟨key, configured, isEnd⟩ := List.mem_flatMap.1 boundary
      obtain ⟨notOpens, notCloses⟩ := apart key configured
      simp_all
    rw [same]
    refine ⟨?_, ?_, ?_, ?_⟩
    · intro key last
      rcases signing with ⟨after, answered, answers⟩ | ⟨_, none⟩
      · obtain ⟨found, decrypted, foundLast, opened, stored⟩ :=
          (answers.snapshot decryptPEM apart).signingKey
        obtain rfl := Option.some.inj (last.symm.trans foundLast)
        exact ⟨decrypted, opened, answered.trans (congrArg _ stored)⟩
      · simp [none] at last
    · intro present
      rcases publishing with ⟨after, answered, answers⟩ | ⟨_, none⟩
      · exact answered.trans (congrArg _ (answers.snapshot decryptPEM apart).jwks)
      · exact absurd none present
    · exact afterReload_error_iff decryptPEM _ keys _ now decrypts cached apart
    · exact afterReload_error_iff decryptPEM _ keys _ now decrypts cached apart

end Rotation

/-- A key of the given name and window. -/
def sampleKey (kid : String) (notBefore notAfter : Int) : SigningKey where
  privateKey := kid
  decryptedPrivateKey := ""
  notBefore := notBefore
  notAfter := notAfter
  password := ""
  kid := kid
  publicJwk := ⟨"ES256", "P-256", kid, "EC", "sig", "", "", "", ""⟩
  privateJwk := ⟨"ES256", "P-256", "", kid, "EC", "sig", "", "", "", "", "", "", "", "", ""⟩

/-- A key is replaced while its window is still open: calls before and at the boundary do not
keep the next call from returning the new key. -/
theorem rotation_cache_exact_overlap :
    ∃ decrypted, (.ok "new" : Except String String) = .ok decrypted ∧
      ((KeyMaterialService.run (fun pem _ => .ok pem)
        [sampleKey "old" 0 100, sampleKey "new" 50 200]
        [(.getSigningKey, 10), (.getPublicWebKeys, 50)]).getSigningKey
          (fun pem _ => .ok pem) 60).1 =
          .ok (some { sampleKey "new" 50 200 with decryptedPrivateKey := decrypted }) :=
  ((rotation_cache_exact (fun pem _ => .ok pem) [sampleKey "old" 0 100, sampleKey "new" 50 200]
    (fun key _ => ⟨key.privateKey, rfl⟩) [(.getSigningKey, 10), (.getPublicWebKeys, 50)]
    (by decide) 60 (by decide)).2.2 (by decide)).1 (sampleKey "new" 50 200) (by decide)

end FluffyCore.JwtMinter
