import FluffyCore.Environ.CacheCoherence

/-!
# The environment between calls

While no call is in progress, a read of one variable and the whole map are exactly what the
environment has, provided that no read has stored a value that a write had overtaken. A read
that does so leaves a value in the map that the environment no longer has. Such a value stays:
later reads find it in the map.
-/

namespace FluffyCore.Environ

open Library.Interleaving

def Phase.isDone : Phase → Bool
  | .done _ => true
  | _ => false

/-- No call is in progress. -/
def Quiescent (config : Config EnvironmentService Phase) : Bool := config.calls.all Phase.isDone

/-- A call that is made now, and runs alone, returns, and its answer is as expected. -/
def Answers (os : Environment) (config : Config EnvironmentService Phase) (request : Request)
    (expected : Answer → Prop) : Prop :=
  (∃ choices after answer, (environSystem os).runCall config request choices = some after ∧
    after.calls[config.calls.length]? = some (.done answer)) ∧
  ∀ choices after answer, (environSystem os).runCall config request choices = some after →
    after.calls[config.calls.length]? = some (.done answer) → expected answer

/-- What the service shows is the environment. -/
structure Exact (os : Environment) (config : Config EnvironmentService Phase) : Prop where
  cached : ∀ key value, config.shared.envMap.lookup key = some value →
    config.shared.os.lookupEnv key = some value
  value : ∀ key, Answers os config (.getEnvironmentVariable key)
    (· = .value (config.shared.os.lookupEnv key))
  map : Answers os config .getEnvironmentMap
    fun answer => ∃ envMap, answer = .map envMap ∧ Exactly config.shared envMap

section Returning

variable (os : Environment) (id : Nat)

/-- A call returns when it runs alone. -/
def Returns (s : EnvironmentService) (phase : Phase) : Prop :=
  (environSystem os).Reaches id (s, phase) fun phase => ∃ answer, phase = .done answer

/-- A call that has its answer has returned. -/
theorem returns_done (s : EnvironmentService) (answer : Answer) :
    Returns os id s (.done answer) :=
  System.reaches_of_goal _ id _ _ ⟨answer, rfl⟩

/-- A call returns when it does after one more step. -/
theorem returns_of_next {s : EnvironmentService} {phase : Phase} (after : EnvironmentService)
    (next : Phase) (moved : phase.next none id s = some (after, next))
    (returns : Returns os id after next) : Returns os id s phase :=
  System.Reaches.step none moved returns

/-- A read of one variable returns, from the cache or from the environment. -/
theorem returns_load (s : EnvironmentService) (key : String) :
    Returns os id s (.load key) := by
  cases cached : s.envMap.lookup key with
  | some value =>
    exact returns_of_next os id s (.done (.value (some value))) (by simp [Phase.next, cached])
      (returns_done ..)
  | none =>
    refine returns_of_next os id s (.lookupEnv key) (by simp [Phase.next, cached]) ?_
    cases found : s.os.lookupEnv key with
    | none =>
      exact returns_of_next os id s (.done (.value none)) (by simp [Phase.next, found])
        (returns_done ..)
    | some value =>
      refine returns_of_next os id s (.store key value) (by simp [Phase.next, found]) ?_
      exact returns_of_next os id _ _ rfl (returns_done ..)

/-- The loop over the cached keys returns. -/
theorem returns_ranging (s : EnvironmentService) (mode : Mode) (remaining : List String)
    (found : Variables) : Returns os id s (.ranging mode remaining found) := by
  induction remaining generalizing found with
  | nil =>
    refine returns_of_next os id _ _ rfl ?_
    cases mode <;> exact returns_of_next os id _ _ rfl (returns_done ..)
  | cons key rest inductionHypothesis =>
    exact returns_of_next os id s (.ranging mode rest (s.collect key found))
      (by simp [Phase.next]) (inductionHypothesis _)

/-- The loop that fills the cache returns. -/
theorem returns_storing (s : EnvironmentService) (entries : List String) (envMap : Variables) :
    Returns os id s (.storing entries envMap) := by
  induction entries generalizing s envMap with
  | nil => exact returns_of_next os id _ _ rfl (returns_of_next os id _ _ rfl (returns_done ..))
  | cons env rest inductionHypothesis =>
    cases split : splitEntry env with
    | none =>
      exact returns_of_next os id s (.storing rest envMap) (by simp [Phase.next, split])
        (inductionHypothesis s envMap)
    | some pair =>
      exact returns_of_next os id { s with envMap := s.envMap.insert pair.1 pair.2 }
        (.storing rest (envMap.insert pair.1 pair.2)) (by simp [Phase.next, split])
        (inductionHypothesis _ _)

/-- A read of the map returns once the cache is filled. -/
theorem returns_getMapFromCache (s : EnvironmentService) (mode : Mode)
    (isLoaded : s.loaded = true) : Returns os id s (.getMapFromCache mode) :=
  returns_of_next os id s (.ranging mode s.envMap.keys ∅) (by simp [Phase.next, isLoaded])
    (returns_ranging ..)

/-- Filling the cache returns when the lock is free. -/
theorem returns_lock_load (s : EnvironmentService) (free : s.writer = none)
    (unread : s.readers = []) : Returns os id s (.lock .load) := by
  refine returns_of_next os id { s with writer := some id } (.getMapFromCache .exclusive)
    (by simp [Phase.next, Section.start, free, unread]) ?_
  by_cases isLoaded : s.loaded = true
  · exact returns_getMapFromCache os id _ .exclusive isLoaded
  · refine returns_of_next os id { s with writer := some id } .environ
      (by simp [Phase.next, isLoaded]) ?_
    exact returns_of_next os id _ _ rfl (returns_storing ..)

/-- The whole map is read even if it has to be loaded first. -/
theorem returns_rlock (s : EnvironmentService) (free : s.writer = none)
    (unread : s.readers = []) : Returns os id s .rlock := by
  refine returns_of_next os id { s with readers := [id] } (.getMapFromCache .shared)
    (by simp [Phase.next, free, unread]) ?_
  by_cases isLoaded : s.loaded = true
  · exact returns_getMapFromCache os id _ .shared isLoaded
  · refine returns_of_next os id { s with readers := [id] } (.runlock none)
      (by simp [Phase.next, isLoaded]) ?_
    exact returns_of_next os id { s with readers := [] } (.lock .load) (by simp [Phase.next])
      (returns_lock_load os id _ free rfl)

end Returning

/-- A call answers if its own moves reach an answer, and keep to a property that gives the
answer. -/
theorem answers_of_alone {os : Environment} {config : Config EnvironmentService Phase}
    {request : Request} {expected : Answer → Prop}
    (returns : Returns os config.calls.length config.shared request.start)
    (correct : ∀ choices after answer, (environSystem os).alone config.calls.length choices
      (config.shared, request.start) = some (after, .done answer) → expected answer) :
    Answers os config request expected := by
  constructor
  · obtain ⟨choices, after, ran, answer, isDone⟩ := returns
    refine ⟨choices, ⟨after.1, config.calls ++ [after.2]⟩, answer, ?_, by simp [isDone]⟩
    rw [System.runCall_eq]
    exact congrArg (Option.map _) ran
  · intro choices after answer ran isDone
    rw [System.runCall_eq] at ran
    obtain ⟨⟨s, phase⟩, alone, rfl⟩ := Option.map_eq_some_iff.1 ran
    obtain rfl : phase = .done answer := by simpa using isDone
    exact correct choices s answer alone

section Reading

variable (os : Environment) (id : Nat)

/-- A read that runs alone, in an environment that has all values of the map. -/
def Phase.Reading (key : String) (s : EnvironmentService) : Phase → Prop
  | .load name => name = key
  | .lookupEnv name => name = key
  | .store name value => name = key ∧ s.os.lookupEnv key = some value
  | .done answer => answer = .value (s.os.lookupEnv key)
  | _ => False

/-- Each step of a read keeps to what the environment has. -/
theorem Phase.Reading.next {key : String} {choice : Option String} {s after : EnvironmentService}
    {phase next : Phase} (reading : phase.Reading key s)
    (cached : ∀ key value, s.envMap.lookup key = some value → s.os.lookupEnv key = some value)
    (moved : phase.next choice id s = some (after, next)) :
    next.Reading key after ∧ after.os = s.os ∧
      ∀ key value, after.envMap.lookup key = some value → after.os.lookupEnv key = some value := by
  cases phase with
  | load name =>
    obtain rfl : name = key := reading
    simp only [Phase.next] at moved
    split at moved <;> obtain ⟨rfl, rfl⟩ := Prod.mk.inj (Option.some.inj moved)
    · next isCached => exact ⟨by simp [Phase.Reading, cached _ _ isCached], rfl, cached⟩
    · exact ⟨rfl, rfl, cached⟩
  | lookupEnv name =>
    obtain rfl : name = key := reading
    simp only [Phase.next] at moved
    split at moved <;> obtain ⟨rfl, rfl⟩ := Prod.mk.inj (Option.some.inj moved)
    · next found => exact ⟨⟨rfl, found⟩, rfl, cached⟩
    · next absent => exact ⟨by simp [Phase.Reading, absent], rfl, cached⟩
  | store name value =>
    obtain ⟨rfl, found⟩ := reading
    obtain ⟨rfl, rfl⟩ := Prod.mk.inj (Option.some.inj moved)
    refine ⟨by simp [Phase.Reading, found], rfl, fun other text isCached => ?_⟩
    by_cases same : other = name
    · subst same
      rw [AList.lookup_insert] at isCached
      exact found.trans isCached
    · rw [AList.lookup_insert_ne same] at isCached
      exact cached other text isCached
  | done answer => cases moved
  | _ => exact reading.elim

/-- A read of one variable gives what the environment has. -/
theorem answers_value (config : Config EnvironmentService Phase) (key : String)
    (cached : ∀ key value, config.shared.envMap.lookup key = some value →
      config.shared.os.lookupEnv key = some value) :
    Answers os config (.getEnvironmentVariable key)
      (· = .value (config.shared.os.lookupEnv key)) := by
  apply answers_of_alone
  · exact returns_load os _ config.shared key
  · intro choices after answer ran
    obtain ⟨reading, sameOs, _⟩ := System.alone_keeps (environSystem os) config.calls.length
      (fun s phase => phase.Reading key s ∧ s.os = config.shared.os ∧
        ∀ key value, s.envMap.lookup key = some value → s.os.lookupEnv key = some value)
      (fun choice s phase s' phase' => by
        rintro ⟨reading, sameOs, cached⟩ moved
        obtain ⟨next, keptOs, kept⟩ := reading.next _ cached moved
        exact ⟨next, keptOs.trans sameOs, kept⟩)
      choices (config.shared, .load key) (after, .done answer) ⟨rfl, rfl, cached⟩ ran
    rw [← sameOs]
    exact reading

end Reading

section Mapping

variable (os : Environment) (id : Nat)

/-- A read of the whole map. -/
def Phase.Mapping (s : EnvironmentService) : Phase → Prop
  | .rlock | .lock .load | .getMapFromCache _ | .ranging _ _ _ | .runlock _ | .environ
  | .storing _ _ | .unlock (some (.map _)) => True
  | .done (.map envMap) => Exactly s envMap
  | _ => False

/-- A read of the map stores no value that could be outdated. -/
theorem Phase.Mapping.current {s : EnvironmentService} {phase : Phase}
    (mapping : phase.Mapping s) : phase.current s = true := by
  cases phase with
  | store key value => exact mapping.elim
  | _ => rfl

/-- It leaves the environment alone and has the map exactly when it returns. -/
theorem Phase.Mapping.next {s after : EnvironmentService} {phase next : Phase}
    (mapping : phase.Mapping s) (conforms : Conforms id s phase)
    (moves : Moves id s phase after next) : next.Mapping after ∧ after.os = s.os := by
  have sound := conforms.sound
  cases moves with
  | lock task free unread =>
    cases task with
    | load => exact ⟨trivial, rfl⟩
    | _ => exact mapping.elim
  | answer envMap => exact ⟨sound, rfl⟩
  | unlock answer =>
    cases answer with
    | map envMap => exact ⟨sound, rfl⟩
    | _ => exact mapping.elim
  | _ => first
    | exact ⟨trivial, rfl⟩
    | exact mapping.elim

/-- While no call is in progress nobody holds the lock. -/
theorem unlocked_of_quiescent {config : Config EnvironmentService Phase}
    (holds : config.Satisfies Coherence Conforms) (quiescent : Quiescent config = true) :
    config.shared.writer = none ∧ config.shared.readers = [] := by
  obtain ⟨coherence, conforms⟩ := holds
  have idle (caller : Nat) (began : caller < config.calls.length) :
      ∃ phase, Conforms caller config.shared phase ∧ phase.holds = none := by
    have isDone := List.all_eq_true.1 quiescent _ (List.getElem_mem began)
    refine ⟨config.calls[caller], conforms caller _ (List.getElem?_eq_getElem began), ?_⟩
    generalize config.calls[caller] = phase at isDone
    cases phase <;> simp_all [Phase.isDone, Phase.holds]
  constructor
  · by_contra written
    obtain ⟨writer, isWriter⟩ := Option.ne_none_iff_exists'.1 written
    obtain ⟨phase, theirs, notHolding⟩ := idle writer (coherence.writerBegan writer isWriter)
    simp [theirs.exclusive.1 isWriter] at notHolding
  · refine List.eq_nil_iff_forall_not_mem.2 fun reader isReader => ?_
    obtain ⟨phase, theirs, notHolding⟩ := idle reader (coherence.readersBegan reader isReader)
    simp [theirs.shared.1 isReader] at notHolding

/-- A read of the whole map gives what the environment has. -/
theorem answers_map (config : Config EnvironmentService Phase)
    (holds : config.Satisfies Coherence Conforms) (quiescent : Quiescent config = true) :
    Answers os config .getEnvironmentMap
      fun answer => ∃ envMap, answer = .map envMap ∧ Exactly config.shared envMap := by
  obtain ⟨free, unread⟩ := unlocked_of_quiescent holds quiescent
  obtain ⟨grown, fresh⟩ := (environ_invariant os).begins .getEnvironmentMap _ _ holds.1
  apply answers_of_alone
  · exact returns_rlock os _ config.shared free unread
  · intro choices after answer ran
    obtain ⟨_, _, mapping, sameOs⟩ := System.alone_keeps (environSystem os) config.calls.length
      (fun s phase => Coherence (config.calls.length + 1) s ∧
        Conforms config.calls.length s phase ∧ phase.Mapping s ∧ s.os = config.shared.os)
      (fun choice s phase s' phase' => by
        rintro ⟨coherence, conforms, mapping, sameOs⟩ moved
        have moves := next_moves choice _ s s' phase phase' mapping.current moved
        obtain ⟨next, keptOs⟩ := mapping.next _ conforms moves
        exact ⟨moves.coherence (Nat.lt_succ_self _) coherence conforms,
          moves.conforms coherence conforms, next, keptOs.trans sameOs⟩)
      choices (config.shared, .rlock) (after, .done answer) ⟨grown, fresh, trivial, rfl⟩ ran
    cases answer with
    | map envMap => exact ⟨envMap, rfl, fun key => by rw [mapping key, sameOs]⟩
    | _ => exact mapping.elim

end Mapping

/-- A run in which no read stores an overtaken value is exact between calls. -/
theorem exact_of_allMeet (os : Environment)
    (schedule : List (Action Request (Option String) Empty))
    (config : Config EnvironmentService Phase)
    (ran : (environSystem os).run schedule = some config)
    (current : (environSystem os).AllMeet Phase.current schedule)
    (quiescent : Quiescent config = true) : Exact os config := by
  rw [← System.run_guarded _ _ schedule current] at ran
  have holds := (environ_invariant os).run schedule config ran
  obtain ⟨free, _⟩ := unlocked_of_quiescent holds quiescent
  have cached : ∀ key value, config.shared.envMap.lookup key = some value →
      config.shared.os.lookupEnv key = some value := by
    intro key value isCached
    simpa [holds.1.idle free] using holds.1.coherent key value isCached
  exact ⟨cached, fun key => answers_value os config key cached,
    answers_map os config holds quiescent⟩

/-- After a store of an overtaken value the map has a value that the environment has not. -/
theorem meets_of_exact (os : Environment) (config after : Config EnvironmentService Phase)
    (action : Action Request (Option String) Empty)
    (taken : (environSystem os).step config action = some after) (exact : Exact os after) :
    config.Meets Phase.current action := by
  cases action with
  | call request => trivial
  | event event => trivial
  | move id choice =>
    intro phase found
    cases phase with
    | store key value =>
      simp only [System.step, found, Option.bind_some] at taken
      obtain rfl := Option.some.inj taken
      have cached := exact.cached key value (AList.lookup_insert _)
      exact Bool.or_eq_true_iff.2 (Or.inl (decide_eq_true cached))
    | _ => rfl

/-- As long as no read has stored a value that a write had overtaken, the service shows
exactly the environment whenever no call is in progress. The first store of an overtaken value
is the end of it. -/
theorem quiescent_exact_iff (os : Environment)
    (schedule : List (Action Request (Option String) Empty))
    (config : Config EnvironmentService Phase)
    (ran : (environSystem os).run schedule = some config)
    (current : (environSystem os).AllMeet Phase.current schedule) :
    (Quiescent config = true → Exact os config) ∧
    ∀ action after, (environSystem os).step config action = some after →
      Quiescent after = true → (Exact os after ↔ config.Meets Phase.current action) := by
  refine ⟨exact_of_allMeet os schedule config ran current, ?_⟩
  intro action after taken quiescent
  refine ⟨meets_of_exact os config after action taken, fun meets => ?_⟩
  refine exact_of_allMeet os (schedule ++ [action]) after ?_ ?_ quiescent
  · rw [System.run_append_singleton, ran]
    exact taken
  · exact System.allMeet_append_singleton _ _ schedule action config ran current meets

/-- One variable. -/
def sampleEnvironment : Environment :=
  ⟨AList.singleton "MODE" "old", by
    intro key isKey
    obtain rfl : key = "MODE" := by simpa [AList.mem_keys] using isKey
    decide⟩

/-- A write and a read of one variable. The read has looked up the old value, and stores it
before the write changes the map. -/
def storeDuringWrite : List (Action Request (Option String) Empty) :=
  [.call (.getEnvironmentVariable "MODE"), .call (.setEnvironmentVariable "MODE" "new"),
    .move 0 none, .move 0 none, .move 1 none, .move 1 none, .move 0 none, .move 1 none,
    .move 1 none]

/-- The old value is overwritten by the write, so afterwards the service shows the environment. -/
theorem quiescent_exact_iff_storeDuringWrite :
    ∃ config, (environSystem sampleEnvironment).run storeDuringWrite = some config ∧
      Quiescent config = true ∧ config.shared.envMap.lookup "MODE" = some "new" ∧
      Exact sampleEnvironment config := by
  have reached : (((environSystem sampleEnvironment).guarded Phase.current).run
      storeDuringWrite).any (fun config => Quiescent config &&
        config.shared.envMap.lookup "MODE" = some "new") = true := by decide +kernel
  obtain ⟨isSome, facts⟩ := (Option.any_eq_true_iff_get _ _).1 reached
  have ran := (Option.some_get isSome).symm
  generalize Option.get _ isSome = config at ran facts
  have current := System.allMeet_of_guarded _ _ _ config ran
  rw [System.run_guarded _ _ _ current] at ran
  simp only [Bool.and_eq_true, decide_eq_true_eq] at facts
  exact ⟨config, ran, facts.1, facts.2,
    (quiescent_exact_iff sampleEnvironment _ config ran current).1 facts.1⟩

/-- The read stores the old value after the write has returned. -/
def storeAfterWrite : List (Action Request (Option String) Empty) :=
  [.call (.getEnvironmentVariable "MODE"), .call (.setEnvironmentVariable "MODE" "new"),
    .move 0 none, .move 0 none, .move 1 none, .move 1 none, .move 1 none, .move 1 none,
    .move 0 none]

/-- The overtaken value stays in the map after both calls have returned. -/
theorem not_exact_storeAfterWrite :
    ∃ config, (environSystem sampleEnvironment).run storeAfterWrite = some config ∧
      Quiescent config = true ∧ config.shared.envMap.lookup "MODE" = some "old" ∧
      config.shared.os.lookupEnv "MODE" = some "new" ∧ ¬ Exact sampleEnvironment config := by
  have reached : ((environSystem sampleEnvironment).run storeAfterWrite).any (fun config =>
      Quiescent config && config.shared.envMap.lookup "MODE" = some "old" &&
        config.shared.os.lookupEnv "MODE" = some "new") = true := by decide +kernel
  obtain ⟨isSome, facts⟩ := (Option.any_eq_true_iff_get _ _).1 reached
  have ran := (Option.some_get isSome).symm
  generalize Option.get _ isSome = config at ran facts
  simp only [Bool.and_eq_true, decide_eq_true_eq] at facts
  obtain ⟨⟨quiescent, stale⟩, written⟩ := facts
  refine ⟨config, ran, quiescent, stale, written, fun exact => ?_⟩
  have isOld := exact.cached "MODE" "old" stale
  simp [written] at isOld

end FluffyCore.Environ
