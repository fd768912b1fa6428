import FluffyCore.Environ.EnvironmentService

/-!
# Coherence of the cached environment

While no call is in progress the map has no value that the environment does not have, and it
has them all once it is loaded. This holds as long as no read stores a value that a write has
overtaken: between the lookup of a variable and the store of its value another call may have
changed the variable in the environment and in the map.
-/

namespace FluffyCore.Environ

open Library.Interleaving

/-- A read may store its value: the environment still has it, or the call that changed the
variable has yet to change it in the map. -/
def Phase.current (s : EnvironmentService) : Phase → Bool
  | .store key value => s.os.lookupEnv key = some value || s.writing = some key
  | _ => true

/-- What a move can do that stores no overtaken value. -/
inductive Moves (id : Nat) (s : EnvironmentService) : Phase → EnvironmentService → Phase → Prop
  | hit (key value : String) (cached : s.envMap.lookup key = some value) :
      Moves id s (.load key) s (.done (.value (some value)))
  | miss (key : String) : Moves id s (.load key) s (.lookupEnv key)
  | found (key value : String) : Moves id s (.lookupEnv key) s (.store key value)
  | absent (key : String) : Moves id s (.lookupEnv key) s (.done (.value none))
  | store (key value : String)
      (current : s.os.lookupEnv key = some value ∨ s.writing = some key) :
      Moves id s (.store key value) { s with envMap := s.envMap.insert key value }
        (.done (.value (some value)))
  | lock (task : Section) (free : s.writer = none) (unread : s.readers = []) :
      Moves id s (.lock task) { s with writer := some id } task.start
  | rejected (key value : String) (err : GoError) :
      Moves id s (.setenv key value) s (.unlock (some (.finished (some err))))
  | setenv (key value : String) (os : Environment) (isOs : s.os.setenv key value = some os) :
      Moves id s (.setenv key value) { s with os, writing := some key } (.cacheSet key value)
  | cacheSet (key value : String) :
      Moves id s (.cacheSet key value)
        { s with envMap := s.envMap.insert key value, writing := none }
        (.unlock (some (.finished none)))
  | unsetenv (key : String) :
      Moves id s (.unsetenv key) { s with os := s.os.unsetenv key, writing := some key }
        (.cacheDelete key)
  | cacheDelete (key : String) :
      Moves id s (.cacheDelete key) { s with envMap := s.envMap.erase key, writing := none }
        (.unlock (some (.finished none)))
  | clear (reload : Bool) :
      Moves id s (.clear reload) { s with loaded := false } (.clearing reload s.envMap.keys)
  | clearKey (reload : Bool) (remaining : List String) (key : String) :
      Moves id s (.clearing reload remaining) { s with envMap := s.envMap.erase key }
        (.clearing reload (remaining.erase key))
  | cleared (reload : Bool) (remaining : List String) :
      Moves id s (.clearing reload remaining) s
        (.unlock (if reload then none else some (.finished none)))
  | rlock (free : s.writer = none) :
      Moves id s .rlock { s with readers := id :: s.readers } (.getMapFromCache .shared)
  | loaded (mode : Mode) (isLoaded : s.loaded = true) :
      Moves id s (.getMapFromCache mode) s (.ranging mode s.envMap.keys ∅)
  | unread : Moves id s (.getMapFromCache .shared) s (.runlock none)
  | unloaded : Moves id s (.getMapFromCache .exclusive) s .environ
  | visit (mode : Mode) (remaining : List String) (found : Variables) (key : String) :
      Moves id s (.ranging mode remaining found) s
        (.ranging mode (remaining.erase key) (s.collect key found))
  | ranged (found : Variables) : Moves id s (.ranging .shared [] found) s (.runlock (some found))
  | reranged (found : Variables) :
      Moves id s (.ranging .exclusive [] found) s (.unlock (some (.map found)))
  | answer (envMap : Variables) :
      Moves id s (.runlock (some envMap)) { s with readers := s.readers.erase id }
        (.done (.map envMap))
  | retry :
      Moves id s (.runlock none) { s with readers := s.readers.erase id } (.lock .load)
  | environ : Moves id s .environ s (.storing s.os.environ ∅)
  | stored (envMap : Variables) :
      Moves id s (.storing [] envMap) { s with loaded := true } (.unlock (some (.map envMap)))
  | storeEntry (env : String) (rest : List String) (envMap : Variables) (key value : String)
      (split : splitEntry env = some (key, value)) :
      Moves id s (.storing (env :: rest) envMap) { s with envMap := s.envMap.insert key value }
        (.storing rest (envMap.insert key value))
  | skipEntry (env : String) (rest : List String) (envMap : Variables)
      (split : splitEntry env = none) :
      Moves id s (.storing (env :: rest) envMap) s (.storing rest envMap)
  | unlock (answer : Answer) :
      Moves id s (.unlock (some answer)) { s with writer := none } (.done answer)
  | reload : Moves id s (.unlock none) { s with writer := none } .rlock

/-- Every step of the program is one of these moves, if it stores no overtaken value. -/
theorem next_moves (choice : Option String) (id : Nat) (s after : EnvironmentService)
    (phase next : Phase) (current : phase.current s = true)
    (moved : phase.next choice id s = some (after, next)) : Moves id s phase after next := by
  cases phase with
  | load key =>
    simp only [Phase.next] at moved
    split at moved <;> obtain ⟨rfl, rfl⟩ := Prod.mk.inj (Option.some.inj moved)
    · next cached => exact .hit key _ cached
    · exact .miss key
  | lookupEnv key =>
    simp only [Phase.next] at moved
    split at moved <;> obtain ⟨rfl, rfl⟩ := Prod.mk.inj (Option.some.inj moved)
    · exact .found key _
    · exact .absent key
  | store key value =>
    obtain ⟨rfl, rfl⟩ := Prod.mk.inj (Option.some.inj moved)
    exact .store key value (by simpa [Phase.current] using current)
  | lock task =>
    simp only [Phase.next] at moved
    split_ifs at moved with free
    obtain ⟨rfl, rfl⟩ := Prod.mk.inj (Option.some.inj moved)
    exact .lock task free.1 free.2
  | setenv key value =>
    simp only [Phase.next] at moved
    split at moved <;> obtain ⟨rfl, rfl⟩ := Prod.mk.inj (Option.some.inj moved)
    · exact .rejected key value _
    · next isOs => exact .setenv key value _ isOs
  | cacheSet key value =>
    obtain ⟨rfl, rfl⟩ := Prod.mk.inj (Option.some.inj moved)
    exact .cacheSet key value
  | unsetenv key =>
    obtain ⟨rfl, rfl⟩ := Prod.mk.inj (Option.some.inj moved)
    exact .unsetenv key
  | cacheDelete key =>
    obtain ⟨rfl, rfl⟩ := Prod.mk.inj (Option.some.inj moved)
    exact .cacheDelete key
  | clear reload =>
    obtain ⟨rfl, rfl⟩ := Prod.mk.inj (Option.some.inj moved)
    exact .clear reload
  | clearing reload remaining =>
    simp only [Phase.next] at moved
    split at moved <;> obtain ⟨rfl, rfl⟩ := Prod.mk.inj (Option.some.inj moved)
    · exact .clearKey reload remaining _
    · exact .cleared reload remaining
  | rlock =>
    simp only [Phase.next] at moved
    split_ifs at moved with free
    obtain ⟨rfl, rfl⟩ := Prod.mk.inj (Option.some.inj moved)
    exact .rlock free
  | getMapFromCache mode =>
    simp only [Phase.next] at moved
    split_ifs at moved with isLoaded <;> obtain ⟨rfl, rfl⟩ := Prod.mk.inj (Option.some.inj moved)
    · exact .loaded mode isLoaded
    · cases mode
      · exact .unread
      · exact .unloaded
  | ranging mode remaining found =>
    simp only [Phase.next] at moved
    split at moved <;> obtain ⟨rfl, rfl⟩ := Prod.mk.inj (Option.some.inj moved)
    · exact .visit mode remaining found _
    · next noneLeft =>
      obtain rfl : remaining = [] := List.head?_eq_none_iff.1 (Option.or_eq_none_iff.1 noneLeft).2
      cases mode
      · exact .ranged found
      · exact .reranged found
  | runlock cachedMap =>
    obtain ⟨rfl, rfl⟩ := Prod.mk.inj (Option.some.inj moved)
    cases cachedMap with
    | none => exact .retry
    | some envMap => exact .answer envMap
  | environ =>
    obtain ⟨rfl, rfl⟩ := Prod.mk.inj (Option.some.inj moved)
    exact .environ
  | storing entries envMap =>
    cases entries with
    | nil =>
      obtain ⟨rfl, rfl⟩ := Prod.mk.inj (Option.some.inj moved)
      exact .stored envMap
    | cons env rest =>
      simp only [Phase.next] at moved
      split at moved <;> obtain ⟨rfl, rfl⟩ := Prod.mk.inj (Option.some.inj moved)
      · next split => exact .storeEntry env rest envMap _ _ split
      · next split => exact .skipEntry env rest envMap split
  | unlock answer =>
    obtain ⟨rfl, rfl⟩ := Prod.mk.inj (Option.some.inj moved)
    cases answer with
    | none => exact .reload
    | some answer => exact .unlock answer
  | done answer => cases moved

/-- The invariant of the service. The map and the environment agree, apart from the variable
that is being written. -/
structure Coherence (count : Nat) (s : EnvironmentService) : Prop where
  writerBegan : ∀ id, s.writer = some id → id < count
  readersBegan : ∀ id ∈ s.readers, id < count
  readersDiffer : s.readers.Nodup
  excluded : s.writer ≠ none → s.readers = []
  idle : s.writer = none → s.writing = none
  coherent : ∀ key value, s.envMap.lookup key = some value →
    s.os.lookupEnv key = some value ∨ s.writing = some key
  complete : s.loaded = true → ∀ key value, s.os.lookupEnv key = some value →
    s.envMap.lookup key = some value ∨ s.writing = some key

/-- How a call holds the lock. -/
def Phase.holds : Phase → Option Mode
  | .load _ | .lookupEnv _ | .store _ _ | .lock _ | .rlock | .done _ => none
  | .getMapFromCache mode | .ranging mode _ _ => some mode
  | .runlock _ => some .shared
  | _ => some .exclusive

/-- The variable that a call has changed in the environment and not yet in the map. -/
def Phase.writing : Phase → Option String
  | .cacheSet key _ | .cacheDelete key => some key
  | _ => none

/-- A map with exactly the variables of the environment. -/
def Exactly (s : EnvironmentService) (envMap : Variables) : Prop :=
  ∀ key, envMap.lookup key = s.os.lookupEnv key

/-- What the local variables of a call satisfy. -/
def Phase.Sound (s : EnvironmentService) : Phase → Prop
  | .cacheSet key value => s.os.lookupEnv key = some value
  | .cacheDelete key => s.os.lookupEnv key = none
  | .clearing _ _ => s.loaded = false
  | .ranging _ remaining found => s.loaded = true ∧
      (∀ key value, found.lookup key = some value → s.os.lookupEnv key = some value) ∧
      ∀ key value, s.os.lookupEnv key = some value →
        found.lookup key = some value ∨ key ∈ remaining
  | .runlock (some envMap) => Exactly s envMap
  | .storing entries envMap => (∀ env ∈ entries, env ∈ s.os.environ) ∧
      (∀ key value, envMap.lookup key = some value → s.os.lookupEnv key = some value) ∧
      ∀ key value, s.os.lookupEnv key = some value → key ++ "=" ++ value ∈ entries ∨
        envMap.lookup key = some value ∧ s.envMap.lookup key = some value
  | .unlock (some (.map envMap)) => Exactly s envMap
  | _ => True

/-- The invariant of a call. -/
structure Conforms (id : Nat) (s : EnvironmentService) (phase : Phase) : Prop where
  exclusive : s.writer = some id ↔ phase.holds = some .exclusive
  shared : id ∈ s.readers ↔ phase.holds = some .shared
  writing : phase.holds = some .exclusive → s.writing = phase.writing
  sound : phase.Sound s

/-- A call that holds the lock and is not writing sees no other that is. -/
theorem Conforms.not_writing {count id : Nat} {s : EnvironmentService} {phase : Phase}
    (conforms : Conforms id s phase) (coherence : Coherence count s)
    (holds : phase.holds ≠ none) (notMine : phase.writing = none) : s.writing = none := by
  cases isMode : phase.holds with
  | none => exact absurd isMode holds
  | some mode =>
    cases mode with
    | exclusive => exact (conforms.writing isMode).trans notMine
    | shared =>
      refine coherence.idle ?_
      by_contra written
      have isReader := conforms.shared.2 isMode
      simp [coherence.excluded written] at isReader

/-- A map that has only values of the environment, and all of them, is exact. -/
theorem exactly_of_subset {s : EnvironmentService} {envMap : Variables}
    (only : ∀ key value, envMap.lookup key = some value → s.os.lookupEnv key = some value)
    (all : ∀ key value, s.os.lookupEnv key = some value → envMap.lookup key = some value) :
    Exactly s envMap :=
  fun key => Option.ext fun value => ⟨only key value, all key value⟩

/-- A store of a value that is not overtaken keeps the invariant. -/
theorem Coherence.insert {count : Nat} {s : EnvironmentService} (coherence : Coherence count s)
    (key value : String) (current : s.os.lookupEnv key = some value ∨ s.writing = some key) :
    Coherence count { s with envMap := s.envMap.insert key value } where
  writerBegan := coherence.writerBegan
  readersBegan := coherence.readersBegan
  readersDiffer := coherence.readersDiffer
  excluded := coherence.excluded
  idle := coherence.idle
  coherent name isValue cached := by
    by_cases same : name = key
    · subst same
      obtain rfl : value = isValue := by simpa using cached
      exact current
    · rw [AList.lookup_insert_ne same] at cached
      exact coherence.coherent name isValue cached
  complete isLoaded name isValue found := by
    by_cases same : name = key
    · subst same
      refine current.imp_left fun isCurrent => ?_
      rw [AList.lookup_insert, ← isCurrent]
      exact found
    · rw [AList.lookup_insert_ne same]
      exact coherence.complete isLoaded name isValue found

/-- Giving back the shared lock keeps the invariant. -/
theorem Coherence.runlock {count : Nat} {s : EnvironmentService} (coherence : Coherence count s)
    (id : Nat) : Coherence count { s with readers := s.readers.erase id } :=
  { coherence with
    readersBegan := fun reader isReader =>
      coherence.readersBegan reader (List.mem_of_mem_erase isReader)
    readersDiffer := coherence.readersDiffer.erase id
    excluded := fun written => by simp [coherence.excluded written] }

/-- So does giving back the exclusive lock, after a write to both. -/
theorem Coherence.unlock {count : Nat} {s : EnvironmentService} (coherence : Coherence count s)
    (notWriting : s.writing = none) : Coherence count { s with writer := none } :=
  { coherence with
    writerBegan := by simp
    excluded := by simp
    idle := fun _ => notWriting }

/-- A write begins in the environment, which then differs from the map in one variable. -/
theorem Coherence.writeEnvironment {count : Nat} {s : EnvironmentService}
    (coherence : Coherence count s) (written : s.writer ≠ none) (notWriting : s.writing = none)
    (key : String) (os : Environment)
    (others : ∀ name, name ≠ key → os.lookupEnv name = s.os.lookupEnv name) :
    Coherence count { s with os, writing := some key } := by
  refine { coherence with
    idle := fun free => absurd free written, coherent := ?_, complete := ?_ }
  · intro name value cached
    by_cases same : name = key
    · exact Or.inr (congrArg some same.symm)
    · have before := coherence.coherent name value cached
      rw [notWriting] at before
      exact Or.inl ((others name same).trans (before.resolve_right (by simp)))
  · intro isLoaded name value found
    by_cases same : name = key
    · exact Or.inr (congrArg some same.symm)
    · rw [others name same] at found
      have before := coherence.complete isLoaded name value found
      rw [notWriting] at before
      exact before.imp_right (by simp)

/-- It ends in the map, which then agrees with the environment again. -/
theorem Coherence.writeMap {count : Nat} {s : EnvironmentService} (coherence : Coherence count s)
    (key : String) (isWriting : s.writing = some key) (envMap : Variables)
    (agrees : envMap.lookup key = s.os.lookupEnv key)
    (others : ∀ name, name ≠ key → envMap.lookup name = s.envMap.lookup name) :
    Coherence count { s with envMap, writing := none } := by
  have notOther : ∀ name, name ≠ key → s.writing ≠ some name := by
    intro name different isName
    exact different (Option.some.inj (isName.symm.trans isWriting))
  refine { coherence with idle := fun _ => rfl, coherent := ?_, complete := ?_ }
  · intro name value cached
    by_cases same : name = key
    · rw [same, agrees] at cached
      exact Or.inl (same ▸ cached)
    · rw [others name same] at cached
      exact Or.inl ((coherence.coherent name value cached).resolve_right (notOther name same))
  · intro isLoaded name value found
    by_cases same : name = key
    · rw [same] at found ⊢
      exact Or.inl (agrees.trans found)
    · refine Or.inl ((others name same).trans ?_)
      exact (coherence.complete isLoaded name value found).resolve_right (notOther name same)

/-- An entry that is stored is of a variable of the environment. -/
theorem lookupEnv_of_entry {os : Environment} {env key value : String} (isEntry : env ∈ os.environ)
    (split : splitEntry env = some (key, value)) :
    os.lookupEnv key = some value ∧ key ++ "=" ++ value = env := by
  obtain ⟨name, text, found, rfl⟩ := (mem_environ os env).1 isEntry
  rw [splitEntry_entry (validName_of_lookupEnv found)] at split
  obtain ⟨rfl, rfl⟩ := Prod.mk.inj (Option.some.inj split)
  exact ⟨found, rfl⟩

/-- A move keeps the invariant of the service. -/
theorem Moves.coherence {count id : Nat} {s after : EnvironmentService} {phase next : Phase}
    (moves : Moves id s phase after next) (began : id < count) (coherence : Coherence count s)
    (conforms : Conforms id s phase) : Coherence count after := by
  cases moves with
  | store key value current => exact coherence.insert key value current
  | storeEntry env rest envMap key value split =>
    exact coherence.insert key value
      (Or.inl (lookupEnv_of_entry (conforms.sound.1 env List.mem_cons_self) split).1)
  | lock task free unread =>
    exact { coherence with
      writerBegan := fun writer isWriter => Option.some.inj isWriter ▸ began
      excluded := fun _ => unread
      idle := by simp }
  | setenv key value os isOs =>
    have written : s.writer = some id := conforms.exclusive.2 rfl
    refine coherence.writeEnvironment (by simp [written]) (conforms.writing rfl) key os ?_
    exact fun name different => (lookupEnv_setenv isOs name).trans (if_neg different)
  | cacheSet key value =>
    have written : s.os.lookupEnv key = some value := conforms.sound
    refine coherence.writeMap key (conforms.writing rfl) _ ?_ ?_
    · rw [AList.lookup_insert, written]
    · exact fun name different => AList.lookup_insert_ne different
  | unsetenv key =>
    have written : s.writer = some id := conforms.exclusive.2 rfl
    refine coherence.writeEnvironment (by simp [written]) (conforms.writing rfl) key _ ?_
    exact fun name different => (lookupEnv_unsetenv s.os key name).trans (if_neg different)
  | cacheDelete key =>
    have absent : s.os.lookupEnv key = none := conforms.sound
    refine coherence.writeMap key (conforms.writing rfl) _ ?_ ?_
    · rw [AList.lookup_erase, absent]
    · exact fun name different => AList.lookup_erase_ne different
  | clear reload => exact { coherence with complete := by simp }
  | clearKey reload remaining key =>
    have unloaded : s.loaded = false := conforms.sound
    refine { coherence with coherent := ?_, complete := by simp [unloaded] }
    intro name isValue cached
    have different : name ≠ key := by
      rintro rfl
      simp at cached
    rw [AList.lookup_erase_ne different] at cached
    exact coherence.coherent name isValue cached
  | rlock free =>
    have notReader : id ∉ s.readers := by simp [conforms.shared, Phase.holds]
    exact { coherence with
      readersBegan := List.forall_mem_cons.2 ⟨began, coherence.readersBegan⟩
      readersDiffer := List.nodup_cons.2 ⟨notReader, coherence.readersDiffer⟩
      excluded := fun written => absurd free written }
  | answer envMap => exact coherence.runlock id
  | retry => exact coherence.runlock id
  | stored envMap =>
    refine { coherence with complete := ?_ }
    intro _ name isValue found
    have all := conforms.sound.2.2 name isValue found
    simp at all
    exact Or.inl all.2
  | unlock answer => exact coherence.unlock (conforms.writing rfl)
  | reload => exact coherence.unlock (conforms.writing rfl)
  | _ => exact coherence

/-- A critical section starts with the lock held exclusively. -/
@[simp]
theorem holds_start (task : Section) : task.start.holds = some .exclusive := by
  cases task <;> rfl

/-- A critical section starts without having written. -/
@[simp]
theorem writing_start (task : Section) : task.start.writing = none := by
  cases task <;> rfl

/-- A visited key is found with its value, and nothing else is. -/
theorem lookup_collect (s : EnvironmentService) (key name : String) (found : Variables) :
    (s.collect key found).lookup name =
      if name = key then (s.envMap.lookup key).or (found.lookup key) else found.lookup name := by
  unfold EnvironmentService.collect
  cases cached : s.envMap.lookup key with
  | none =>
    split_ifs with same
    · subst same
      rfl
    · rfl
  | some value =>
    split_ifs with same
    · subst same
      exact AList.lookup_insert _
    · exact AList.lookup_insert_ne same

/-- The local variables of a call satisfy their invariant after its own move. -/
theorem Moves.sound {count id : Nat} {s after : EnvironmentService} {phase next : Phase}
    (moves : Moves id s phase after next) (coherence : Coherence count s)
    (conforms : Conforms id s phase) : next.Sound after := by
  have sound := conforms.sound
  have notWriting := conforms.not_writing coherence
  cases moves with
  | lock task free unread => cases task <;> trivial
  | setenv key value os isOs => simp [Phase.Sound, lookupEnv_setenv isOs]
  | unsetenv key => simp [Phase.Sound, lookupEnv_unsetenv]
  | clear reload => rfl
  | clearKey reload remaining key => exact sound
  | cleared reload remaining => cases reload <;> trivial
  | loaded mode isLoaded =>
    refine ⟨isLoaded, by simp, ?_⟩
    intro key value found
    have all := coherence.complete isLoaded key value found
    rw [notWriting (by simp [Phase.holds]) rfl] at all
    simp at all
    exact Or.inr (AList.mem_keys.1 (AList.lookup_isSome.1 (by simp [all])))
  | visit mode remaining found key =>
    obtain ⟨isLoaded, only, all⟩ := sound
    have idle := notWriting (by simp [Phase.holds]) rfl
    refine ⟨isLoaded, ?_, ?_⟩
    · intro name value isFound
      rw [lookup_collect] at isFound
      split_ifs at isFound with same
      · subst same
        rcases Option.or_eq_some_iff.1 isFound with cached | ⟨_, before⟩
        · simpa [idle] using coherence.coherent name value cached
        · exact only name value before
      · exact only name value isFound
    · intro name value isValue
      rw [lookup_collect]
      split_ifs with same
      · subst same
        have cached : s.envMap.lookup name = some value := by
          simpa [idle] using coherence.complete isLoaded name value isValue
        simp [cached]
      · exact (all name value isValue).imp_right (List.mem_erase_of_ne same).2
  | ranged found =>
    obtain ⟨_, only, all⟩ := sound
    exact exactly_of_subset only fun key value isValue => by simpa using all key value isValue
  | reranged found =>
    obtain ⟨_, only, all⟩ := sound
    exact exactly_of_subset only fun key value isValue => by simpa using all key value isValue
  | environ =>
    refine ⟨fun env isEntry => isEntry, by simp, ?_⟩
    exact fun key value isValue => Or.inl ((mem_environ _ _).2 ⟨key, value, isValue, rfl⟩)
  | stored envMap =>
    obtain ⟨_, only, all⟩ := sound
    refine exactly_of_subset only fun key value isValue => ?_
    exact ((all key value isValue).resolve_left (by simp)).1
  | storeEntry env rest envMap key value split =>
    obtain ⟨entries, only, all⟩ := sound
    obtain ⟨isValue, isEntry⟩ := lookupEnv_of_entry (entries env List.mem_cons_self) split
    refine ⟨fun other isOther => entries other (List.mem_cons_of_mem _ isOther), ?_, ?_⟩
    · intro name text isFound
      by_cases same : name = key
      · subst same
        rw [AList.lookup_insert] at isFound
        exact isValue.trans isFound
      · rw [AList.lookup_insert_ne same] at isFound
        exact only name text isFound
    · intro name text isText
      by_cases same : name = key
      · subst same
        rw [AList.lookup_insert, AList.lookup_insert, ← isValue]
        exact Or.inr ⟨isText, isText⟩
      · rw [AList.lookup_insert_ne same, AList.lookup_insert_ne same]
        refine (all name text isText).imp_left fun isMember => ?_
        refine (List.mem_cons.1 isMember).resolve_left fun isHead => same ?_
        have headName : some (name, text) = some (key, value) := by
          rw [← split, ← isHead, splitEntry_entry (validName_of_lookupEnv isText)]
        exact (Prod.mk.inj (Option.some.inj headName)).1
  | skipEntry env rest envMap split =>
    obtain ⟨entries, only, all⟩ := sound
    obtain ⟨key, value, isValue, rfl⟩ := (mem_environ _ _).1 (entries env List.mem_cons_self)
    rw [splitEntry_entry (validName_of_lookupEnv isValue)] at split
    cases split
  | _ => trivial

/-- A call conforms to its invariant after its own move. -/
theorem Moves.conforms {count id : Nat} {s after : EnvironmentService} {phase next : Phase}
    (moves : Moves id s phase after next) (coherence : Coherence count s)
    (conforms : Conforms id s phase) : Conforms id after next := by
  have sound := moves.sound coherence conforms
  have left : id ∉ s.readers.erase id := coherence.readersDiffer.not_mem_erase
  obtain ⟨exclusive, shared, writing, _⟩ := conforms
  have notWriting := coherence.idle
  cases moves with
  | lock task free unread =>
    exact ⟨by simp, by simp [unread], fun _ => by simp [notWriting free], sound⟩
  | _ => refine ⟨?_, ?_, ?_, sound⟩ <;> simp_all [Phase.holds, Phase.writing]

/-- What is left alone by a call that does not hold the exclusive lock. -/
structure Undisturbed (s after : EnvironmentService) : Prop where
  os : after.os = s.os
  loaded : after.loaded = s.loaded
  writing : after.writing = s.writing
  kept : ∀ key value, s.writing = none → s.os.lookupEnv key = some value →
    s.envMap.lookup key = some value → after.envMap.lookup key = some value

/-- Without the exclusive lock only a store of a current value changes the map. -/
theorem Moves.undisturbed {id : Nat} {s after : EnvironmentService} {phase next : Phase}
    (moves : Moves id s phase after next) (notExclusive : phase.holds ≠ some .exclusive) :
    Undisturbed s after := by
  cases moves with
  | store key value current =>
    refine ⟨rfl, rfl, rfl, fun name text idle isText cached => ?_⟩
    by_cases same : name = key
    · subst same
      rw [AList.lookup_insert, ← isText]
      exact (current.resolve_right (by simp [idle])).symm
    · rwa [AList.lookup_insert_ne same]
  | _ => first
    | exact ⟨rfl, rfl, rfl, fun _ _ _ _ cached => cached⟩
    | exact absurd rfl notExclusive

/-- The lock of another call is left alone. -/
theorem Moves.locks {id other : Nat} {s after : EnvironmentService} {phase next : Phase}
    (moves : Moves id s phase after next) (conforms : Conforms id s phase)
    (different : other ≠ id) :
    (after.writer = some other ↔ s.writer = some other) ∧
      (other ∈ after.readers ↔ other ∈ s.readers) := by
  have exclusive := conforms.exclusive
  cases moves <;> simp_all [Phase.holds, List.mem_erase_of_ne, Ne.symm different]

/-- The local variables of a call that holds the lock satisfy their invariant while others
move. -/
theorem Phase.Sound.undisturbed {s after : EnvironmentService} {phase : Phase}
    (sound : phase.Sound s) (undisturbed : Undisturbed s after)
    (notWriting : phase.writing = none → s.writing = none) : phase.Sound after := by
  obtain ⟨sameOs, sameLoaded, _, kept⟩ := undisturbed
  cases phase with
  | cacheSet key value => rwa [Phase.Sound, sameOs]
  | cacheDelete key => rwa [Phase.Sound, sameOs]
  | clearing reload remaining => rwa [Phase.Sound, sameLoaded]
  | ranging mode remaining found => rwa [Phase.Sound, sameOs, sameLoaded]
  | runlock cachedMap =>
    cases cachedMap with
    | none => trivial
    | some envMap => rwa [Phase.Sound, Exactly, sameOs]
  | storing entries envMap =>
    obtain ⟨isEntries, only, all⟩ := sound
    rw [Phase.Sound, sameOs]
    refine ⟨isEntries, only, fun key value isValue => ?_⟩
    exact (all key value isValue).imp_right fun ⟨mapped, cached⟩ =>
      ⟨mapped, kept key value (notWriting rfl) isValue cached⟩
  | unlock answer =>
    cases answer with
    | none => trivial
    | some answer =>
      cases answer with
      | map envMap => rwa [Phase.Sound, Exactly, sameOs]
      | _ => trivial
  | _ => trivial

/-- A call without the lock has nothing to satisfy. -/
theorem sound_of_not_holding {s : EnvironmentService} {phase : Phase}
    (notHolding : phase.holds = none) : phase.Sound s := by
  cases phase <;> trivial

/-- While another call holds the lock, a call does not hold it exclusively. -/
theorem Conforms.not_exclusive {count id other : Nat} {s : EnvironmentService}
    {phase bystander : Phase} (conforms : Conforms id s phase) (coherence : Coherence count s)
    (theirs : Conforms other s bystander) (different : other ≠ id)
    (holding : bystander.holds ≠ none) : phase.holds ≠ some .exclusive := by
  intro mine
  have isWriter := conforms.exclusive.2 mine
  have unread : s.readers = [] := coherence.excluded (by simp [isWriter])
  cases isMode : bystander.holds with
  | none => exact holding isMode
  | some mode =>
    cases mode with
    | shared => simpa [unread] using theirs.shared.2 isMode
    | exclusive =>
      exact different (Option.some.inj ((theirs.exclusive.2 isMode).symm.trans isWriter))

/-- A call conforms to its invariant after a move of another. -/
theorem Moves.interferes {count id other : Nat} {s after : EnvironmentService}
    {phase next bystander : Phase} (moves : Moves id s phase after next)
    (different : other ≠ id) (coherence : Coherence count s) (conforms : Conforms id s phase)
    (theirs : Conforms other s bystander) : Conforms other after bystander := by
  obtain ⟨sameWriter, sameReader⟩ := moves.locks conforms different
  refine ⟨sameWriter.trans theirs.exclusive, sameReader.trans theirs.shared, ?_, ?_⟩
  · intro isExclusive
    have notMine := conforms.not_exclusive coherence theirs different (by simp [isExclusive])
    exact (moves.undisturbed notMine).writing.trans (theirs.writing isExclusive)
  · by_cases holding : bystander.holds = none
    · exact sound_of_not_holding holding
    · have notMine := conforms.not_exclusive coherence theirs different holding
      exact theirs.sound.undisturbed (moves.undisturbed notMine)
        (theirs.not_writing coherence holding)

/-- A step of the system, restricted to calls that see current values, is one of the moves. -/
theorem guarded_moves {os : Environment} {choice : Option String} {id : Nat}
    {s after : EnvironmentService} {phase next : Phase}
    (moved : ((environSystem os).guarded Phase.current).move choice id s phase =
      some (after, next)) : Moves id s phase after next := by
  simp only [System.guarded] at moved
  split_ifs at moved with current
  exact next_moves choice id s after phase next current moved

/-- Both invariants hold in every schedule without overtaken values. -/
theorem environ_invariant (os : Environment) :
    ((environSystem os).guarded Phase.current).Invariant Coherence Conforms where
  initially := by constructor <;> simp [System.guarded, environSystem]
  begins request count s coherence := by
    constructor
    · exact { coherence with
        writerBegan := fun id isWriter => Nat.lt_succ_of_lt (coherence.writerBegan id isWriter)
        readersBegan := fun id isReader => Nat.lt_succ_of_lt (coherence.readersBegan id isReader) }
    · have holdsNone : request.start.holds = none := by cases request <;> rfl
      have notWriter : s.writer ≠ some count := fun isWriter =>
        Nat.lt_irrefl count (coherence.writerBegan count isWriter)
      have notReader : count ∉ s.readers := fun isReader =>
        Nat.lt_irrefl count (coherence.readersBegan count isReader)
      constructor
      case exclusive => simp [System.guarded, environSystem, holdsNone, notWriter]
      case shared => simp [System.guarded, environSystem, holdsNone, notReader]
      case writing => simp [System.guarded, environSystem, holdsNone]
      case sound => exact sound_of_not_holding holdsNone
  moves choice count id s phase after next began coherence conforms moved := by
    have moves := guarded_moves moved
    exact ⟨moves.coherence began coherence conforms, moves.conforms coherence conforms⟩
  interferes choice count id s phase after next other bystander different coherence conforms
      theirs moved := (guarded_moves moved).interferes different coherence conforms theirs
  events event := event.elim

end FluffyCore.Environ
