import FluffyCore.Library.Interleaving
import FluffyCore.Status
import Mathlib.Data.List.AList

/-!
# The environment service

A service caches the variables of the process environment in a concurrent map. Writers change
the environment and then the map under a lock. A read of one variable takes no lock: when the
map does not have it, the variable is looked up in the environment and stored in the map.

Every operation on the environment or on the map is one step, as is taking or giving back the
lock. A `Range` over the map visits one key per step. It visits every key that the map had at
its beginning; a key that is stored meanwhile may be visited or not.
-/

namespace FluffyCore.Environ

open Library.Interleaving

abbrev Variables := AList fun _ : String => String

/-- Names of variables are not empty and have no equals sign. -/
def ValidName (key : String) : Prop := key ≠ "" ∧ '=' ∉ key.toList

instance (key : String) : Decidable (ValidName key) :=
  inferInstanceAs (Decidable (key ≠ "" ∧ '=' ∉ key.toList))

/-- The environment of the process. -/
structure Environment where
  vars : Variables
  named : ∀ key ∈ vars, ValidName key

def Environment.lookupEnv (os : Environment) (key : String) : Option String :=
  os.vars.lookup key

/-- `os.Setenv`, which rejects a name that is not valid and texts with a null character. -/
def Environment.setenv (os : Environment) (key value : String) : Option Environment :=
  if valid : ValidName key then
    if '\x00' ∈ key.toList ∨ '\x00' ∈ value.toList then none
    else some ⟨os.vars.insert key value, fun name isName =>
      (AList.mem_insert _).1 isName |>.elim (fun same => same ▸ valid) (os.named name)⟩
  else none

def Environment.unsetenv (os : Environment) (key : String) : Environment :=
  ⟨os.vars.erase key, fun name isName => os.named name (AList.mem_erase.1 isName).2⟩

/-- `os.Environ`. -/
def Environment.environ (os : Environment) : List String :=
  os.vars.entries.map fun entry => entry.1 ++ "=" ++ entry.2

def findFirstEqual (s : String) : Option Nat := s.toList.findIdx? (· == '=')

/-- The name and the value of an entry; an entry without a name is skipped. -/
def splitEntry (env : String) : Option (String × String) :=
  (findFirstEqual env).bind fun idx =>
    if idx > 0 then
      some (String.ofList (env.toList.take idx), String.ofList (env.toList.drop (idx + 1)))
    else none

section Environment

variable {os after : Environment}

/-- Setting a variable changes that variable only. -/
theorem lookupEnv_setenv {key value : String} (isSet : os.setenv key value = some after)
    (name : String) :
    after.lookupEnv name = if name = key then some value else os.lookupEnv name := by
  unfold Environment.setenv at isSet
  split_ifs at isSet
  obtain rfl := Option.some.inj isSet
  unfold Environment.lookupEnv
  split_ifs with same
  · rw [same, AList.lookup_insert]
  · rw [AList.lookup_insert_ne same]

/-- Unsetting a variable removes that variable only. -/
theorem lookupEnv_unsetenv (os : Environment) (key name : String) :
    (os.unsetenv key).lookupEnv name = if name = key then none else os.lookupEnv name := by
  unfold Environment.unsetenv Environment.lookupEnv
  split_ifs with same
  · rw [same, AList.lookup_erase]
  · rw [AList.lookup_erase_ne same]

/-- The entries are those of the variables. -/
theorem mem_environ (os : Environment) (env : String) :
    env ∈ os.environ ↔
      ∃ key value, os.lookupEnv key = some value ∧ key ++ "=" ++ value = env := by
  unfold Environment.environ Environment.lookupEnv
  rw [List.mem_map]
  constructor
  · rintro ⟨⟨key, value⟩, isEntry, rfl⟩
    exact ⟨key, value, AList.mem_lookup_iff.2 isEntry, rfl⟩
  · rintro ⟨key, value, isValue, rfl⟩
    exact ⟨⟨key, value⟩, AList.mem_lookup_iff.1 isValue, rfl⟩

/-- Every variable of an environment has a valid name. -/
theorem validName_of_lookupEnv {key value : String} (found : os.lookupEnv key = some value) :
    ValidName key :=
  os.named key (AList.lookup_isSome.1 (Option.isSome_iff_exists.2 ⟨value, found⟩))

/-- An entry is split where the name ends, whatever the value contains. -/
theorem splitEntry_entry {key : String} (valid : ValidName key) (value : String) :
    splitEntry (key ++ "=" ++ value) = some (key, value) := by
  obtain ⟨nonempty, noEqual⟩ := valid
  have entry : (key ++ "=" ++ value).toList = key.toList ++ '=' :: value.toList := by
    simp [String.toList_append]
  have first : findFirstEqual (key ++ "=" ++ value) = some key.toList.length := by
    unfold findFirstEqual
    rw [entry, List.findIdx?_append, List.findIdx?_eq_none_iff.2]
    · simp [List.findIdx?_cons]
    · intro c isChar
      simpa using fun same : c = '=' => noEqual (same ▸ isChar)
  have named : key.toList.length > 0 := by
    rw [gt_iff_lt, List.length_pos_iff]
    simpa using nonempty
  simp [splitEntry, first, entry, named]

end Environment

/-- The fields of the service, with the environment and who holds the lock. A writer changes
the environment before the map; `writing` is the variable for which it is between the two. -/
structure EnvironmentService where
  os : Environment
  envMap : Variables := ∅
  loaded : Bool := false
  writer : Option Nat := none
  readers : List Nat := []
  writing : Option String := none

inductive Request where
  | getEnvironmentVariable (key : String)
  | setEnvironmentVariable (key value : String)
  | unsetEnvironmentVariable (key : String)
  | getEnvironmentMap
  | reloadEnvironmentMap
  | clearCache

inductive Answer where
  | value (found : Option String)
  | map (envMap : Variables)
  | finished (err : Option GoError)

/-- How the lock is held. -/
inductive Mode where
  | shared
  | exclusive
deriving DecidableEq

/-- What is done under the exclusive lock. -/
inductive Section where
  | set (key value : String)
  | unset (key : String)
  | clear (reload : Bool)
  | load

/-- Where a call is, with its local variables. -/
inductive Phase where
  | load (key : String)
  | lookupEnv (key : String)
  | store (key value : String)
  | lock (task : Section)
  | setenv (key value : String)
  | cacheSet (key value : String)
  | unsetenv (key : String)
  | cacheDelete (key : String)
  | clear (reload : Bool)
  | clearing (reload : Bool) (remaining : List String)
  | rlock
  | getMapFromCache (mode : Mode)
  | ranging (mode : Mode) (remaining : List String) (found : Variables)
  | runlock (cachedMap : Option Variables)
  | environ
  | storing (entries : List String) (envMap : Variables)
  | unlock (answer : Option Answer)
  | done (answer : Answer)

/-- The first step of each section. -/
def Section.start : Section → Phase
  | .set key value => .setenv key value
  | .unset key => .unsetenv key
  | .clear reload => .clear reload
  | .load => .getMapFromCache .exclusive

/-- The first step of each call. -/
def Request.start : Request → Phase
  | .getEnvironmentVariable key => .load key
  | .setEnvironmentVariable key value => .lock (.set key value)
  | .unsetEnvironmentVariable key => .lock (.unset key)
  | .getEnvironmentMap => .rlock
  | .reloadEnvironmentMap => .lock (.clear true)
  | .clearCache => .lock (.clear false)

/-- The pairs a `Range` has found after one more visit. -/
def EnvironmentService.collect (s : EnvironmentService) (key : String) (found : Variables) :
    Variables :=
  (s.envMap.lookup key).elim found fun value => found.insert key value

/-- One step of a call. The choice is the key that a `Range` visits out of order. -/
def Phase.next (choice : Option String) (id : Nat) (s : EnvironmentService) :
    Phase → Option (EnvironmentService × Phase)
  | .load key =>
    match s.envMap.lookup key with
    | some value => some (s, .done (.value (some value)))
    | none => some (s, .lookupEnv key)
  | .lookupEnv key =>
    match s.os.lookupEnv key with
    | some value => some (s, .store key value)
    | none => some (s, .done (.value none))
  | .store key value =>
    some ({ s with envMap := s.envMap.insert key value }, .done (.value (some value)))
  | .lock task =>
    if s.writer = none ∧ s.readers = [] then some ({ s with writer := some id }, task.start)
    else none
  | .setenv key value =>
    match s.os.setenv key value with
    | none => some (s, .unlock (some (.finished (some (.plain "setenv: invalid argument")))))
    | some os => some ({ s with os, writing := some key }, .cacheSet key value)
  | .cacheSet key value =>
    some ({ s with envMap := s.envMap.insert key value, writing := none },
      .unlock (some (.finished none)))
  | .unsetenv key =>
    some ({ s with os := s.os.unsetenv key, writing := some key }, .cacheDelete key)
  | .cacheDelete key =>
    some ({ s with envMap := s.envMap.erase key, writing := none },
      .unlock (some (.finished none)))
  | .clear reload => some ({ s with loaded := false }, .clearing reload s.envMap.keys)
  | .clearing reload remaining =>
    match choice.or remaining.head? with
    | some key =>
      some ({ s with envMap := s.envMap.erase key }, .clearing reload (remaining.erase key))
    | none => some (s, .unlock (if reload then none else some (.finished none)))
  | .rlock =>
    if s.writer = none then some ({ s with readers := id :: s.readers }, .getMapFromCache .shared)
    else none
  | .getMapFromCache mode =>
    if s.loaded then some (s, .ranging mode s.envMap.keys ∅)
    else some (s, match mode with
      | .shared => .runlock none
      | .exclusive => .environ)
  | .ranging mode remaining found =>
    match choice.or remaining.head? with
    | some key => some (s, .ranging mode (remaining.erase key) (s.collect key found))
    | none => some (s, match mode with
      | .shared => .runlock (some found)
      | .exclusive => .unlock (some (.map found)))
  | .runlock cachedMap =>
    some ({ s with readers := s.readers.erase id }, match cachedMap with
      | some envMap => .done (.map envMap)
      | none => .lock .load)
  | .environ => some (s, .storing s.os.environ ∅)
  | .storing entries envMap =>
    match entries with
    | [] => some ({ s with loaded := true }, .unlock (some (.map envMap)))
    | env :: rest =>
      match splitEntry env with
      | some (key, value) =>
        some ({ s with envMap := s.envMap.insert key value },
          .storing rest (envMap.insert key value))
      | none => some (s, .storing rest envMap)
  | .unlock answer =>
    some ({ s with writer := none }, match answer with
      | some answer => .done answer
      | none => .rlock)
  | .done _ => none

/-- Calls on one service, which starts in any environment. Only calls change it. -/
def environSystem (os : Environment) :
    System EnvironmentService Phase Request (Option String) Empty where
  initial := { os }
  begin := Request.start
  move choice id s phase := phase.next choice id s
  event event _ := event.elim

end FluffyCore.Environ
