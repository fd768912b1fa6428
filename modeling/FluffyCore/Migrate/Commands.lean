import FluffyCore.Library.DecimalText
import FluffyCore.Migrate.MongoUri
import FluffyCore.Status
import Mathlib.Algebra.Group.Nat.Defs

/-!
# The migration commands

`up`, `down` and `force` share a pre-run, which checks the settings and stores what it reads
in variables of the package, and a run, which opens a migrator and makes one call on it. The
settings come from flags and the environment through viper, which the pre-run also writes to.

The migration library and the file system are parameters. A run is described by the calls it
makes on the migrator, since these are what moves the schema of a database.
-/

namespace FluffyCore.Migrate

open Library.ByteStrings Library.DecimalText

/-- What viper resolves for the commands. An `int` has 64 bits. -/
structure Settings where
  database : Bytes
  databaseName : Bytes
  source : Bytes
  step : Bytes
  verbose : Bool
  version : Int64

/-- The variables of the package, and the settings the pre-run may override. -/
structure Variables where
  settings : Settings
  source : Bytes
  stepN : UInt64
  verbose : Bool

/-- What the commands see of the file system. -/
structure Disk where
  /-- `os.Stat` says that the folder next to the program does not exist. -/
  isNotExist : Bool
  abs : Except GoError Bytes
  readDir : Bytes → Except GoError (List Bytes)
  readFile : Bytes → Except GoError Bytes

inductive Error where
  /-- Text: `--database missing and env:DATABASE not present` -/
  | databaseMissing
  /-- Text: `strconv.ParseUint: parsing %q: %v` -/
  | invalidStep (text : Bytes) (err : NumError)
  /-- Text: `no valid migrate direction` -/
  | noDirection
  | library (err : GoError)
deriving DecidableEq

/-- An empty path stands for a folder that is missing or cannot be resolved. -/
def getDbMigratePath (disk : Disk) : Bytes :=
  if disk.isNotExist then []
  else
    match disk.abs with
    | .error _ => []
    | .ok configPath => configPath

def isMongoURI (connectionString : Bytes) : Bool :=
  (ascii "mongodb://").isPrefixOf connectionString ||
    (ascii "mongodb+srv://").isPrefixOf connectionString

/-- Put the database name into the connection string, if both are given. -/
def overrideDatabase (settings : Settings) : Settings :=
  if settings.databaseName.length = 0 then settings
  else if isMongoURI settings.database then
    { settings with
      database := fixupMongoConnectionString settings.database settings.databaseName }
  else settings

/-- Read the step count. The variable is assigned even when the text is refused. -/
def readStep (vars : Variables) : Except Error Unit × Variables :=
  let step := vars.settings.step
  if step.length > 0 then
    let parsed := parseUint (2 ^ 64) step
    let assigned := { vars with stepN := UInt64.ofNat (parsedValue (2 ^ 64) parsed) }
    match parsed with
    | .error err => (.error (.invalidStep step err), assigned)
    | .ok _ => (.ok (), assigned)
  else (.ok (), vars)

/-- Store the settings. The verbose variable is only ever switched on. -/
def readSettings (vars : Variables) : Variables :=
  let settings := overrideDatabase vars.settings
  { settings
    source := settings.source
    stepN := vars.stepN
    verbose := if settings.verbose then settings.verbose else vars.verbose }

/-- `UpPersistentPreRunE`: validate the settings and set the variables. -/
def upPersistentPreRunE (disk : Disk) (vars : Variables) : Except Error Unit × Variables :=
  if vars.settings.database.length = 0 then (.error .databaseMissing, vars)
  else
    let read := readSettings vars
    if read.source.length = 0 then
      match disk.readDir (getDbMigratePath disk) with
      | .error err => (.error (.library err), read)
      | .ok _ => readStep read
    else readStep read

/-- A `MigrateDirection` is an `int`, of which three values have a name. -/
inductive MigrateDirection where
  | migrateUp
  | migrateDown
  | migrateForce
  | other (value : Int64)
deriving DecidableEq

/-- The calls of the interface `migrator`. -/
inductive Call where
  | up
  | down
  | steps (n : Int64)
  | force (version : Int64)
deriving DecidableEq

/-- A migrator answers each call with an error or none. -/
abbrev Migrator : Type := Call → Except GoError Unit

/-- The part of the migration library that is used. -/
structure MigrateLibrary where
  new : Bytes → Bytes → Except GoError Migrator
  errNoChange : GoError

/-- Make one call. -/
def Migrator.perform (m : Migrator) (call : Call) : List Call × Except Error Unit :=
  ([call], (m call).mapError .library)

/-- Perform a direction. The unsigned count is converted to an `int`, and negated after
that. -/
def run (m : Migrator) (md : MigrateDirection) (steps : UInt64) (version : Int64) :
    List Call × Except Error Unit :=
  match md with
  | .migrateForce => Migrator.perform m (.force version)
  | .migrateUp =>
    if steps > 0 then Migrator.perform m (.steps steps.toInt64) else Migrator.perform m .up
  | .migrateDown =>
    if steps > 0 then Migrator.perform m (.steps (-steps.toInt64)) else Migrator.perform m .down
  | .other _ => ([], .error .noDirection)

/-- Print the folder of the scripts. A file that cannot be read ends the command. -/
def printScripts (disk : Disk) : Except GoError Unit := do
  let dbMigratePath := getDbMigratePath disk
  let files ← disk.readDir dbMigratePath
  files.forM fun name => do
    let _ ← disk.readFile (dbMigratePath ++ [slash] ++ name)

/-- Open the migrator, from the given source or from the local folder. -/
def openMigrator (library : MigrateLibrary) (disk : Disk) (vars : Variables) :
    Except GoError Migrator :=
  if vars.source.length > 0 then library.new vars.source vars.settings.database
  else do
    let m ← library.new (ascii "file://dbmigrate") vars.settings.database
    if vars.verbose then
      printScripts disk
    return m

/-- That there is nothing to change is not reported as a failure. -/
def withoutNoChange (library : MigrateLibrary) (result : Except Error Unit) : Except Error Unit :=
  if result = .error (.library library.errNoChange) then .ok () else result

/-- `Migrate` -/
def migrate (library : MigrateLibrary) (disk : Disk) (md : MigrateDirection)
    (vars : Variables) : List Call × Except Error Unit :=
  match openMigrator library disk vars with
  | .error err => ([], .error (.library err))
  | .ok m =>
    let (calls, result) := run m md vars.stepN vars.settings.version
    (calls, withoutNoChange library result)

/-- A command runs after its pre-run, unless that fails. -/
def command (library : MigrateLibrary) (disk : Disk) (md : MigrateDirection)
    (vars : Variables) : List Call × Except Error Unit :=
  match upPersistentPreRunE disk vars with
  | (.error err, _) => ([], .error err)
  | (.ok (), validated) => migrate library disk md validated

end FluffyCore.Migrate
