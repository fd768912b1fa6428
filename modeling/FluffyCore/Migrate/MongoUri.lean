import FluffyCore.Library.ByteStrings

/-!
# The database of a MongoDB connection string

The migration commands set the database path of a connection string by cutting it at the
first `?`, at the last `@` before that, and at the first `/` behind that. The separators
may stand elsewhere too: userinfo may hold `/` and `@`, the options anything. The parts of
a well-formed URI are therefore described apart from their text, and the function is shown
to change the path and nothing else.
-/

namespace FluffyCore.Migrate

open Library.ByteStrings

/-- The byte `?`. -/
def questionMark : UInt8 := 63

/-- The byte `@`. -/
def atSign : UInt8 := 64

/-- The byte `/`. -/
def slash : UInt8 := 47

/-- The schemes in the order they are tried. -/
def schemes : List Bytes := [ascii "mongodb+srv://", ascii "mongodb://"]

/-- The first scheme the string starts with, or the empty string. -/
def schemeOf (connectionString : Bytes) : Bytes :=
  (schemes.find? fun s => s.isPrefixOf connectionString).getD []

/-- Cut off the options with their question mark. -/
def splitQuery (rest : Bytes) : Bytes × Bytes :=
  match rest.idxOf? questionMark with
  | some i => (rest.take i, rest.drop i)
  | none => (rest, [])

/-- Where the hosts start: behind the last `@`, or at the front. -/
def hostsStart (rest : Bytes) : Nat :=
  match lastIdxOf? atSign rest with
  | some i => i + 1
  | none => 0

/-- Userinfo and hosts: everything up to the first slash behind the userinfo. -/
def authorityOf (rest : Bytes) : Bytes :=
  match (rest.drop (hostsStart rest)).idxOf? slash with
  | some i => rest.take (hostsStart rest + i)
  | none => rest

/-- Replace the database path of a connection string. A string of neither scheme is
returned as it is. -/
def fixupMongoConnectionString (connectionString databaseName : Bytes) : Bytes :=
  let scheme := schemeOf connectionString
  if scheme = [] then connectionString
  else
    let (rest, query) := splitQuery (connectionString.drop scheme.length)
    scheme ++ authorityOf rest ++ [slash] ++ databaseName ++ query

inductive Scheme where
  | mongodb
  | mongodbSrv
deriving DecidableEq

def Scheme.text : Scheme → Bytes
  | .mongodb => ascii "mongodb://"
  | .mongodbSrv => ascii "mongodb+srv://"

/-- The parts of a connection string, each free of the separators that would end it
early. Userinfo may hold slashes and at signs, the options anything. -/
structure MongoUri where
  scheme : Scheme
  userinfo : Option Bytes
  hosts : Bytes
  path : Option Bytes
  options : Option Bytes
  userinfo_closed : ∀ part ∈ userinfo, questionMark ∉ part
  hosts_nonempty : hosts ≠ []
  hosts_closed : slash ∉ hosts ∧ questionMark ∉ hosts ∧ atSign ∉ hosts
  path_closed : ∀ part ∈ path, questionMark ∉ part ∧ atSign ∉ part

namespace MongoUri

/-- Userinfo with the sign that ends it. -/
def userinfoPart (uri : MongoUri) : Bytes :=
  match uri.userinfo with
  | some part => part ++ [atSign]
  | none => []

/-- The path with the slash that starts it. -/
def pathPart (uri : MongoUri) : Bytes :=
  match uri.path with
  | some part => slash :: part
  | none => []

/-- The options with the question mark that starts them. -/
def optionsPart (uri : MongoUri) : Bytes :=
  match uri.options with
  | some part => questionMark :: part
  | none => []

/-- The connection string. -/
def text (uri : MongoUri) : Bytes :=
  uri.scheme.text ++ uri.userinfoPart ++ uri.hosts ++ uri.pathPart ++ uri.optionsPart

/-- The same URI under another database. -/
def withDatabase (uri : MongoUri) (name : Bytes)
    (closed : questionMark ∉ name ∧ atSign ∉ name) : MongoUri :=
  { uri with
    path := some name
    path_closed := fun part chosen => by
      rw [Option.mem_some_iff] at chosen
      exact chosen ▸ closed }

/-- Everything between the scheme and the options. -/
def middle (uri : MongoUri) : Bytes := uri.userinfoPart ++ (uri.hosts ++ uri.pathPart)

/-- Only the options hold a question mark. -/
theorem questionMark_notMem_middle (uri : MongoUri) : questionMark ∉ uri.middle := by
  simp only [middle, List.mem_append, not_or]
  refine ⟨?_, uri.hosts_closed.2.1, ?_⟩
  · cases given : uri.userinfo with
    | none => simp [userinfoPart, given]
    | some part =>
      have closed := uri.userinfo_closed part (by simp [given])
      have apart : questionMark ≠ atSign := by decide
      simp [userinfoPart, given, closed, apart]
  · cases given : uri.path with
    | none => simp [pathPart, given]
    | some part =>
      have closed := (uri.path_closed part (by simp [given])).1
      have apart : questionMark ≠ slash := by decide
      simp [pathPart, given, closed, apart]

/-- No at sign stands behind the userinfo and before the options. -/
theorem atSign_notMem_hostsPath (uri : MongoUri) : atSign ∉ uri.hosts ++ uri.pathPart := by
  simp only [List.mem_append, not_or]
  refine ⟨uri.hosts_closed.2.2, ?_⟩
  cases given : uri.path with
  | none => simp [pathPart, given]
  | some part =>
    have closed := (uri.path_closed part (by simp [given])).2
    have apart : atSign ≠ slash := by decide
    simp [pathPart, given, closed, apart]

/-- The options are cut off at the first question mark. -/
theorem splitQuery_text (uri : MongoUri) :
    splitQuery (uri.middle ++ uri.optionsPart) = (uri.middle, uri.optionsPart) := by
  have absent := uri.questionMark_notMem_middle
  cases given : uri.options with
  | none =>
    have missing : uri.middle.idxOf? questionMark = none := by
      rw [List.idxOf?_eq_none_iff]
      exact absent
    simp [splitQuery, optionsPart, given, missing]
  | some part =>
    have found := idxOf?_append_cons questionMark uri.middle part absent
    simp [splitQuery, optionsPart, given, found]

/-- The hosts start right behind the userinfo, whatever at signs that holds. -/
theorem hostsStart_middle (uri : MongoUri) :
    hostsStart uri.middle = uri.userinfoPart.length := by
  have absent := uri.atSign_notMem_hostsPath
  cases given : uri.userinfo with
  | none =>
    have missing := lastIdxOf?_of_notMem atSign _ absent
    simp [hostsStart, middle, userinfoPart, given, missing]
  | some part =>
    have found := lastIdxOf?_append_cons atSign part (uri.hosts ++ uri.pathPart) absent
    simp [hostsStart, middle, userinfoPart, given, found]

/-- The authority is the userinfo and the hosts: the path starts at the first slash
behind the userinfo. -/
theorem authorityOf_middle (uri : MongoUri) :
    authorityOf uri.middle = uri.userinfoPart ++ uri.hosts := by
  have behind : uri.middle.drop (hostsStart uri.middle) = uri.hosts ++ uri.pathPart := by
    rw [hostsStart_middle, middle, List.drop_left]
  rw [authorityOf, behind, hostsStart_middle]
  cases given : uri.path with
  | none =>
    have missing : uri.hosts.idxOf? slash = none := by
      rw [List.idxOf?_eq_none_iff]
      exact uri.hosts_closed.1
    simp [pathPart, given, missing, middle]
  | some part =>
    have found := idxOf?_append_cons slash uri.hosts part uri.hosts_closed.1
    have regrouped : uri.middle = (uri.userinfoPart ++ uri.hosts) ++ slash :: part := by
      simp [middle, pathPart, given]
    simp only [pathPart, given, found]
    rw [regrouped, List.take_left' List.length_append]

/-- The scheme is recognised: neither one is a proper prefix of the other. -/
theorem schemeOf_append (scheme : Scheme) (rest : Bytes) :
    schemeOf (scheme.text ++ rest) = scheme.text := by
  cases scheme with
  | mongodb =>
    have other : (ascii "mongodb+srv://").isPrefixOf (ascii "mongodb://" ++ rest) = false := by
      rfl
    have own : (ascii "mongodb://").isPrefixOf (ascii "mongodb://" ++ rest) = true := by
      simp [List.isPrefixOf_iff_prefix]
    simp [schemeOf, schemes, Scheme.text, other, own]
  | mongodbSrv =>
    have own : (ascii "mongodb+srv://").isPrefixOf (ascii "mongodb+srv://" ++ rest) = true := by
      simp [List.isPrefixOf_iff_prefix]
    simp [schemeOf, schemes, Scheme.text, own]

/-- A scheme is never the empty string. -/
theorem scheme_nonempty (scheme : Scheme) : scheme.text ≠ [] := by
  cases scheme <;> decide

/-- Setting the database keeps the scheme, the userinfo, the hosts and the options. -/
theorem fixup_text (uri : MongoUri) (databaseName : Bytes) :
    fixupMongoConnectionString uri.text databaseName =
      uri.scheme.text ++ uri.userinfoPart ++ uri.hosts ++ [slash] ++ databaseName ++
        uri.optionsPart := by
  have shape : uri.text = uri.scheme.text ++ (uri.middle ++ uri.optionsPart) := by
    simp [text, middle]
  simp only [fixupMongoConnectionString, shape, schemeOf_append, scheme_nonempty, if_false,
    List.drop_left, splitQuery_text, authorityOf_middle, List.append_assoc]

/-- Setting the database gives a well-formed URI again when the name is free of the two
separators the function looks for first. -/
theorem fixup_withDatabase (uri : MongoUri) (name : Bytes)
    (closed : questionMark ∉ name ∧ atSign ∉ name) :
    fixupMongoConnectionString uri.text name = (uri.withDatabase name closed).text := by
  rw [fixup_text]
  simp [text, withDatabase, userinfoPart, pathPart, optionsPart]

/-- The last database set is the one that stays: the parts of the URI that the function
copies do not depend on the path it replaces. -/
theorem fixup_fixup (uri : MongoUri) (first second : Bytes)
    (closed : questionMark ∉ first ∧ atSign ∉ first) :
    fixupMongoConnectionString (fixupMongoConnectionString uri.text first) second =
      fixupMongoConnectionString uri.text second := by
  rw [fixup_withDatabase uri first closed, fixup_text, fixup_text]
  simp only [withDatabase, userinfoPart, optionsPart]

end MongoUri

/-- Setting the database of a connection string is structural: the result is the string
with its path replaced and every other part kept byte for byte. A database set later
overrides one set before, and setting the same one twice is setting it once. -/
theorem fixupMongoConnectionString_structural (uri : MongoUri) :
    (∀ databaseName : Bytes, fixupMongoConnectionString uri.text databaseName =
      uri.scheme.text ++ uri.userinfoPart ++ uri.hosts ++ [slash] ++ databaseName ++
        uri.optionsPart) ∧
    (∀ first second : Bytes, questionMark ∉ first → atSign ∉ first → questionMark ∉ second →
      atSign ∉ second →
      fixupMongoConnectionString (fixupMongoConnectionString uri.text first) second =
        fixupMongoConnectionString uri.text second) ∧
    (∀ first : Bytes, questionMark ∉ first → atSign ∉ first →
      fixupMongoConnectionString (fixupMongoConnectionString uri.text first) first =
        fixupMongoConnectionString uri.text first) := by
  refine ⟨uri.fixup_text, ?_, ?_⟩
  · intro first second noQuestion noAt _ _
    exact uri.fixup_fixup first second ⟨noQuestion, noAt⟩
  · intro first noQuestion noAt
    exact uri.fixup_fixup first first ⟨noQuestion, noAt⟩

/-- A connection string whose password and options hold the separators themselves. -/
def crowdedUri : MongoUri where
  scheme := .mongodbSrv
  userinfo := some (ascii "user:p@ss/1234")
  hosts := ascii "h1:27017,h2"
  path := some (ascii "old/db")
  options := some (ascii "authSource=a/b@c?d")
  userinfo_closed := by
    intro part chosen
    rw [Option.mem_some_iff] at chosen
    rw [← chosen]
    decide
  hosts_nonempty := by decide
  hosts_closed := by decide
  path_closed := by
    intro part chosen
    rw [Option.mem_some_iff] at chosen
    rw [← chosen]
    decide

/-- The second database name takes the place of the first, although the password and the options
hold the separators. -/
theorem fixupMongoConnectionString_crowded :
    fixupMongoConnectionString
        (fixupMongoConnectionString crowdedUri.text (ascii "test")) (ascii "live") =
      ascii "mongodb+srv://user:p@ss/1234@h1:27017,h2/live?authSource=a/b@c?d" := by
  obtain ⟨written, overrides, _⟩ := fixupMongoConnectionString_structural crowdedUri
  rw [overrides (ascii "test") (ascii "live") (by decide) (by decide) (by decide) (by decide),
    written]
  decide

end FluffyCore.Migrate
