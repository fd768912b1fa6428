import FluffyCore.Library.ByteStrings
import FluffyCore.Library.Placeholders

/-!
# Template expansion

`CurlyBraceReplaceStrings` and `ReplaceEnv` replace the placeholders of a text one name
after the other, in whatever order Go iterates over the map of values. The text that is
meant has the values at the placeholders of the original, and what a value spells is left
as it is. The loops give that text in every order exactly when the names are kept apart.
-/

namespace FluffyCore.Utils

open Library.ByteStrings Library.MapLoop Library.Placeholders Library.Replacement

/-- `fmt.Sprintf` with one argument, for a format whose only verb is a single `%s`. -/
def sprintf (format arg : Bytes) : Bytes := replaceAll (ascii "%s") arg format

/-- Replace the placeholders of the keys in the order the map is iterated in. A nil map
has no keys. -/
def curlyBraceReplaceStrings (original : Bytes) (replace : FiniteMap Bytes Bytes)
    (order : List Bytes) : Bytes :=
  order.foldl
    (fun original k =>
      replaceAll (sprintf (ascii "\x7b%s\x7d") k) ((replace.lookup k).getD []) original)
    original

/-- `strings.SplitN(env, "=", 2)`, if it has two parts. -/
def keyValue (env : Bytes) : Option (Bytes × Bytes) :=
  (env.idxOf? 61).map fun i => (env.take i, env.drop (i + 1))

/-- One round of the loop that fills the map of environment variables. -/
def storeEntry (envMap : FiniteMap Bytes Bytes) (env : Bytes) : FiniteMap Bytes Bytes :=
  match keyValue env with
  | some (key, value) => envMap.insert key value
  | none => envMap

/-- The map of the environment variables that `os.Environ` lists. -/
def envMapOf (environ : List Bytes) : FiniteMap Bytes Bytes := environ.foldl storeEntry ∅

/-- Replace the placeholders of the environment variables, in the order their map is
iterated in. A format without its verb leaves the text alone. -/
def replaceEnv (environ : List Bytes) (original format : Bytes) (order : List Bytes) : Bytes :=
  let envMap := envMapOf environ
  if ¬ ascii "%s" <:+: format then original
  else
    order.foldl
      (fun original key =>
        replaceAll (sprintf format key) ((envMap.lookup key).getD []) original)
      original

/-- The format that `ReplaceEnv` documents. -/
def documentedFormat : Bytes := ascii "$\x7b%s\x7d"

/-- Names between curly braces. -/
def curlyBraces : Brackets UInt8 where
  before := []
  opening := 123
  closing := 125
  distinct := by decide
  opening_notMem := by decide
  closing_notMem := by decide

/-- Names between curly braces behind a dollar sign. -/
def dollarBraces : Brackets UInt8 where
  before := [36]
  opening := 123
  closing := 125
  distinct := by decide
  opening_notMem := by decide
  closing_notMem := by decide

/-- The format of the curly brace functions writes a placeholder. -/
theorem sprintf_curlyBraces (k : Bytes) :
    sprintf (ascii "\x7b%s\x7d") k = curlyBraces.placeholder k := by
  rfl

/-- The format that the documentation shows writes a placeholder behind a dollar sign. -/
theorem sprintf_documentedFormat (key : Bytes) :
    sprintf documentedFormat key = dollarBraces.placeholder key := by
  rfl

/-- The loop of `CurlyBraceReplaceStrings` replaces one placeholder after the other. -/
theorem curlyBraceReplaceStrings_eq (original : Bytes) (replace : FiniteMap Bytes Bytes)
    (order : List Bytes) :
    curlyBraceReplaceStrings original replace order =
      curlyBraces.expandEach replace order original := by
  simp only [curlyBraceReplaceStrings, Brackets.expandEach, sprintf_curlyBraces]

/-- So does the loop of `ReplaceEnv` under the documented format. -/
theorem replaceEnv_eq (environ : List Bytes) (original : Bytes) (order : List Bytes) :
    replaceEnv environ original documentedFormat order =
      dollarBraces.expandEach (envMapOf environ) order original := by
  have verb : ascii "%s" <:+: documentedFormat := by decide
  simp only [replaceEnv, verb, not_true_eq_false, if_false, Brackets.expandEach,
    sprintf_documentedFormat]

/-- The entries of an environment whose variables a map has. -/
def restrictEnviron (part : FiniteMap Bytes Bytes) (environ : List Bytes) : List Bytes :=
  environ.filter fun env => (keyValue env).any fun entry => decide (entry.1 ∈ part)

/-- Storing one entry is seen at its own variable only. -/
theorem lookup_storeEntry (envMap : FiniteMap Bytes Bytes) (env key : Bytes) :
    (storeEntry envMap env).lookup key =
      match keyValue env with
      | some entry => if key = entry.1 then some entry.2 else envMap.lookup key
      | none => envMap.lookup key := by
  cases split : keyValue env with
  | none => simp [storeEntry, split]
  | some entry =>
    by_cases same : key = entry.1
    · rw [same]
      simp [storeEntry, split]
    · simp [storeEntry, split, same, Finmap.lookup_insert_of_ne envMap same]

/-- A restricted environment has the values of the variables that were kept. -/
theorem lookup_restrictEnviron (part : FiniteMap Bytes Bytes) (environ : List Bytes)
    (key : Bytes) :
    (envMapOf (restrictEnviron part environ)).lookup key =
      if key ∈ part then (envMapOf environ).lookup key else none := by
  induction environ using List.reverseRecOn with
  | nil => simp [envMapOf, restrictEnviron]
  | append_singleton environ env inductionHypothesis =>
    have whole : envMapOf (environ ++ [env]) = storeEntry (envMapOf environ) env := by
      simp [envMapOf]
    have restricted : envMapOf (restrictEnviron part (environ ++ [env])) =
        if (keyValue env).any (fun entry => decide (entry.1 ∈ part)) then
          storeEntry (envMapOf (restrictEnviron part environ)) env
        else envMapOf (restrictEnviron part environ) := by
      rw [restrictEnviron, List.filter_append, List.filter_singleton]
      split_ifs with kept
      · simp [envMapOf, restrictEnviron, kept]
      · simp [envMapOf, restrictEnviron, kept]
    rw [whole, restricted]
    cases split : keyValue env with
    | none => simp [lookup_storeEntry, split, inductionHypothesis]
    | some entry =>
      by_cases kept : entry.1 ∈ part
      · by_cases same : key = entry.1
        · simp [lookup_storeEntry, split, kept, same]
        · simp [lookup_storeEntry, split, kept, same, inductionHypothesis]
      · by_cases same : key = entry.1
        · simp [kept, same, inductionHypothesis]
        · simp [lookup_storeEntry, split, kept, same, inductionHypothesis]

/-- Every part of the map of an environment is the map of a part of the environment. -/
theorem envMapOf_restrictEnviron (part : FiniteMap Bytes Bytes) (environ : List Bytes)
    (within : PartOf part (envMapOf environ)) :
    envMapOf (restrictEnviron part environ) = part := by
  apply Finmap.ext_lookup
  intro key
  rw [lookup_restrictEnviron]
  cases found : part.lookup key with
  | none =>
    have absent : key ∉ part := Finmap.lookup_eq_none.1 found
    simp [absent]
  | some value =>
    have present : key ∈ part := Finmap.mem_of_lookup_eq_some found
    simp [present, within key value found]

/-- Expansion is the one-pass text in every iteration order exactly when the names are kept
apart. This is about a map of values together with its parts, and likewise about an
environment: each round of the loops then does what is meant. -/
theorem expansion_one_pass_iff (original : Bytes) (replace : FiniteMap Bytes Bytes)
    (environ : List Bytes) (valid : ∀ key ∈ replace, key ≠ [] ∧ curlyBraces.Plain key)
    (plain : ∀ key ∈ envMapOf environ, dollarBraces.Plain key) :
    ((∀ part, PartOf part replace → ∀ order, IterationOrder part order →
        curlyBraceReplaceStrings original part order =
          curlyBraces.expand part.lookup original) ↔
      curlyBraces.Separated replace original) ∧
    ((∀ part, PartOf (envMapOf part) (envMapOf environ) → ∀ order,
        IterationOrder (envMapOf part) order →
        replaceEnv part original documentedFormat order =
          dollarBraces.expand (envMapOf part).lookup original) ↔
      dollarBraces.Separated (envMapOf environ) original) := by
  constructor
  · simp only [curlyBraceReplaceStrings_eq]
    exact Brackets.expandEach_iff fun key inside => (valid key inside).2
  · simp only [replaceEnv_eq]
    rw [← Brackets.expandEach_iff plain]
    constructor
    · intro meant part within order visits
      have same := envMapOf_restrictEnviron part environ within
      have named := meant (restrictEnviron part environ)
      rw [same] at named
      exact named within order visits
    · intro meant part within order visits
      exact meant (envMapOf part) within order visits

/-- A single order says little: here the value of the first key spells the other two, the
second round breaks that text and the third happens to mend it. Another order shows it. -/
example :
    let replace : FiniteMap Bytes Bytes :=
      ((Finmap.singleton (ascii "a") (ascii "\x7bb\x7d\x7bc\x7d")).insert (ascii "b")
        (ascii "\x7bb\x7d\x7b")).insert (ascii "c") (ascii "c\x7d")
    curlyBraceReplaceStrings (ascii "\x7ba\x7d") replace [ascii "a", ascii "b", ascii "c"] =
        curlyBraces.expand replace.lookup (ascii "\x7ba\x7d") ∧
      curlyBraceReplaceStrings (ascii "\x7ba\x7d") replace [ascii "b", ascii "a", ascii "c"] ≠
        curlyBraces.expand replace.lookup (ascii "\x7ba\x7d") := by
  decide

/-- A template whose link is left for a later expansion: the link stands for its own
placeholder, and the value of the user spells that placeholder too. -/
def invitation : FiniteMap Bytes Bytes :=
  (Finmap.singleton (ascii "user") (ascii "Ann at \x7blink\x7d")).insert (ascii "link")
    (ascii "\x7blink\x7d")

/-- The same in an environment. -/
def invitationEnviron : List Bytes :=
  [ascii "USER=Ann at $\x7bLINK\x7d", ascii "LINK=$\x7bLINK\x7d"]

/-- The map of that environment. -/
theorem envMapOf_invitationEnviron : envMapOf invitationEnviron =
    (Finmap.singleton (ascii "USER") (ascii "Ann at $\x7bLINK\x7d")).insert (ascii "LINK")
      (ascii "$\x7bLINK\x7d") := by
  decide

/-- The link may be replaced at any time, and nothing but the text spells the user. -/
theorem separated_invitation : curlyBraces.Separated invitation
    (ascii "Hi \x7buser\x7d, \x7blink\x7d, $\x7bUSER\x7d, $\x7bLINK\x7d") := by
  intro name value found
  have inside := Finmap.mem_of_lookup_eq_some found
  rw [invitation, Finmap.mem_insert, Finmap.mem_singleton] at inside
  rcases inside with rfl | rfl
  · left
    rw [invitation, Finmap.lookup_insert] at found
    exact (Option.some.inj found).symm
  · right
    decide

/-- So it is in the environment. -/
theorem separated_invitationEnviron : dollarBraces.Separated (envMapOf invitationEnviron)
    (ascii "Hi \x7buser\x7d, \x7blink\x7d, $\x7bUSER\x7d, $\x7bLINK\x7d") := by
  rw [envMapOf_invitationEnviron]
  intro name value found
  have inside := Finmap.mem_of_lookup_eq_some found
  rw [Finmap.mem_insert, Finmap.mem_singleton] at inside
  rcases inside with rfl | rfl
  · left
    rw [Finmap.lookup_insert] at found
    exact (Option.some.inj found).symm
  · right
    decide

/-- Both orders of the two keys, and of the two variables, give the text that is meant,
although a value spells the placeholder of the other name. -/
theorem expansion_one_pass_invitation :
    (IterationOrder invitation [ascii "user", ascii "link"] ∧
      IterationOrder invitation [ascii "link", ascii "user"] ∧
      ∀ order, IterationOrder invitation order →
        curlyBraceReplaceStrings
            (ascii "Hi \x7buser\x7d, \x7blink\x7d, $\x7bUSER\x7d, $\x7bLINK\x7d") invitation
            order =
          ascii "Hi Ann at \x7blink\x7d, \x7blink\x7d, $\x7bUSER\x7d, $\x7bLINK\x7d") ∧
    (IterationOrder (envMapOf invitationEnviron) [ascii "USER", ascii "LINK"] ∧
      IterationOrder (envMapOf invitationEnviron) [ascii "LINK", ascii "USER"] ∧
      ∀ order, IterationOrder (envMapOf invitationEnviron) order →
        replaceEnv invitationEnviron
            (ascii "Hi \x7buser\x7d, \x7blink\x7d, $\x7bUSER\x7d, $\x7bLINK\x7d")
            documentedFormat order =
          ascii "Hi \x7buser\x7d, \x7blink\x7d, Ann at $\x7bLINK\x7d, $\x7bLINK\x7d") := by
  have keys : ∀ key ∈ invitation, key = ascii "link" ∨ key = ascii "user" := by
    intro key inside
    rwa [invitation, Finmap.mem_insert, Finmap.mem_singleton] at inside
  have names : ∀ key ∈ envMapOf invitationEnviron, key = ascii "LINK" ∨ key = ascii "USER" := by
    intro key inside
    rwa [envMapOf_invitationEnviron, Finmap.mem_insert, Finmap.mem_singleton] at inside
  obtain ⟨strings, env⟩ := expansion_one_pass_iff
    (ascii "Hi \x7buser\x7d, \x7blink\x7d, $\x7bUSER\x7d, $\x7bLINK\x7d") invitation
    invitationEnviron
    (by
      intro key inside
      rcases keys key inside with rfl | rfl <;> decide)
    (by
      intro key inside
      rcases names key inside with rfl | rfl <;> decide)
  have visits := iterationOrder_pair (show ascii "user" ≠ ascii "link" by decide)
    (ascii "Ann at \x7blink\x7d") (ascii "\x7blink\x7d")
  have visitsEnv := iterationOrder_pair (show ascii "USER" ≠ ascii "LINK" by decide)
    (ascii "Ann at $\x7bLINK\x7d") (ascii "$\x7bLINK\x7d")
  rw [← envMapOf_invitationEnviron] at visitsEnv
  refine ⟨⟨visits.1, visits.2, fun order isOrder => ?_⟩,
    ⟨visitsEnv.1, visitsEnv.2, fun order isOrder => ?_⟩⟩
  · rw [strings.2 separated_invitation invitation (fun _ _ chosen => chosen) order isOrder]
    decide
  · rw [env.2 separated_invitationEnviron invitationEnviron (fun _ _ chosen => chosen) order
      isOrder]
    decide

/-- A value that spells the placeholder of another key: the result depends on the order. -/
theorem expansion_depends_on_order :
    let replace : FiniteMap Bytes Bytes :=
      (Finmap.singleton (ascii "a") (ascii "\x7bb\x7d")).insert (ascii "b") (ascii "x")
    let environ := [ascii "A=$\x7bB\x7d", ascii "B=x"]
    IterationOrder replace [ascii "a", ascii "b"] ∧ IterationOrder replace [ascii "b", ascii "a"] ∧
    curlyBraceReplaceStrings (ascii "\x7ba\x7d") replace [ascii "a", ascii "b"] = ascii "x" ∧
    curlyBraceReplaceStrings (ascii "\x7ba\x7d") replace [ascii "b", ascii "a"] =
      ascii "\x7bb\x7d" ∧
    IterationOrder (envMapOf environ) [ascii "A", ascii "B"] ∧
    IterationOrder (envMapOf environ) [ascii "B", ascii "A"] ∧
    replaceEnv environ (ascii "$\x7bA\x7d") documentedFormat [ascii "A", ascii "B"] =
      ascii "x" ∧
    replaceEnv environ (ascii "$\x7bA\x7d") documentedFormat [ascii "B", ascii "A"] =
      ascii "$\x7bB\x7d" := by
  intro replace environ
  have shape : envMapOf environ =
      (Finmap.singleton (ascii "A") (ascii "$\x7bB\x7d")).insert (ascii "B") (ascii "x") := by
    decide
  obtain ⟨forwards, backwards⟩ := iterationOrder_pair (show ascii "a" ≠ ascii "b" by decide)
    (ascii "\x7bb\x7d") (ascii "x")
  obtain ⟨forwardsEnv, backwardsEnv⟩ := iterationOrder_pair
    (show ascii "A" ≠ ascii "B" by decide) (ascii "$\x7bB\x7d") (ascii "x")
  rw [← shape] at forwardsEnv backwardsEnv
  exact ⟨forwards, backwards, by decide, by decide, forwardsEnv, backwardsEnv, by decide,
    by decide⟩

end FluffyCore.Utils
