import FluffyCore.Library.MapLoop

/-!
# Compiled filter predicates

A filter expression compiles to a tree of leaf tests over one attribute each,
joined by AND, OR and NOT. An event is a finite map from attribute names to
strings; a test of an attribute the event does not carry fails, except for `!=`.

A LIKE pattern compiles once to an anchored regular expression in which `*`
becomes a run of dots and `?` a single dot. A dot without flags does not match a
line feed. Text is a sequence of Unicode scalar values, as Go reads a string
rune by rune.
-/

namespace FluffyCore.CeFilter

open Library.MapLoop

/-- The flat view of an event: attribute and extension names to their text. -/
abbrev Attrs : Type := FiniteMap String String

/-- One item of the expressions `globToRegexp` writes between its anchors. -/
inductive RegexpItem where
  | anyRun
  | anyChar
  | literal (char : Char)
deriving DecidableEq

/-- An anchored sequence of items. -/
structure Regexp where
  items : List RegexpItem
deriving DecidableEq

/-- A run of dots before the rest of an expression: stop here, or take one more
character that is not a line feed. -/
def matchRun (rest : List Char → Bool) : List Char → Bool
  | [] => rest []
  | char :: text => rest (char :: text) || (char != '\n' && matchRun rest text)

/-- Match the whole text against the items in order. -/
def matchItems : List RegexpItem → List Char → Bool
  | [], text => text.isEmpty
  | .anyRun :: items, text => matchRun (matchItems items) text
  | .anyChar :: _, [] => false
  | .anyChar :: items, char :: text => char != '\n' && matchItems items text
  | .literal _ :: _, [] => false
  | .literal expected :: items, char :: text => char == expected && matchItems items text

/-- `Regexp.MatchString` for an anchored expression. -/
def Regexp.matchString (rx : Regexp) (value : String) : Bool :=
  matchItems rx.items value.toList

/-- The item one pattern character is written as. -/
def globItem : Char → RegexpItem
  | '*' => .anyRun
  | '?' => .anyChar
  | char => .literal char

/-- Translate a glob pattern rune by rune and compile it. Every translated item
is a valid expression, so the compilation itself does not fail. -/
def globToRegexp (pattern : String) : Except String Regexp :=
  .ok ⟨pattern.toList.map globItem⟩

/-- The predicate tree. A LIKE keeps its pattern and the compiled expression, an
IN its set of values and the text it prints them as. -/
inductive Predicate where
  | eqPred (key val : String)
  | nePred (key val : String)
  | likePred (key pattern : String) (rx : Regexp)
  | inPred (key : String) (vals : Finset String) (repr : String)
  | existsPred (key : String)
  | andPred (left right : Predicate)
  | orPred (left right : Predicate)
  | notPred (inner : Predicate)
deriving DecidableEq

/-- `Predicate.Match`: evaluate the tree on one event. -/
def Predicate.matchAttrs : Predicate → Attrs → Bool
  | .eqPred key val, a =>
      match a.lookup key with
      | some v => v == val
      | none => false
  | .nePred key val, a =>
      match a.lookup key with
      | some v => v != val
      | none => true
  | .likePred key _ rx, a =>
      match a.lookup key with
      | some v => rx.matchString v
      | none => false
  | .inPred key vals _, a =>
      match a.lookup key with
      | some v => decide (v ∈ vals)
      | none => false
  | .existsPred key, a => (a.lookup key).isSome
  | .andPred left right, a => left.matchAttrs a && right.matchAttrs a
  | .orPred left right, a => left.matchAttrs a || right.matchAttrs a
  | .notPred inner, a => !inner.matchAttrs a

end FluffyCore.CeFilter
