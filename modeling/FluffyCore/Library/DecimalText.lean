import FluffyCore.Library.ByteStrings

/-!
# Decimal text

An unsigned number is read digit by digit and refused as soon as it leaves the range of its
type. A byte that is no digit is refused where it is met, so a text that is both too long and
malformed fails for whichever comes first. What is accepted is exactly the texts that denote
a number within the range.
-/

namespace FluffyCore.Library.DecimalText

open ByteStrings

/-- Why a text is not a number of the type. -/
inductive NumError where
  /-- invalid syntax -/
  | invalidSyntax
  /-- value out of range -/
  | outOfRange
deriving DecidableEq

/-- The number a decimal digit stands for. -/
def digitOf (char : UInt8) : Option Nat :=
  if 48 ≤ char ∧ char ≤ 57 then some (char.toNat - 48) else none

/-- Read on from a value. The limit is the first number out of range. -/
def readDigits (limit : Nat) : Nat → Bytes → Except NumError Nat
  | value, [] => .ok value
  | value, char :: rest =>
    match digitOf char with
    | none => .error .invalidSyntax
    | some digit =>
      if value * 10 + digit < limit then readDigits limit (value * 10 + digit) rest
      else .error .outOfRange

/-- `strconv.ParseUint` with base 10. -/
def parseUint (limit : Nat) (text : Bytes) : Except NumError Nat :=
  if text = [] then .error .invalidSyntax else readDigits limit 0 text

/-- What `strconv.ParseUint` returns beside its error: nothing, or the largest number. -/
def parsedValue (limit : Nat) : Except NumError Nat → Nat
  | .ok value => value
  | .error .invalidSyntax => 0
  | .error .outOfRange => limit - 1

/-- The number that digits denote when they are written behind those of a value. -/
def decimalFrom (value : Nat) (text : Bytes) : Option Nat :=
  text.foldlM (fun value char => (digitOf char).map (value * 10 + ·)) value

/-- More digits never make a number smaller. -/
theorem le_of_decimalFrom {value number : Nat} {text : Bytes}
    (denotes : decimalFrom value text = some number) : value ≤ number := by
  induction text generalizing value with
  | nil =>
    cases denotes
    exact Nat.le_refl _
  | cons char rest inductionHypothesis =>
    obtain ⟨next, isNext, later⟩ := Option.bind_eq_some_iff.1 denotes
    obtain ⟨digit, _, rfl⟩ := Option.map_eq_some_iff.1 isNext
    have grown := inductionHypothesis later
    omega

/-- Reading succeeds exactly on the numbers below the limit: the loop stops at the first
value that is too large, and none behind it is small enough again. -/
theorem readDigits_eq_ok_iff {limit value : Nat} (text : Bytes) (number : Nat)
    (below : value < limit) :
    readDigits limit value text = .ok number ↔
      decimalFrom value text = some number ∧ number < limit := by
  induction text generalizing value with
  | nil =>
    constructor
    · intro read
      cases read
      exact ⟨rfl, below⟩
    · rintro ⟨denotes, _⟩
      cases denotes
      rfl
  | cons char rest inductionHypothesis =>
    cases isDigit : digitOf char with
    | none => simp [readDigits, decimalFrom, isDigit]
    | some digit =>
      have denoted : decimalFrom value (char :: rest) =
          decimalFrom (value * 10 + digit) rest := by
        simp [decimalFrom, isDigit]
      rw [readDigits, isDigit, denoted]
      by_cases inRange : value * 10 + digit < limit
      · rw [← inductionHypothesis inRange]
        simp [inRange]
      · have tooLarge : ∀ number, decimalFrom (value * 10 + digit) rest = some number →
            ¬ number < limit := by
          intro number denotes
          have := le_of_decimalFrom denotes
          omega
        constructor
        · intro read
          simp [inRange] at read
        · rintro ⟨denotes, small⟩
          exact absurd small (tooLarge number denotes)

/-- The accepted texts are the decimal numbers within the range. -/
theorem parseUint_eq_ok_iff {limit : Nat} (positive : 0 < limit) (text : Bytes) (number : Nat) :
    parseUint limit text = .ok number ↔
      text ≠ [] ∧ decimalFrom 0 text = some number ∧ number < limit := by
  rw [parseUint]
  by_cases empty : text = []
  · simp [empty]
  · rw [if_neg empty, readDigits_eq_ok_iff text number positive]
    simp [empty]

end FluffyCore.Library.DecimalText
