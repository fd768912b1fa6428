import Mathlib.Data.List.Basic

/-!
# Byte strings and separators

A Go string is a sequence of bytes. The searches a program cuts such strings with look for
the first or the last place of a separator, and the lemmas here say where those places are
in a text that was put together from parts that do not hold it.
-/

namespace FluffyCore.Library.ByteStrings

/-- The bytes of a Go string. -/
abbrev Bytes : Type := List UInt8

/-- The bytes of an ASCII literal. -/
def ascii (text : String) : Bytes := text.toList.map fun c => UInt8.ofNat c.toNat

section Separators

variable {α : Type} [DecidableEq α]

/-- The place of the last occurrence, counted from the front. -/
def lastIdxOf? (separator : α) (text : List α) : Option Nat :=
  (text.reverse.idxOf? separator).map fun fromEnd => text.length - 1 - fromEnd

/-- A separator the first part does not hold is first found right behind that part. -/
theorem idxOf?_append_cons (separator : α) (part rest : List α) (absent : separator ∉ part) :
    (part ++ separator :: rest).idxOf? separator = some part.length := by
  induction part with
  | nil => simp [List.idxOf?_cons]
  | cons head tail inductionHypothesis =>
    have apart : head ≠ separator := fun same => absent (by simp [same])
    have later := inductionHypothesis fun inside => absent (List.mem_cons_of_mem _ inside)
    simp [List.idxOf?_cons, apart, later]

/-- A separator the last part does not hold is last found right before that part. -/
theorem lastIdxOf?_append_cons (separator : α) (part rest : List α) (absent : separator ∉ rest) :
    lastIdxOf? separator (part ++ separator :: rest) = some part.length := by
  have turned : (part ++ separator :: rest).reverse =
      rest.reverse ++ separator :: part.reverse := by simp
  have found := idxOf?_append_cons separator rest.reverse part.reverse (by simpa using absent)
  rw [lastIdxOf?, turned, found]
  simp only [Option.map_some, List.length_append, List.length_cons, List.length_reverse,
    Option.some.injEq]
  omega

/-- A text without the separator has no place for it. -/
theorem lastIdxOf?_of_notMem (separator : α) (text : List α) (absent : separator ∉ text) :
    lastIdxOf? separator text = none := by
  have missing : text.reverse.idxOf? separator = none := by
    simpa [List.idxOf?_eq_none_iff] using absent
  simp [lastIdxOf?, missing]

end Separators

end FluffyCore.Library.ByteStrings
