import Mathlib.Algebra.Ring.Nat
import Mathlib.Data.List.Forall2

/-!
# Texts split along a sequence of items

A pattern is a sequence of items, and each item says which parts of a text it takes. The
pattern matches a text when the text can be cut into as many parts, each taken by its item.
A second, narrower reading of the same items that only fixes how much of some quantity each
part holds is matched by exactly those texts that hold the sum of these amounts.
-/

namespace FluffyCore.Library.Splitting

variable {ι α : Type}

/-- The text can be cut into parts that the items take in order. -/
def Splits (takes : ι → List α → Prop) (items : List ι) (text : List α) : Prop :=
  ∃ parts, List.Forall₂ takes items parts ∧ parts.flatten = text

/-- No items take the empty text only. -/
theorem splits_nil (takes : ι → List α → Prop) (text : List α) :
    Splits takes [] text ↔ text = [] := by
  constructor
  · rintro ⟨parts, taken, joined⟩
    cases taken
    exact joined.symm
  · intro blank
    exact ⟨[], List.Forall₂.nil, blank.symm⟩

/-- The first item takes a front part, the other items what is left. -/
theorem splits_cons (takes : ι → List α → Prop) (item : ι) (items : List ι) (text : List α) :
    Splits takes (item :: items) text ↔
      ∃ front rest, text = front ++ rest ∧ takes item front ∧ Splits takes items rest := by
  constructor
  · rintro ⟨parts, taken, joined⟩
    cases taken with
    | cons first others =>
      rename_i front parts
      exact ⟨front, parts.flatten, joined.symm, first, parts, others, rfl⟩
  · rintro ⟨front, rest, joined, first, parts, others, flat⟩
    exact ⟨front :: parts, List.Forall₂.cons first others, by rw [List.flatten_cons, flat, joined]⟩

/-- Items that differ only in name take the same texts. -/
theorem splits_map {κ : Type} (takes : ι → List α → Prop) (rename : κ → ι) (items : List κ)
    (text : List α) :
    Splits takes (items.map rename) text ↔ Splits (fun item => takes (rename item)) items text := by
  simp only [Splits, List.forall₂_map_left_iff]

section Amounts

variable [DecidableEq α] (counted : α) (amount : ι → Nat) {wide narrow : ι → List α → Prop}

/-- A text that splits holds at least the sum of what its items ask for. -/
theorem amount_le_count (atLeast : ∀ item part, wide item part → amount item ≤ part.count counted)
    (items : List ι) (text : List α) (splits : Splits wide items text) :
    (items.map amount).sum ≤ text.count counted := by
  induction items generalizing text with
  | nil => simp
  | cons item items inductionHypothesis =>
    obtain ⟨front, rest, joined, first, others⟩ := (splits_cons _ _ _ _).1 splits
    have frontAmount := atLeast item front first
    have restAmount := inductionHypothesis rest others
    rw [joined, List.count_append, List.map_cons, List.sum_cons]
    omega

/-- Where the narrow reading fixes each part's count at the least the wide one allows, the
narrow pattern matches the texts of the wide one whose count is the least possible. -/
theorem splits_narrow_iff
    (atLeast : ∀ item part, wide item part → amount item ≤ part.count counted)
    (fixed : ∀ item part, narrow item part ↔
      wide item part ∧ part.count counted = amount item)
    (items : List ι) (text : List α) :
    Splits narrow items text ↔
      Splits wide items text ∧ text.count counted = (items.map amount).sum := by
  induction items generalizing text with
  | nil =>
    simp only [splits_nil, List.map_nil, List.sum_nil]
    constructor
    · intro blank
      exact ⟨blank, by simp [blank]⟩
    · exact And.left
  | cons item items inductionHypothesis =>
    simp only [splits_cons, List.map_cons, List.sum_cons]
    constructor
    · rintro ⟨front, rest, joined, first, others⟩
      obtain ⟨frontWide, frontCount⟩ := (fixed item front).1 first
      obtain ⟨restWide, restCount⟩ := (inductionHypothesis rest).1 others
      refine ⟨⟨front, rest, joined, frontWide, restWide⟩, ?_⟩
      rw [joined, List.count_append, frontCount, restCount]
    · rintro ⟨⟨front, rest, joined, first, others⟩, total⟩
      -- Neither half can hold less than its share, so each holds exactly that.
      have frontLeast := atLeast item front first
      have restLeast := amount_le_count counted amount atLeast items rest others
      rw [joined, List.count_append] at total
      have frontCount : front.count counted = amount item := by omega
      have restCount : rest.count counted = (items.map amount).sum := by omega
      exact ⟨front, rest, joined, (fixed item front).2 ⟨first, frontCount⟩,
        (inductionHypothesis rest).2 ⟨others, restCount⟩⟩

end Amounts

end FluffyCore.Library.Splitting
