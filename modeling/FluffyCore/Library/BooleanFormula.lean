import Mathlib.Data.List.Basic

/-!
# Boolean formulas and their text

A formula is made of atoms, negations, parentheses and the two binary connectives. It
prints as it is read: a chain of one connective without parentheses inside, grouped to
the left. An empty chain is not a formula.
-/

namespace FluffyCore.Library.BooleanFormula

universe u v

inductive Connective where
  | and
  | or
deriving DecidableEq

def Connective.apply : Connective → Bool → Bool → Bool
  | .and, left, right => left && right
  | .or, left, right => left || right

/-- What stands between two operands. -/
def Connective.word : Connective → String
  | .and => " AND "
  | .or => " OR "

inductive Formula (α : Type u) where
  | atom (fact : α)
  | not (inner : Formula α)
  | join (op : Connective) (left right : Formula α)
  | paren (inner : Formula α)

namespace Formula

variable {α : Type u}

/-- The truth value under an assignment. -/
def eval (holds : α → Bool) : Formula α → Bool
  | .atom fact => holds fact
  | .not inner => !inner.eval holds
  | .join op left right => op.apply (left.eval holds) (right.eval holds)
  | .paren inner => inner.eval holds

def print (text : α → String) : Formula α → String
  | .atom fact => text fact
  | .not inner => "!" ++ inner.print text
  | .join op left right => left.print text ++ op.word ++ right.print text
  | .paren inner => "(" ++ inner.print text ++ ")"

/-- A chain of one connective in parentheses. -/
def group (op : Connective) : List (Formula α) → Option (Formula α)
  | [] => none
  | first :: rest => some (.paren (rest.foldl (.join op) first))

/-- Entries that are not empty make a group. -/
theorem exists_group (op : Connective) (entries : List (Formula α)) (nonempty : entries ≠ []) :
    ∃ f, group op entries = some f := by
  obtain ⟨first, rest, rfl⟩ := List.exists_cons_of_ne_nil nonempty
  exact ⟨_, rfl⟩

/-- The value of a list of operands. -/
def combine (op : Connective) (values : List Bool) : Bool :=
  match op with
  | .and => values.all id
  | .or => values.any id

/-- A chain of one connective, built from the left, combines the values of all its operands. -/
theorem eval_foldl (holds : α → Bool) (op : Connective) (first : Formula α)
    (rest : List (Formula α)) :
    (rest.foldl (.join op) first).eval holds =
      op.apply (first.eval holds) (combine op (rest.map (eval holds))) := by
  induction rest generalizing first with
  | nil => cases op <;> simp [combine, Connective.apply]
  | cons next others inductionHypothesis =>
    rw [List.foldl_cons, inductionHypothesis]
    cases op <;> simp [eval, combine, Connective.apply, Bool.and_assoc, Bool.or_assoc]

/-- A chain is true when all, or some, of its operands are. -/
theorem eval_group (holds : α → Bool) (op : Connective) (entries : List (Formula α))
    (f : Formula α) (made : group op entries = some f) :
    f.eval holds = combine op (entries.map (eval holds)) := by
  cases entries with
  | nil => cases made
  | cons first rest =>
    obtain rfl := Option.some.inj made
    rw [eval, eval_foldl]
    cases op <;> simp [combine, Connective.apply]

/-- A chain of one connective, built from the left, prints its operands with the word of the
connective between them. -/
theorem print_foldl (text : α → String) (op : Connective) (first : Formula α)
    (rest : List (Formula α)) :
    (rest.foldl (.join op) first).print text =
      op.word.intercalate (first.print text :: rest.map (print text)) := by
  induction rest generalizing first with
  | nil => simp
  | cons next others inductionHypothesis =>
    rw [List.foldl_cons, inductionHypothesis, List.map_cons, print, String.intercalate_cons_append,
      String.intercalate_cons_cons]

/-- A chain prints as its operands joined by the connective. -/
theorem print_group (text : α → String) (op : Connective) (entries : List (Formula α))
    (f : Formula α) (made : group op entries = some f) :
    f.print text = "(" ++ op.word.intercalate (entries.map (print text)) ++ ")" := by
  cases entries with
  | nil => cases made
  | cons first rest =>
    obtain rfl := Option.some.inj made
    rw [print, print_foldl, List.map_cons]

end Formula

end FluffyCore.Library.BooleanFormula
