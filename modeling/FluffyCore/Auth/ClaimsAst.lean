import FluffyCore.Auth.ClaimSet
import FluffyCore.Library.BooleanFormula

/-!
# Claims policies

A policy is a tree of two kinds of nodes. A `ClaimsAST` groups facts and elements and
joins them by the operand it is evaluated under; its `And` and `Or` elements are
evaluated under their own operand, its `Not` elements under the operand of the group.
The nodes of the claimsast language ignore the operand and evaluate their children at
the root operand. Both kinds print themselves, and the truth of a policy is the truth
of the formula it prints.

What a fact asks of a principal and how it prints are parameters: the tree works with
any implementation of the two interfaces.
-/

namespace FluffyCore.Auth

open Library.BooleanFormula

/-- `Operand`; the two values the source defines. -/
abbrev Operand : Type := Connective

/-- `IClaimsValidator`: a `ClaimsAST` or a node of the claimsast language. -/
inductive ClaimsValidator (Fact : Type) where
  | claimsAST (claimFacts : List Fact) (and or not : List (ClaimsValidator Fact))
  | orNode (children : List (ClaimsValidator Fact))
  | andNode (children : List (ClaimsValidator Fact))
  | notNode (child : ClaimsValidator Fact)
  | leafNode (fact : Fact)

namespace ClaimsValidator

variable {Fact : Type}

/-- `Root` wraps a node in a `ClaimsAST`. -/
def root (v : ClaimsValidator Fact) : ClaimsValidator Fact := .claimsAST [] [] [v] []

mutual

/-- `ValidateWithOperand` for a principal with the given facts. The nodes of the
language call `Validate` on their children, which is the root operand. -/
def validateWithOperand (hasClaim : Fact → Bool) : ClaimsValidator Fact → Operand → Bool
  | .claimsAST claimFacts ands ors nots, .and =>
      claimFacts.all hasClaim && everyValidates hasClaim .and ands &&
        everyValidates hasClaim .or ors && !someValidates hasClaim .and nots
  | .claimsAST claimFacts ands ors nots, .or =>
      claimFacts.any hasClaim || someValidates hasClaim .and ands ||
        someValidates hasClaim .or ors || !everyValidates hasClaim .or nots
  | .orNode children, _ => someValidates hasClaim .and children
  | .andNode children, _ => everyValidates hasClaim .and children
  | .notNode child, _ => !validateWithOperand hasClaim child .and
  | .leafNode fact, _ => hasClaim fact

/-- The loop that returns on the first element that fails. -/
def everyValidates (hasClaim : Fact → Bool) (op : Operand) : List (ClaimsValidator Fact) → Bool
  | [] => true
  | v :: rest => validateWithOperand hasClaim v op && everyValidates hasClaim op rest

/-- The loop that returns on the first element that passes. -/
def someValidates (hasClaim : Fact → Bool) (op : Operand) : List (ClaimsValidator Fact) → Bool
  | [] => false
  | v :: rest => validateWithOperand hasClaim v op || someValidates hasClaim op rest

end

/-- `Validate`: the root is processed as an AND operation. -/
def validate (hasClaim : Fact → Bool) (v : ClaimsValidator Fact) : Bool :=
  v.validateWithOperand hasClaim .and

mutual

/-- `StringWithOperand`. -/
def stringWithOperand (expression : Fact → String) : ClaimsValidator Fact → Operand → String
  | .claimsAST claimFacts ands ors nots, op =>
      "(" ++ op.word.intercalate (claimFacts.map expression ++ strings expression .and ands ++
        strings expression .or ors ++ (strings expression op nots).map ("!" ++ ·)) ++ ")"
  | .orNode children, _ => "(" ++ " OR ".intercalate (strings expression .and children) ++ ")"
  | .andNode children, _ => "(" ++ " AND ".intercalate (strings expression .and children) ++ ")"
  | .notNode child, _ => "!(" ++ stringWithOperand expression child .and ++ ")"
  | .leafNode fact, _ => expression fact

def strings (expression : Fact → String) (op : Operand) :
    List (ClaimsValidator Fact) → List String
  | [] => []
  | v :: rest => stringWithOperand expression v op :: strings expression op rest

end

/-- `String`. -/
def string (expression : Fact → String) (v : ClaimsValidator Fact) : String :=
  v.stringWithOperand expression .and

mutual

/-- The formula a node prints under an operand. A group without entries prints none. -/
def formula : ClaimsValidator Fact → Operand → Option (Formula Fact)
  | .claimsAST claimFacts ands ors nots, op => do
      let ands ← formulas .and ands
      let ors ← formulas .or ors
      let nots ← formulas op nots
      Formula.group op (claimFacts.map .atom ++ ands ++ ors ++ nots.map .not)
  | .orNode children, _ => do Formula.group .or (← formulas .and children)
  | .andNode children, _ => do Formula.group .and (← formulas .and children)
  | .notNode child, _ => do return .not (.paren (← formula child .and))
  | .leafNode fact, _ => some (.atom fact)

def formulas (op : Operand) : List (ClaimsValidator Fact) → Option (List (Formula Fact))
  | [] => some []
  | v :: rest => do return (← formula v op) :: (← formulas op rest)

end

mutual

/-- Every group has at least one entry. -/
def grouped : ClaimsValidator Fact → Bool
  | .claimsAST claimFacts ands ors nots =>
      !(claimFacts.isEmpty && ands.isEmpty && ors.isEmpty && nots.isEmpty) &&
        everyGrouped ands && everyGrouped ors && everyGrouped nots
  | .orNode children => !children.isEmpty && everyGrouped children
  | .andNode children => !children.isEmpty && everyGrouped children
  | .notNode child => grouped child
  | .leafNode _ => true

def everyGrouped : List (ClaimsValidator Fact) → Bool
  | [] => true
  | v :: rest => grouped v && everyGrouped rest

end

/-- Induction over a policy: what holds of all elements of a node holds of the node. -/
theorem induct {motive : ClaimsValidator Fact → Prop}
    (claimsAST : ∀ claimFacts ands ors nots, (∀ v ∈ ands, motive v) → (∀ v ∈ ors, motive v) →
      (∀ v ∈ nots, motive v) → motive (.claimsAST claimFacts ands ors nots))
    (orNode : ∀ children, (∀ v ∈ children, motive v) → motive (.orNode children))
    (andNode : ∀ children, (∀ v ∈ children, motive v) → motive (.andNode children))
    (notNode : ∀ child, motive child → motive (.notNode child))
    (leafNode : ∀ fact, motive (.leafNode fact)) (v : ClaimsValidator Fact) : motive v :=
  @ClaimsValidator.rec Fact motive (fun vs => ∀ v ∈ vs, motive v) claimsAST orNode andNode notNode
    leafNode (List.forall_mem_nil _) (fun _ _ first rest => List.forall_mem_cons.2 ⟨first, rest⟩) v

section Loops

variable (hasClaim : Fact → Bool) (expression : Fact → String) (op : Operand)
  (vs : List (ClaimsValidator Fact))

/-- The loop over the elements that must all pass. -/
theorem everyValidates_eq :
    everyValidates hasClaim op vs = (vs.map (validateWithOperand hasClaim · op)).all id := by
  induction vs with
  | nil => rfl
  | cons v rest inductionHypothesis => simp [everyValidates, inductionHypothesis]

/-- The loop over the elements of which one must pass. -/
theorem someValidates_eq :
    someValidates hasClaim op vs = (vs.map (validateWithOperand hasClaim · op)).any id := by
  induction vs with
  | nil => rfl
  | cons v rest inductionHypothesis => simp [someValidates, inductionHypothesis]

/-- The groups of a list have entries if those of each element have. -/
theorem everyGrouped_iff : everyGrouped vs = true ↔ ∀ v ∈ vs, v.grouped = true := by
  induction vs with
  | nil => simp [everyGrouped]
  | cons v rest inductionHypothesis => simp [everyGrouped, inductionHypothesis]

end Loops

/-- A formula with the text and the truth of a node. -/
structure Reads (v : ClaimsValidator Fact) (op : Operand) (f : Formula Fact) : Prop where
  made : v.formula op = some f
  prints : ∀ expression, f.print expression = v.stringWithOperand expression op
  truth : ∀ hasClaim, f.eval hasClaim = v.validateWithOperand hasClaim op

/-- The formulas of a list of elements that all have one. -/
theorem exists_formulas (op : Operand) (vs : List (ClaimsValidator Fact))
    (each : ∀ v ∈ vs, ∃ f, Reads v op f) :
    ∃ fs, formulas op vs = some fs ∧ fs.length = vs.length ∧
      (∀ expression, fs.map (Formula.print expression) = strings expression op vs) ∧
      ∀ hasClaim, fs.map (Formula.eval hasClaim) = vs.map (validateWithOperand hasClaim · op) := by
  induction vs with
  | nil => exact ⟨[], rfl, rfl, fun _ => rfl, fun _ => rfl⟩
  | cons v rest inductionHypothesis =>
    obtain ⟨first, others⟩ := List.forall_mem_cons.1 each
    obtain ⟨f, reads⟩ := first
    obtain ⟨fs, made, length, prints, truth⟩ := inductionHypothesis others
    refine ⟨f :: fs, ?_, ?_, fun expression => ?_, fun hasClaim => ?_⟩
    · simp [formulas, reads.made, made]
    · simp [length]
    · simp [strings, reads.prints, prints]
    · simp [reads.truth, truth]

/-- A node of the language that joins its children reads as the group of their formulas. -/
theorem exists_group_of_children (op : Operand) (children : List (ClaimsValidator Fact))
    (nonempty : children ≠ []) (each : ∀ v ∈ children, ∃ f, Reads v .and f) :
    ∃ fs f, formulas .and children = some fs ∧ Formula.group op fs = some f ∧
      (∀ expression, f.print expression =
        "(" ++ op.word.intercalate (strings expression .and children) ++ ")") ∧
      ∀ hasClaim, f.eval hasClaim =
        Formula.combine op (children.map (validateWithOperand hasClaim · .and)) := by
  obtain ⟨fs, made, length, prints, truth⟩ := exists_formulas .and children each
  have entries : fs ≠ [] := by
    rw [← List.length_pos_iff, length, List.length_pos_iff]
    exact nonempty
  obtain ⟨f, grouped⟩ := Formula.exists_group op fs entries
  refine ⟨fs, f, made, grouped, fun expression => ?_, fun hasClaim => ?_⟩
  · rw [Formula.print_group _ _ _ _ grouped, prints]
  · rw [Formula.eval_group _ _ _ _ grouped, truth]

/-- A `ClaimsAST` with an entry reads as the group of its facts and elements. -/
theorem exists_reads_claimsAST (claimFacts : List Fact)
    (ands ors nots : List (ClaimsValidator Fact)) (op : Operand)
    (entry : (claimFacts.isEmpty && ands.isEmpty && ors.isEmpty && nots.isEmpty) = false)
    (fromAnds : ∀ v ∈ ands, ∃ f, Reads v .and f) (fromOrs : ∀ v ∈ ors, ∃ f, Reads v .or f)
    (fromNots : ∀ v ∈ nots, ∃ f, Reads v op f) :
    ∃ f, Reads (.claimsAST claimFacts ands ors nots) op f := by
  obtain ⟨andFs, madeAnds, andLength, andPrints, andTruth⟩ := exists_formulas .and ands fromAnds
  obtain ⟨orFs, madeOrs, orLength, orPrints, orTruth⟩ := exists_formulas .or ors fromOrs
  obtain ⟨notFs, madeNots, notLength, notPrints, notTruth⟩ := exists_formulas op nots fromNots
  have entries : claimFacts.map Formula.atom ++ andFs ++ orFs ++ notFs.map Formula.not ≠ [] := by
    intro none
    have lengths := congrArg List.length none
    simp only [List.length_append, List.length_map, andLength, orLength, notLength,
      List.length_nil, Nat.add_eq_zero_iff, List.length_eq_zero_iff] at lengths
    simp [lengths] at entry
  obtain ⟨f, made⟩ := Formula.exists_group op _ entries
  refine ⟨f, ?_, fun expression => ?_, fun hasClaim => ?_⟩
  · simpa [formula, madeAnds, madeOrs, madeNots] using made
  · have negated : (notFs.map Formula.not).map (Formula.print expression) =
        (strings expression op nots).map ("!" ++ ·) := by
      rw [← notPrints, List.map_map, List.map_map]
      rfl
    have atoms : (claimFacts.map Formula.atom).map (Formula.print expression) =
        claimFacts.map expression := by
      rw [List.map_map]
      rfl
    rw [Formula.print_group _ _ _ _ made]
    simp only [List.map_append, atoms, andPrints, orPrints, negated, stringWithOperand]
  · have negated : (notFs.map Formula.not).map (Formula.eval hasClaim) =
        (nots.map (validateWithOperand hasClaim · op)).map (!·) := by
      rw [← notTruth, List.map_map, List.map_map]
      rfl
    have atoms : (claimFacts.map Formula.atom).map (Formula.eval hasClaim) =
        claimFacts.map hasClaim := by
      rw [List.map_map]
      rfl
    rw [Formula.eval_group _ _ _ _ made]
    simp only [List.map_append, atoms, andTruth, orTruth, negated]
    cases op with
    | and =>
      simp [Formula.combine, validateWithOperand, everyValidates_eq, someValidates_eq,
        Bool.and_assoc, List.all_map, Function.comp_def, List.not_any_eq_all_not]
    | or =>
      simp [Formula.combine, validateWithOperand, everyValidates_eq, someValidates_eq,
        Bool.or_assoc, List.any_map, Function.comp_def, List.not_all_eq_any_not]

/-- A policy whose groups have entries reads as a formula under either operand. -/
theorem exists_reads (v : ClaimsValidator Fact) (grouped : v.grouped = true) :
    ∀ op, ∃ f, Reads v op f := by
  induction v using induct with
  | claimsAST claimFacts ands ors nots fromAnds fromOrs fromNots =>
    intro op
    simp only [ClaimsValidator.grouped, Bool.and_eq_true, Bool.not_eq_true', everyGrouped_iff]
      at grouped
    obtain ⟨⟨⟨entry, groupedAnds⟩, groupedOrs⟩, groupedNots⟩ := grouped
    exact exists_reads_claimsAST claimFacts ands ors nots op entry
      (fun v inside => fromAnds v inside (groupedAnds v inside) .and)
      (fun v inside => fromOrs v inside (groupedOrs v inside) .or)
      (fun v inside => fromNots v inside (groupedNots v inside) op)
  | orNode children fromChildren =>
    intro op
    simp only [ClaimsValidator.grouped, Bool.and_eq_true, everyGrouped_iff] at grouped
    obtain ⟨fs, f, made, joined, prints, truth⟩ := exists_group_of_children .or children
      (by simpa using grouped.1) fun v inside => fromChildren v inside (grouped.2 v inside) .and
    refine ⟨f, by simp [formula, made, joined], prints, fun hasClaim => ?_⟩
    rw [truth, validateWithOperand, someValidates_eq, Formula.combine]
  | andNode children fromChildren =>
    intro op
    simp only [ClaimsValidator.grouped, Bool.and_eq_true, everyGrouped_iff] at grouped
    obtain ⟨fs, f, made, joined, prints, truth⟩ := exists_group_of_children .and children
      (by simpa using grouped.1) fun v inside => fromChildren v inside (grouped.2 v inside) .and
    refine ⟨f, by simp [formula, made, joined], prints, fun hasClaim => ?_⟩
    rw [truth, validateWithOperand, everyValidates_eq, Formula.combine]
  | notNode child fromChild =>
    intro op
    obtain ⟨f, reads⟩ := fromChild grouped .and
    refine ⟨.not (.paren f), by simp [formula, reads.made], fun expression => ?_,
      fun hasClaim => ?_⟩
    · simp [Formula.print, reads.prints, stringWithOperand, ← String.append_assoc]
    · simp [Formula.eval, reads.truth, validateWithOperand]
  | leafNode fact =>
    exact fun op => ⟨.atom fact, rfl, fun _ => rfl, fun _ => rfl⟩

end ClaimsValidator

/-- `Directive`: whether a fact asks for the type alone or for type and value. -/
inductive Directive where
  | claimTypeAndValue
  | claimType
deriving DecidableEq

structure ClaimFact where
  claim : Claim
  directive : Directive

/-- `HasClaim`. -/
def ClaimFact.hasClaim (s : ClaimFact) (p : ClaimsPrincipal) : Bool :=
  if s.directive = .claimType then p.hasClaimType s.claim.type else p.hasClaim s.claim

/-- `Expression`. -/
def ClaimFact.expression (s : ClaimFact) : String :=
  if s.directive = .claimType then "has_claim_type(" ++ s.claim.type ++ ")"
  else "has_claim(" ++ s.claim.type ++ "|" ++ s.claim.value ++ ")"

/-- A policy whose groups have entries is true where the formula it prints is, under
either operand and at the root. -/
theorem policy_means_what_it_prints {Fact Principal : Type} (hasClaim : Fact → Principal → Bool)
    (expression : Fact → String) (v : ClaimsValidator Fact) (grouped : v.grouped = true) :
    (∀ op, ∃ f, v.formula op = some f ∧ f.print expression = v.stringWithOperand expression op ∧
      ∀ principal, v.validateWithOperand (hasClaim · principal) op =
        f.eval (hasClaim · principal)) ∧
    ∃ f, v.formula .and = some f ∧ f.print expression = v.string expression ∧
      ∀ principal, v.validate (hasClaim · principal) = f.eval (hasClaim · principal) := by
  have under : ∀ op, ∃ f, v.formula op = some f ∧
      f.print expression = v.stringWithOperand expression op ∧
      ∀ principal, v.validateWithOperand (hasClaim · principal) op =
        f.eval (hasClaim · principal) := by
    intro op
    obtain ⟨f, reads⟩ := v.exists_reads grouped op
    exact ⟨f, reads.made, reads.prints expression, fun principal => (reads.truth _).symm⟩
  exact ⟨under, under .and⟩

/-- The facts of the documented example. -/
def permissions (values : List String) : List ClaimFact :=
  values.map fun value => ⟨⟨"permissions", value⟩, .claimTypeAndValue⟩

/-- The documented example, with its last element written in the language. -/
def documentedPolicy : ClaimsValidator ClaimFact :=
  .claimsAST (permissions ["A", "B"]) []
    [.claimsAST (permissions ["C", "D"]) [] [] [],
      .claimsAST (permissions ["E", "F"]) [.claimsAST (permissions ["G", "H"]) [] [] []] [] []]
    [.orNode ((permissions ["I", "J"]).map .leafNode)]

/-- The documented example is true where its text is. -/
theorem documentedPolicy_means_what_it_prints :
    documentedPolicy.grouped = true ∧
      ∃ f, documentedPolicy.formula .and = some f ∧
        f.print ClaimFact.expression = documentedPolicy.string ClaimFact.expression ∧
        ∀ principal, documentedPolicy.validate (·.hasClaim principal) =
          f.eval (·.hasClaim principal) :=
  ⟨by decide, (policy_means_what_it_prints ClaimFact.hasClaim ClaimFact.expression
    documentedPolicy (by decide)).2⟩

end FluffyCore.Auth
