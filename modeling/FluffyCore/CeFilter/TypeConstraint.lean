import FluffyCore.CeFilter.Predicate

/-!
# The type constraint of a predicate

The index files a predicate under the values of the "type" attribute that can
satisfy it. The constraint is read off the predicate tree once, when a filter is
added: a set of exact values and a list of globs, or the remark that any type may
do. It may admit a type the predicate rejects, but it never rejects the type of
an event that the predicate matches.
-/

namespace FluffyCore.CeFilter

structure TypeConstraint where
  exact : Finset String := ∅
  globs : List Regexp := []
  /-- Any type could satisfy the predicate. -/
  unconstrained : Bool := false

/-- The exact values of one side that match a glob of the other. -/
def exactMatching (exact : Finset String) (globs : List Regexp) : Finset String :=
  exact.filter fun v => globs.any fun rx => rx.matchString v

/-- Two globs are not intersected: both are kept, which admits more types. -/
def intersectConstraints (a b : TypeConstraint) : TypeConstraint where
  exact := a.exact ∩ b.exact ∪ exactMatching a.exact b.globs ∪ exactMatching b.exact a.globs
  globs := a.globs ++ b.globs

def unionConstraints (a b : TypeConstraint) : TypeConstraint where
  exact := a.exact ∪ b.exact
  globs := a.globs ++ b.globs

def extractTypeConstraint : Predicate → TypeConstraint
  | .eqPred key val =>
      if key = "type" then { exact := {val} } else { unconstrained := true }
  | .nePred _ _ => { unconstrained := true }
  | .likePred key _ rx =>
      if key = "type" then { globs := [rx] } else { unconstrained := true }
  | .inPred key vals _ =>
      if key = "type" then { exact := vals } else { unconstrained := true }
  | .existsPred _ => { unconstrained := true }
  | .andPred left right =>
      let lc := extractTypeConstraint left
      let rc := extractTypeConstraint right
      if lc.unconstrained then rc
      else if rc.unconstrained then lc
      else intersectConstraints lc rc
  | .orPred left right =>
      let lc := extractTypeConstraint left
      let rc := extractTypeConstraint right
      if lc.unconstrained || rc.unconstrained then { unconstrained := true }
      else unionConstraints lc rc
  | .notPred _ => { unconstrained := true }

/-- A type the sets of a constraint allow. -/
def TypeConstraint.Lists (tc : TypeConstraint) (t : String) : Prop :=
  t ∈ tc.exact ∨ ∃ rx ∈ tc.globs, rx.matchString t = true

/-- An event a constraint lets through: it has a type, and that type is allowed. -/
def TypeConstraint.Admits (tc : TypeConstraint) (a : Attrs) : Prop :=
  tc.unconstrained = true ∨ ∃ t, a.lookup "type" = some t ∧ tc.Lists t

/-- An unconstrained constraint admits every event. -/
theorem unconstrained_admits (tc : TypeConstraint) (a : Attrs)
    (anything : tc.unconstrained = true) : tc.Admits a :=
  Or.inl anything

/-- A type both sides list is listed by the intersection. A glob on either side is
kept, and a value of one side that a glob of the other matches stays exact. -/
theorem intersectConstraints_lists (a b : TypeConstraint) (t : String) (left : a.Lists t)
    (right : b.Lists t) : (intersectConstraints a b).Lists t := by
  rcases left with inLeft | ⟨rx, listed, matched⟩
  · rcases right with inRight | ⟨rx, listed, matched⟩
    · left
      simp [intersectConstraints, inLeft, inRight]
    · right
      exact ⟨rx, by simp [intersectConstraints, listed], matched⟩
  · right
    exact ⟨rx, by simp [intersectConstraints, listed], matched⟩

/-- The union lists what either side lists. -/
theorem unionConstraints_lists (a b : TypeConstraint) (t : String) :
    (unionConstraints a b).Lists t ↔ a.Lists t ∨ b.Lists t := by
  simp only [TypeConstraint.Lists, unionConstraints, Finset.mem_union, List.mem_append,
    or_and_right, exists_or]
  exact or_or_or_comm

/-- A leaf that tests one attribute lists the values it accepts when that
attribute is the type, and is unconstrained otherwise. -/
theorem leaf_admits (key : String) (accepts : String → Bool) (tc : TypeConstraint) (a : Attrs)
    (lists : ∀ t, accepts t = true → tc.Lists t)
    (matched : (match a.lookup key with | some v => accepts v | none => false) = true) :
    (if key = "type" then tc else { unconstrained := true }).Admits a := by
  by_cases onType : key = "type"
  · subst key
    rw [if_pos rfl]
    cases present : a.lookup "type" with
    | none => simp [present] at matched
    | some t =>
      rw [present] at matched
      exact Or.inr ⟨t, present, lists t matched⟩
  · rw [if_neg onType]
    exact unconstrained_admits _ a rfl

/-- Extraction never hides a match: an event on which the predicate is true is
admitted by the constraint extracted from it. -/
theorem extractTypeConstraint_admits (pred : Predicate) (a : Attrs)
    (matched : pred.matchAttrs a = true) : (extractTypeConstraint pred).Admits a := by
  induction pred with
  | eqPred key val =>
    refine leaf_admits key (· == val) _ a ?_ matched
    intro t same
    exact Or.inl (by simpa using same)
  | nePred key val => exact unconstrained_admits _ a rfl
  | likePred key pattern rx =>
    refine leaf_admits key rx.matchString _ a ?_ matched
    intro t matchesGlob
    exact Or.inr ⟨rx, by simp, matchesGlob⟩
  | inPred key vals repr =>
    refine leaf_admits key (fun v => decide (v ∈ vals)) _ a ?_ matched
    intro t inside
    exact Or.inl (by simpa using inside)
  | existsPred key => exact unconstrained_admits _ a rfl
  | andPred left right leftHypothesis rightHypothesis =>
    simp only [Predicate.matchAttrs, Bool.and_eq_true] at matched
    have leftAdmits := leftHypothesis matched.1
    have rightAdmits := rightHypothesis matched.2
    simp only [extractTypeConstraint]
    split
    · exact rightAdmits
    · next constrainedLeft =>
      split
      · exact leftAdmits
      · next constrainedRight =>
        obtain ⟨t, present, leftLists⟩ := leftAdmits.resolve_left constrainedLeft
        obtain ⟨t', present', rightLists⟩ := rightAdmits.resolve_left constrainedRight
        obtain rfl : t = t' := Option.some.inj (present.symm.trans present')
        exact Or.inr ⟨t, present, intersectConstraints_lists _ _ t leftLists rightLists⟩
  | orPred left right leftHypothesis rightHypothesis =>
    simp only [Predicate.matchAttrs, Bool.or_eq_true] at matched
    simp only [extractTypeConstraint]
    split
    · exact unconstrained_admits _ a rfl
    · next constrained =>
      simp only [Bool.or_eq_true, not_or] at constrained
      rcases matched with matchedLeft | matchedRight
      · obtain ⟨t, present, lists⟩ := (leftHypothesis matchedLeft).resolve_left constrained.1
        exact Or.inr ⟨t, present, (unionConstraints_lists _ _ t).2 (Or.inl lists)⟩
      · obtain ⟨t, present, lists⟩ := (rightHypothesis matchedRight).resolve_left constrained.2
        exact Or.inr ⟨t, present, (unionConstraints_lists _ _ t).2 (Or.inr lists)⟩
  | notPred inner _ => exact unconstrained_admits _ a rfl

end FluffyCore.CeFilter
