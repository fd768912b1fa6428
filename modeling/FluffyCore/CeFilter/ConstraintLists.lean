import FluffyCore.CeFilter.TypeConstraint
import FluffyCore.Library.Slices

/-!
# The glob lists of type constraints

A type constraint holds its globs in a slice, and the constraints of the two sides of an AND or
an OR are joined by appending the globs of the right side to the slice of the left one. Such an
append may write into the array of the left side's list. Extraction is therefore followed here
on a heap of arrays, for every policy by which appended slices grow.

The memory also remembers each list that was returned by a call of the extraction, with what it
held at that moment. No call changes a list that is remembered, and the constraint it returns
holds the globs of the constraint that is computed without a heap.
-/

namespace FluffyCore.CeFilter.ConstraintLists

open Library.Slices

/-- A constraint as the program holds it: its globs are a slice. -/
structure TypeConstraint where
  exact : Finset String := ∅
  globs : Slice := .nil
  unconstrained : Bool := false

/-- The arrays of globs, and the lists returned so far with what they held. -/
structure Memory where
  heap : Heap Regexp
  returned : List (Slice × List Regexp) := []

/-- A constraint is returned. -/
def Memory.returning (mem : Memory) (tc : TypeConstraint) : Memory × TypeConstraint :=
  ({ mem with returned := (tc.globs, read mem.heap tc.globs) :: mem.returned }, tc)

/-- Both ways of joining constraints end by appending the globs of one to those of the other. -/
def appendGlobs (growth : Growth) (mem : Memory) (a b : TypeConstraint) (exact : Finset String) :
    Memory × TypeConstraint :=
  let (heap, globs) := append growth mem.heap a.globs (read mem.heap b.globs)
  { mem with heap }.returning { exact, globs }

def intersectConstraints (growth : Growth) (mem : Memory) (a b : TypeConstraint) :
    Memory × TypeConstraint :=
  appendGlobs growth mem a b
    (a.exact ∩ b.exact ∪ exactMatching a.exact (read mem.heap b.globs) ∪
      exactMatching b.exact (read mem.heap a.globs))

def unionConstraints (growth : Growth) (mem : Memory) (a b : TypeConstraint) :
    Memory × TypeConstraint :=
  appendGlobs growth mem a b (a.exact ∪ b.exact)

def extractTypeConstraint (growth : Growth) : Predicate → Memory → Memory × TypeConstraint
  | .eqPred key val, mem =>
      mem.returning (if key = "type" then { exact := {val} } else { unconstrained := true })
  | .nePred _ _, mem => mem.returning { unconstrained := true }
  | .likePred key _ rx, mem =>
      if key = "type" then
        let (heap, globs) := literal mem.heap [rx]
        { mem with heap }.returning { globs }
      else mem.returning { unconstrained := true }
  | .inPred key vals _, mem =>
      mem.returning (if key = "type" then { exact := vals } else { unconstrained := true })
  | .existsPred _, mem => mem.returning { unconstrained := true }
  | .andPred left right, mem =>
      let (mem, lc) := extractTypeConstraint growth left mem
      let (mem, rc) := extractTypeConstraint growth right mem
      if lc.unconstrained then mem.returning rc
      else if rc.unconstrained then mem.returning lc
      else intersectConstraints growth mem lc rc
  | .orPred left right, mem =>
      let (mem, lc) := extractTypeConstraint growth left mem
      let (mem, rc) := extractTypeConstraint growth right mem
      if lc.unconstrained || rc.unconstrained then mem.returning { unconstrained := true }
      else unionConstraints growth mem lc rc
  | .notPred _, mem => mem.returning { unconstrained := true }

/-- Every list that was returned still holds what it held then. -/
def Memory.Intact (mem : Memory) : Prop := ∀ list ∈ mem.returned, Holds mem.heap list.1 list.2

/-- A call that starts with a memory returns a constraint with the given meaning, and has
disturbed neither the arrays it found nor the lists that were returned meanwhile. -/
structure Returns (before : Memory) (result : Memory × TypeConstraint)
    (meaning : CeFilter.TypeConstraint) : Prop where
  exact : result.2.exact = meaning.exact
  unconstrained : result.2.unconstrained = meaning.unconstrained
  globs : ∃ lists, result.1.returned = lists ++ before.returned ∧
    Makes before.heap result.1.heap lists result.2.globs meaning.globs

/-- What a constraint says to a reader of the heap. -/
def TypeConstraint.view (heap : Heap Regexp) (tc : TypeConstraint) : CeFilter.TypeConstraint :=
  ⟨tc.exact, read heap tc.globs, tc.unconstrained⟩

/-- What is returned reads as what it means. -/
theorem Returns.view_eq {before : Memory} {result : Memory × TypeConstraint}
    {meaning : CeFilter.TypeConstraint} (returns : Returns before result meaning) :
    result.2.view result.1.heap = meaning := by
  obtain ⟨_, _, made⟩ := returns.globs
  rw [TypeConstraint.view, made.holds.read_eq, returns.exact, returns.unconstrained]

/-- Returning a constraint only adds to what is remembered. -/
theorem returns_returning {before mem : Memory} (tc : TypeConstraint)
    {lists : List (Slice × List Regexp)} {values : List Regexp}
    (returned : mem.returned = lists ++ before.returned)
    (made : Makes before.heap mem.heap lists tc.globs values) :
    Returns before (mem.returning tc) ⟨tc.exact, values, tc.unconstrained⟩ where
  exact := rfl
  unconstrained := rfl
  globs := by
    refine ⟨(tc.globs, values) :: lists, ?_, made.record⟩
    rw [Memory.returning, made.holds.read_eq, returned, List.cons_append]

/-- A constraint without globs is returned at once. -/
theorem returns_without_globs (mem : Memory) (exact : Finset String) (unconstrained : Bool) :
    Returns mem (mem.returning { exact, unconstrained }) { exact, unconstrained } :=
  returns_returning { exact, unconstrained } rfl (.nil mem.heap)

/-- A leaf that tests one attribute is unconstrained unless that attribute is the type. -/
theorem returns_leaf (mem : Memory) (key : String) (exact : Finset String) :
    Returns mem (mem.returning (if key = "type" then { exact } else { unconstrained := true }))
      (if key = "type" then { exact } else { unconstrained := true }) := by
  split
  · exact returns_without_globs mem exact false
  · exact returns_without_globs mem ∅ true

section Joins

variable {before : Memory} {left right : Memory × TypeConstraint}
  {leftMeaning rightMeaning : CeFilter.TypeConstraint}

/-- After two calls, the constraint of either may be returned. -/
theorem Returns.both (leftReturns : Returns before left leftMeaning)
    (rightReturns : Returns left.1 right rightMeaning) :
    ∃ lists, right.1.returned = lists ++ before.returned ∧
      Makes before.heap right.1.heap lists left.2.globs leftMeaning.globs ∧
      Makes before.heap right.1.heap lists right.2.globs rightMeaning.globs := by
  obtain ⟨earlier, leftReturned, leftMade⟩ := leftReturns.globs
  obtain ⟨later, rightReturned, rightMade⟩ := rightReturns.globs
  refine ⟨later ++ earlier, ?_, leftMade.first rightMade, leftMade.second rightMade⟩
  rw [rightReturned, leftReturned, List.append_assoc]

/-- Appending the globs of the second to those of the first joins their meanings. -/
theorem Returns.appendGlobs (growth : Growth) (exact : Finset String)
    (leftReturns : Returns before left leftMeaning)
    (rightReturns : Returns left.1 right rightMeaning) :
    Returns before (appendGlobs growth right.1 left.2 right.2 exact)
      { exact, globs := leftMeaning.globs ++ rightMeaning.globs } := by
  obtain ⟨lists, returned, leftMade, rightMade⟩ := leftReturns.both rightReturns
  have joined := leftMade.append growth (read right.1.heap right.2.globs)
  rw [rightMade.holds.read_eq] at joined
  unfold ConstraintLists.appendGlobs
  rw [rightMade.holds.read_eq]
  exact returns_returning _ returned joined

/-- The intersection of two returned constraints is returned like them. -/
theorem Returns.intersect (growth : Growth) (leftReturns : Returns before left leftMeaning)
    (rightReturns : Returns left.1 right rightMeaning) :
    Returns before (intersectConstraints growth right.1 left.2 right.2)
      (CeFilter.intersectConstraints leftMeaning rightMeaning) := by
  obtain ⟨_, _, leftMade, rightMade⟩ := leftReturns.both rightReturns
  unfold intersectConstraints CeFilter.intersectConstraints
  rw [leftMade.holds.read_eq, rightMade.holds.read_eq, leftReturns.exact, rightReturns.exact]
  exact leftReturns.appendGlobs growth _ rightReturns

/-- The union of two returned constraints is returned like them. -/
theorem Returns.union (growth : Growth) (leftReturns : Returns before left leftMeaning)
    (rightReturns : Returns left.1 right rightMeaning) :
    Returns before (unionConstraints growth right.1 left.2 right.2)
      (CeFilter.unionConstraints leftMeaning rightMeaning) := by
  unfold unionConstraints CeFilter.unionConstraints
  rw [leftReturns.exact, rightReturns.exact]
  exact leftReturns.appendGlobs growth _ rightReturns

/-- A side of an AND that does not constrain the type gives way to the other one. -/
theorem Returns.and (growth : Growth) (leftReturns : Returns before left leftMeaning)
    (rightReturns : Returns left.1 right rightMeaning) :
    Returns before
      (if left.2.unconstrained then right.1.returning right.2
        else if right.2.unconstrained then right.1.returning left.2
        else intersectConstraints growth right.1 left.2 right.2)
      (if leftMeaning.unconstrained then rightMeaning
        else if rightMeaning.unconstrained then leftMeaning
        else CeFilter.intersectConstraints leftMeaning rightMeaning) := by
  obtain ⟨lists, returned, leftMade, rightMade⟩ := leftReturns.both rightReturns
  rw [leftReturns.unconstrained, rightReturns.unconstrained]
  split
  · have result := returns_returning right.2 returned rightMade
    rwa [rightReturns.exact, rightReturns.unconstrained] at result
  · split
    · have result := returns_returning left.2 returned leftMade
      rwa [leftReturns.exact, leftReturns.unconstrained] at result
    · exact leftReturns.intersect growth rightReturns

/-- A side of an OR that does not constrain the type makes the whole unconstrained. -/
theorem Returns.or (growth : Growth) (leftReturns : Returns before left leftMeaning)
    (rightReturns : Returns left.1 right rightMeaning) :
    Returns before
      (if left.2.unconstrained || right.2.unconstrained then
          right.1.returning { unconstrained := true }
        else unionConstraints growth right.1 left.2 right.2)
      (if leftMeaning.unconstrained || rightMeaning.unconstrained then { unconstrained := true }
        else CeFilter.unionConstraints leftMeaning rightMeaning) := by
  obtain ⟨lists, returned, leftMade, _⟩ := leftReturns.both rightReturns
  rw [leftReturns.unconstrained, rightReturns.unconstrained]
  split
  · exact returns_returning { unconstrained := true } returned leftMade.discard
  · exact leftReturns.union growth rightReturns

end Joins

/-- Extraction on a heap returns the constraint that is computed without one. -/
theorem returns_extractTypeConstraint (growth : Growth) (pred : Predicate) (mem : Memory) :
    Returns mem (extractTypeConstraint growth pred mem) (CeFilter.extractTypeConstraint pred) := by
  induction pred generalizing mem with
  | eqPred key val => exact returns_leaf mem key {val}
  | nePred key val => exact returns_without_globs mem ∅ true
  | likePred key pattern rx =>
    unfold extractTypeConstraint CeFilter.extractTypeConstraint
    split
    · exact returns_returning _ rfl (.literal mem.heap [rx])
    · exact returns_without_globs mem ∅ true
  | inPred key vals repr => exact returns_leaf mem key vals
  | existsPred key => exact returns_without_globs mem ∅ true
  | andPred left right leftHypothesis rightHypothesis =>
    exact (leftHypothesis mem).and growth (rightHypothesis _)
  | orPred left right leftHypothesis rightHypothesis =>
    exact (leftHypothesis mem).or growth (rightHypothesis _)
  | notPred inner _ => exact returns_without_globs mem ∅ true

/-- Memory stays intact from one call to the next. -/
theorem Memory.Intact.extract {mem : Memory} (intact : mem.Intact) (growth : Growth)
    (pred : Predicate) : (extractTypeConstraint growth pred mem).1.Intact := by
  obtain ⟨lists, returned, made⟩ := (returns_extractTypeConstraint growth pred mem).globs
  unfold Memory.Intact
  rw [returned]
  exact List.forall_mem_append.2
    ⟨made.listsHold, fun list earlier => (intact list earlier).of_older made.older⟩

/-- A memory from which nothing was returned is intact. -/
theorem intact_nothing : Memory.Intact ⟨[], []⟩ := fun _ inside => absurd inside List.not_mem_nil

/-- However many filters are compiled one after the other, every list that was returned on the
way holds at the end what it held when it was returned. -/
theorem intact_of_calls (growth : Growth) (preds : List Predicate) :
    (preds.foldl (fun mem pred => (extractTypeConstraint growth pred mem).1) ⟨[], []⟩).Intact := by
  refine List.foldlRecOn (motive := Memory.Intact) preds _ intact_nothing ?_
  exact fun mem intact pred _ => intact.extract growth pred

/-- A constraint without values and globs admits no event. -/
theorem empty_admits_nothing (a : Attrs) : ¬ ({} : CeFilter.TypeConstraint).Admits a := by
  simp [CeFilter.TypeConstraint.Admits, CeFilter.TypeConstraint.Lists]

/-- The extracted constraint is sound. On an event that the predicate matches, it is
unconstrained, or the event has a type that is one of its values or matches one of its globs;
so a constraint that admits nothing comes only from a predicate that matches nothing. Computing
it leaves every list in memory as it was, those of earlier constraints and those of the
constraints it is made from. -/
theorem extracted_constraint_sound (growth : Growth) (pred : Predicate) (mem after : Memory)
    (tc : TypeConstraint) (extracted : extractTypeConstraint growth pred mem = (after, tc)) :
    (∀ a : Attrs, pred.matchAttrs a = true →
        tc.unconstrained = true ∨
          ∃ t, a.lookup "type" = some t ∧
            (t ∈ tc.exact ∨ ∃ rx ∈ read after.heap tc.globs, rx.matchString t = true)) ∧
      (tc.unconstrained = false → tc.exact = ∅ → read after.heap tc.globs = [] →
        ∀ a : Attrs, pred.matchAttrs a = false) ∧
      (∀ s values, Holds mem.heap s values → Holds after.heap s values) ∧
      (mem.Intact → after.Intact) := by
  have returns := returns_extractTypeConstraint growth pred mem
  have stillIntact := fun intact : mem.Intact => intact.extract growth pred
  rw [extracted] at returns stillIntact
  obtain ⟨_, _, made⟩ := returns.globs
  have admits : ∀ a, pred.matchAttrs a = true → (tc.view after.heap).Admits a := by
    intro a matched
    rw [returns.view_eq]
    exact extractTypeConstraint_admits pred a matched
  refine ⟨admits, ?_, fun s values held => held.of_older made.older, stillIntact⟩
  intro constrained noValue noGlob a
  have nothing : tc.view after.heap = {} := by
    rw [TypeConstraint.view, noValue, noGlob, constrained]
  rw [nothing] at admits
  exact Bool.eq_false_iff.2 fun matched => empty_admits_nothing a (admits a matched)

/-- Every append leaves as much room as it uses. -/
def doubling : Growth := ⟨fun _ needed => 2 * needed, fun _ _ => by omega⟩

def likeType (pattern : String) : Predicate :=
  .likePred "type" pattern ⟨pattern.toList.map globItem⟩

/-- Four globs. The third and the fourth are appended in place, into the array of the list that
holds the first two. -/
def fourGlobs : Predicate :=
  .orPred (.orPred (.orPred (likeType "a*") (likeType "b*")) (likeType "c*")) (likeType "d*")

/-- Two values that no event has at once. -/
def twoTypes : Predicate := .andPred (.eqPred "type" "a") (.eqPred "type" "b")

/-- The memory after a filter with one glob was compiled. -/
def oneGlobStored : Memory := (extractTypeConstraint doubling (likeType "x*") ⟨[], []⟩).1

/-- An event whose type matches the second of four globs is admitted, and the list of an earlier
filter is as it was although two of the appends are in place. -/
theorem extracted_constraint_sound_fourGlobs :
    ∃ after tc, extractTypeConstraint doubling fourGlobs oneGlobStored = (after, tc) ∧
      (∃ t, (Finmap.singleton "type" "beta" : Attrs).lookup "type" = some t ∧
        (t ∈ tc.exact ∨ ∃ rx ∈ read after.heap tc.globs, rx.matchString t = true)) ∧
      Holds after.heap ⟨0, 1, 1, Nat.le_refl 1⟩ [⟨[.literal 'x', .anyRun]⟩] ∧ after.Intact ∧
      ∀ a : Attrs, twoTypes.matchAttrs a = false := by
  obtain ⟨sound, _, keeps, intact⟩ :=
    extracted_constraint_sound doubling fourGlobs oneGlobStored _ _ rfl
  obtain ⟨_, none, _, _⟩ := extracted_constraint_sound doubling twoTypes ⟨[], []⟩ _ _ rfl
  have beta := sound (Finmap.singleton "type" "beta") (by decide)
  have stored : Holds oneGlobStored.heap ⟨0, 1, 1, Nat.le_refl 1⟩ [⟨[.literal 'x', .anyRun]⟩] :=
    ⟨fun _ => ⟨_, rfl, Nat.le_refl 1⟩, rfl⟩
  exact ⟨_, _, rfl, beta.resolve_left (by decide), keeps _ _ stored,
    intact (intact_nothing.extract doubling (likeType "x*")),
    none (by decide) (by decide) (by decide)⟩

end FluffyCore.CeFilter.ConstraintLists
