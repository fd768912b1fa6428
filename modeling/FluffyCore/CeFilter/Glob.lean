import FluffyCore.CeFilter.Predicate
import FluffyCore.Library.Splitting

/-!
# What a LIKE pattern means and what it matches

The documentation of `globToRegexp` says that `*` stands for any sequence of characters and
`?` for exactly one. The compiled expression uses a dot for both, and a dot without flags
does not match a line feed. The two meanings are compared here: the expression matches
those values of the glob in which no wildcard has to take a line feed.
-/

namespace FluffyCore.CeFilter

open Library.Splitting

/-- The documented meaning of one pattern character: what part of a value it may take. -/
def globTakes : Char → List Char → Prop
  | '*', _ => True
  | '?', part => part.length = 1
  | char, part => part = [char]

/-- The documented meaning of a pattern: the whole value can be split along it. -/
def GlobMatches (pattern value : String) : Prop :=
  Splits globTakes pattern.toList value.toList

/-- The parts of a value an item of the compiled expression takes. -/
def RegexpItem.takes : RegexpItem → List Char → Prop
  | .anyRun, part => '\n' ∉ part
  | .anyChar, part => ∃ char, part = [char] ∧ char ≠ '\n'
  | .literal expected, part => part = [expected]

/-- A run of dots takes a front part without line feeds. -/
theorem matchRun_iff (rest : List Char → Bool) (text : List Char) :
    matchRun rest text = true ↔
      ∃ front back, text = front ++ back ∧ '\n' ∉ front ∧ rest back = true := by
  induction text with
  | nil =>
    simp only [matchRun]
    constructor
    · intro accepted
      exact ⟨[], [], by simp, by simp, accepted⟩
    · rintro ⟨front, back, joined, _, accepted⟩
      obtain ⟨_, blank⟩ := List.append_eq_nil_iff.1 joined.symm
      rwa [blank] at accepted
  | cons char text inductionHypothesis =>
    simp only [matchRun, Bool.or_eq_true, Bool.and_eq_true, bne_iff_ne, inductionHypothesis]
    constructor
    · rintro (accepted | ⟨plain, front, back, joined, clean, accepted⟩)
      · exact ⟨[], char :: text, by simp, by simp, accepted⟩
      · exact ⟨char :: front, back, by simp [joined], by simp [clean, Ne.symm plain], accepted⟩
    · rintro ⟨front, back, joined, clean, accepted⟩
      cases front with
      | nil =>
        rw [List.nil_append] at joined
        exact Or.inl (joined ▸ accepted)
      | cons first front =>
        rw [List.cons_append, List.cons.injEq] at joined
        simp only [List.mem_cons, not_or] at clean
        exact Or.inr ⟨fun feed => clean.1 (joined.1 ▸ feed.symm), front, back, joined.2, clean.2,
          accepted⟩

/-- The matcher accepts a text exactly when it splits along the items. -/
theorem matchItems_iff (items : List RegexpItem) (text : List Char) :
    matchItems items text = true ↔ Splits RegexpItem.takes items text := by
  induction items generalizing text with
  | nil => simp [matchItems, splits_nil]
  | cons item items inductionHypothesis =>
    rw [splits_cons]
    cases item with
    | anyRun => simp only [matchItems, matchRun_iff, inductionHypothesis, RegexpItem.takes]
    | anyChar =>
      cases text with
      | nil => simp [matchItems, RegexpItem.takes]
      | cons char text =>
        simp only [matchItems, Bool.and_eq_true, bne_iff_ne, inductionHypothesis, RegexpItem.takes]
        constructor
        · rintro ⟨plain, rest⟩
          exact ⟨[char], text, by simp, ⟨char, by simp, plain⟩, rest⟩
        · rintro ⟨front, back, joined, ⟨taken, same, plain⟩, rest⟩
          rw [same, List.singleton_append, List.cons.injEq] at joined
          rw [joined.1, joined.2]
          exact ⟨plain, rest⟩
    | literal expected =>
      cases text with
      | nil => simp [matchItems, RegexpItem.takes]
      | cons char text =>
        simp only [matchItems, Bool.and_eq_true, beq_iff_eq, inductionHypothesis, RegexpItem.takes]
        constructor
        · rintro ⟨same, rest⟩
          exact ⟨[expected], text, by simp [same], by simp, rest⟩
        · rintro ⟨front, back, joined, same, rest⟩
          rw [same, List.singleton_append, List.cons.injEq] at joined
          rw [joined.2]
          exact ⟨joined.1, rest⟩

/-- The line feeds a pattern character asks for by itself. -/
def feedsOf (char : Char) : Nat := [char].count '\n'

/-- What a pattern character may take holds at least its own line feeds. -/
theorem feedsOf_le_count (char : Char) (part : List Char) (takes : globTakes char part) :
    feedsOf char ≤ part.count '\n' := by
  unfold globTakes at takes
  split at takes
  · simp [feedsOf]
  · simp [feedsOf]
  · rw [takes]
    exact le_rfl

/-- The translated item takes what the documentation says, less the parts that hold a
line feed the pattern character is not. -/
theorem globItem_takes_iff (char : Char) (part : List Char) :
    (globItem char).takes part ↔ globTakes char part ∧ part.count '\n' = feedsOf char := by
  unfold globItem globTakes
  split
  · simp [RegexpItem.takes, feedsOf, List.count_eq_zero]
  · simp only [RegexpItem.takes, feedsOf]
    constructor
    · rintro ⟨taken, same, plain⟩
      rw [same]
      simp [plain]
    · rintro ⟨single, clean⟩
      obtain ⟨taken, same⟩ := List.length_eq_one_iff.1 single
      refine ⟨taken, same, fun feed => ?_⟩
      rw [same, feed] at clean
      revert clean
      decide
  · next notStar notMark =>
    simp only [RegexpItem.takes]
    constructor
    · intro same
      exact ⟨same, by rw [same, feedsOf]⟩
    · exact And.left

/-- The line feeds of a pattern are those its characters ask for. -/
theorem sum_feedsOf (pattern : List Char) : (pattern.map feedsOf).sum = pattern.count '\n' := by
  induction pattern with
  | nil => rfl
  | cons char pattern inductionHypothesis =>
    rw [List.map_cons, List.sum_cons, inductionHypothesis, ← List.singleton_append,
      List.count_append, feedsOf]

/-- The compiled expression matches the values of the glob that hold as many line feeds
as the pattern itself: every other one would have to be taken by a wildcard. -/
theorem matchString_iff_glob (pattern value : String) (rx : Regexp)
    (compiled : globToRegexp pattern = .ok rx) :
    rx.matchString value = true ↔ GlobMatches pattern value ∧
      value.toList.count '\n' = pattern.toList.count '\n' := by
  cases compiled
  rw [Regexp.matchString, matchItems_iff, splits_map,
    splits_narrow_iff '\n' feedsOf feedsOf_le_count globItem_takes_iff, sum_feedsOf, GlobMatches]

/-- A LIKE on a present attribute agrees with the documented meaning of its pattern exactly
when a value of the glob holds no line feed besides those written in the pattern. -/
theorem like_documented_iff (key pattern value : String) (a : Attrs)
    (present : a.lookup key = some value) :
    ∃ rx, globToRegexp pattern = .ok rx ∧
      (((Predicate.likePred key pattern rx).matchAttrs a = true ↔ GlobMatches pattern value) ↔
        (GlobMatches pattern value →
          value.toList.count '\n' = pattern.toList.count '\n')) := by
  refine ⟨⟨pattern.toList.map globItem⟩, rfl, ?_⟩
  have matched := matchString_iff_glob pattern value _ rfl
  simp only [Predicate.matchAttrs, present, matched]
  tauto

/-- A value over one line. -/
def plainSubject : Attrs := Finmap.singleton "subject" "a.b"

/-- A pattern without line feeds matches a value over one line as documented. -/
theorem like_documented_plain : ∃ rx, globToRegexp "a*" = .ok rx ∧
    ((Predicate.likePred "subject" "a*" rx).matchAttrs plainSubject = true ↔
      GlobMatches "a*" "a.b") := by
  obtain ⟨rx, compiled, agrees⟩ := like_documented_iff "subject" "a*" "a.b" plainSubject
    (Finmap.lookup_singleton_eq)
  exact ⟨rx, compiled, agrees.2 fun _ => by decide⟩

/-- A value over two lines is one of the glob and is not matched. -/
theorem like_misses_lineFeed : ∃ rx, globToRegexp "a*" = .ok rx ∧
    (Predicate.likePred "subject" "a*" rx).matchAttrs
      (Finmap.singleton "subject" "a\nb") = false ∧ GlobMatches "a*" "a\nb" := by
  refine ⟨⟨"a*".toList.map globItem⟩, rfl, by decide, [['a'], ['\n', 'b']], ?_, by decide⟩
  exact List.Forall₂.cons rfl (List.Forall₂.cons trivial List.Forall₂.nil)

end FluffyCore.CeFilter
