import FluffyCore.CeFilter.IndexedFilterSet
import FluffyCore.Library.FirstVisits
import FluffyCore.Library.LimitedScan

/-!
# The queries as scans

`Match` and `MatchEndpoints` walk the same candidates with a closure that looks at one record,
remembers names or names and hints, and stops at the limit. Both are scans in the general
sense, so what they collect without a limit is what their records yield one after the other:
the entries of the first records of each name that match, and the first occurrences of the
hints of those.
-/

namespace FluffyCore.CeFilter

open Library.FirstVisits Library.LimitedScan

/-- What `Match` does with a record: remember its name, and yield the entry if the name is
new and the predicate holds. -/
def matchLook (a : Attrs) (seen : Finset String) (e : IndexedEntry) :
    Finset String × Option FilterEntry :=
  if e.entry.name ∈ seen then (seen, none)
  else (insert e.entry.name seen, if e.pred.matchAttrs a then some e.entry else none)

/-- What `MatchEndpoints` does with a record. The predicate is not evaluated for a hint
that is empty or listed. -/
def endpointLook (a : Attrs) (seen : Finset String × Finset String) (e : IndexedEntry) :
    (Finset String × Finset String) × Option String :=
  if e.entry.name ∈ seen.1 then (seen, none)
  else if e.entry.hint = "" ∨ e.entry.hint ∈ seen.2 then
    ((insert e.entry.name seen.1, seen.2), none)
  else if e.pred.matchAttrs a then
    ((insert e.entry.name seen.1, insert e.entry.hint seen.2), some e.entry.hint)
  else ((insert e.entry.name seen.1, seen.2), none)

/-- The variables of `Match` as those of a scan. -/
def MatchState.scan (state : MatchState) : Scan (Finset String) FilterEntry :=
  ⟨state.seen, state.matched, state.done, state.limitCalls⟩

/-- The variables of `MatchEndpoints` as those of a scan. -/
def EndpointState.scan (state : EndpointState) : Scan (Finset String × Finset String) String :=
  ⟨(state.seenNames, state.seenHints), state.endpoints, state.done, state.limitCalls⟩

/-- The closure of `Match` looks at one record. -/
theorem MatchState.scan_add (maxMatches : Int) (a : Attrs) (state : MatchState)
    (e : IndexedEntry) :
    (MatchState.add maxMatches a state e).scan = state.scan.visit maxMatches (matchLook a) e := by
  by_cases stopped : state.done = true
  · simp [MatchState.add, Scan.visit, MatchState.scan, stopped]
  · by_cases known : e.entry.name ∈ state.seen
    · simp [MatchState.add, Scan.visit, MatchState.scan, matchLook, stopped, known]
    · by_cases holds : e.pred.matchAttrs a = true
      · simp only [MatchState.add, Scan.visit, MatchState.scan, matchLook, stopped, known, holds,
          if_true, if_false, Bool.false_eq_true]
        split_ifs <;> simp
      · simp [MatchState.add, Scan.visit, MatchState.scan, matchLook, stopped, known, holds]

/-- The closure of `MatchEndpoints` looks at one record. -/
theorem EndpointState.scan_add (maxMatches : Int) (a : Attrs) (state : EndpointState)
    (e : IndexedEntry) :
    (EndpointState.add maxMatches a state e).scan =
      state.scan.visit maxMatches (endpointLook a) e := by
  by_cases stopped : state.done = true
  · simp [EndpointState.add, Scan.visit, EndpointState.scan, stopped]
  · by_cases known : e.entry.name ∈ state.seenNames
    · simp [EndpointState.add, Scan.visit, EndpointState.scan, endpointLook, stopped, known]
    · by_cases blank : e.entry.hint = ""
      · simp [EndpointState.add, Scan.visit, EndpointState.scan, endpointLook, stopped, known,
          blank]
      · by_cases listed : e.entry.hint ∈ state.seenHints
        · simp [EndpointState.add, Scan.visit, EndpointState.scan, endpointLook, stopped, known,
            blank, listed]
        · by_cases holds : e.pred.matchAttrs a = true
          · simp only [EndpointState.add, Scan.visit, EndpointState.scan, endpointLook, stopped,
              known, blank, listed, holds, if_true, if_false, Bool.false_eq_true, or_self]
            split_ifs <;> simp
          · simp [EndpointState.add, Scan.visit, EndpointState.scan, endpointLook, stopped, known,
              blank, listed, holds]

/-- A whole `Match` is a scan of the candidates. -/
theorem IndexedFilterSet.scan_matchScan (fs : IndexedFilterSet) (a : Attrs) :
    (fs.matchScan a).scan =
      (fs.candidates (eventType a)).foldl (Scan.visit fs.maxMatches (matchLook a))
        ⟨∅, [], false, []⟩ :=
  (List.foldl_hom MatchState.scan fun state e =>
    (MatchState.scan_add fs.maxMatches a state e).symm).symm

/-- A whole `MatchEndpoints` is a scan of the candidates. -/
theorem IndexedFilterSet.scan_endpointScan (fs : IndexedFilterSet) (a : Attrs) :
    (fs.endpointScan a).scan =
      (fs.candidates (eventType a)).foldl (Scan.visit fs.maxMatches (endpointLook a))
        ⟨(∅, ∅), [], false, []⟩ :=
  (List.foldl_hom EndpointState.scan fun state e =>
    (EndpointState.scan_add fs.maxMatches a state e).symm).symm

/-- Without a limit `Match` returns all that its scan finds. -/
theorem IndexedFilterSet.matchAttrs_eq_finds (fs : IndexedFilterSet)
    (unlimited : fs.maxMatches = 0) (a : Attrs) :
    fs.matchAttrs a = finds (matchLook a) ∅ (fs.candidates (eventType a)) := by
  have scanned := fs.scan_matchScan a
  rw [unlimited] at scanned
  have collected := (foldl_visit_unlimited (matchLook a) (fs.candidates (eventType a))
    ⟨∅, [], false, []⟩ rfl).1
  exact (congrArg Scan.collected scanned).trans collected

/-- Without a limit `MatchEndpoints` returns all that its scan finds. -/
theorem IndexedFilterSet.matchEndpoints_eq_finds (fs : IndexedFilterSet)
    (unlimited : fs.maxMatches = 0) (a : Attrs) :
    fs.matchEndpoints a = finds (endpointLook a) (∅, ∅) (fs.candidates (eventType a)) := by
  have scanned := fs.scan_endpointScan a
  rw [unlimited] at scanned
  have collected := (foldl_visit_unlimited (endpointLook a) (fs.candidates (eventType a))
    ⟨(∅, ∅), [], false, []⟩ rfl).1
  exact (congrArg Scan.collected scanned).trans collected

/-- The unlimited matches are the entries of the visited records that match. -/
theorem finds_matchLook (a : Attrs) (seen : Finset String) (records : List IndexedEntry) :
    finds (matchLook a) seen records =
      ((firstVisits (·.entry.name) seen records).filter fun ie => ie.pred.matchAttrs a).map
        (·.entry) := by
  induction records generalizing seen with
  | nil => simp [finds, firstVisits]
  | cons e rest inductionHypothesis =>
    by_cases known : e.entry.name ∈ seen
    · simp [finds, matchLook, firstVisits, known, inductionHypothesis]
    · by_cases holds : e.pred.matchAttrs a = true
      · simp [finds, matchLook, firstVisits, known, holds, inductionHypothesis]
      · simp [finds, matchLook, firstVisits, known, holds, inductionHypothesis]

/-- The hints of some entries that are not empty. -/
def hintsOf (entries : List FilterEntry) : List String :=
  (entries.map (·.hint)).filter fun hint => hint ≠ ""

/-- The unlimited endpoints are the first occurrences of the hints of the unlimited
matches: a record that is passed over for its hint adds nothing new. -/
theorem finds_endpointLook (a : Attrs) (names hints : Finset String)
    (records : List IndexedEntry) :
    finds (endpointLook a) (names, hints) records =
      firstVisits id hints (hintsOf (finds (matchLook a) names records)) := by
  induction records generalizing names hints with
  | nil => simp [finds, hintsOf, firstVisits]
  | cons e rest inductionHypothesis =>
    by_cases known : e.entry.name ∈ names
    · simp [finds, endpointLook, matchLook, known, inductionHypothesis]
    · by_cases holds : e.pred.matchAttrs a = true
      · by_cases blank : e.entry.hint = ""
        · simp [finds, endpointLook, matchLook, known, holds, blank, hintsOf, inductionHypothesis]
        · by_cases listed : e.entry.hint ∈ hints
          · simp [finds, endpointLook, matchLook, known, holds, blank, listed, hintsOf,
              inductionHypothesis, firstVisits]
          · simp [finds, endpointLook, matchLook, known, holds, blank, listed, hintsOf,
              inductionHypothesis, firstVisits]
      · by_cases passed : e.entry.hint = "" ∨ e.entry.hint ∈ hints
        · simp [finds, endpointLook, matchLook, known, holds, passed, inductionHypothesis]
        · simp [finds, endpointLook, matchLook, known, holds, passed, inductionHypothesis]

/-- A hint is among the unlimited endpoints when some matching record carries it. -/
theorem mem_finds_endpointLook (a : Attrs) (records : List IndexedEntry) (hint : String) :
    hint ∈ finds (endpointLook a) (∅, ∅) records ↔
      hint ≠ "" ∧ ∃ entry ∈ finds (matchLook a) ∅ records, entry.hint = hint := by
  have determined : ∀ x ∈ hintsOf (finds (matchLook a) ∅ records),
      ∀ y ∈ hintsOf (finds (matchLook a) ∅ records), id x = id y → x = y :=
    fun _ _ _ _ same => same
  rw [finds_endpointLook, mem_firstVisits_iff id _ _ determined, hintsOf, List.mem_filter,
    List.mem_map, decide_eq_true_eq]
  constructor
  · rintro ⟨⟨found, notBlank⟩, _⟩
    exact ⟨notBlank, found⟩
  · rintro ⟨notBlank, found⟩
    exact ⟨⟨found, notBlank⟩, Finset.notMem_empty _⟩

end FluffyCore.CeFilter
