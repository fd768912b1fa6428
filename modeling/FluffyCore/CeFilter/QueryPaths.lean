import FluffyCore.CeFilter.Interchange

/-!
# The queries of the indexed set agree

`Match`, `MatchEndpoints` and `MatchAny` walk the same three sections of the index with
different memories: names already seen, names and hints already seen, nothing at all. The
unlimited results of the first two are related record by record, and a limit only cuts them
off.
-/

namespace FluffyCore.CeFilter

open Library.FirstVisits Library.LimitedScan Library.QuotedText

/-- The same set under another limit. -/
def IndexedFilterSet.withLimit (fs : IndexedFilterSet) (limit : Nat) : IndexedFilterSet :=
  { fs with maxMatches := limit }

/-- The limit is not part of the index. -/
theorem Represents.withLimit {fs : IndexedFilterSet} {live : List IndexedEntry}
    (rep : Represents fs live) (limit : Nat) : Represents (fs.withLimit limit) live where
  buckets := rep.buckets
  globs := rep.globs
  wildcards := rep.wildcards
  names := rep.names
  distinctNames := rep.distinctNames
  distinctAddresses := rep.distinctAddresses
  allocated := rep.allocated

/-- A limit cuts `Match` off and is reported once if it is reached. -/
theorem matchScan_limited (fs : IndexedFilterSet) (a : Attrs) (limit : Nat)
    (positive : 0 < limit) :
    ((fs.withLimit limit).matchScan a).matched = ((fs.withLimit 0).matchAttrs a).take limit ∧
      ((fs.withLimit limit).matchScan a).limitCalls =
        if limit ≤ ((fs.withLimit 0).matchAttrs a).length then [limit] else [] := by
  have scanned := (fs.withLimit limit).scan_matchScan a
  have limited := foldl_visit_limited limit (matchLook a) (fs.candidates (eventType a))
    ⟨∅, [], false, []⟩ rfl positive
  rw [(fs.withLimit 0).matchAttrs_eq_finds rfl]
  exact ⟨(congrArg Scan.collected scanned).trans limited.1,
    (congrArg Scan.limitCalls scanned).trans limited.2⟩

/-- A limit cuts `MatchEndpoints` off and is reported once if it is reached. -/
theorem endpointScan_limited (fs : IndexedFilterSet) (a : Attrs) (limit : Nat)
    (positive : 0 < limit) :
    ((fs.withLimit limit).endpointScan a).endpoints =
        ((fs.withLimit 0).matchEndpoints a).take limit ∧
      ((fs.withLimit limit).endpointScan a).limitCalls =
        if limit ≤ ((fs.withLimit 0).matchEndpoints a).length then [limit] else [] := by
  have scanned := (fs.withLimit limit).scan_endpointScan a
  have limited := foldl_visit_limited limit (endpointLook a) (fs.candidates (eventType a))
    ⟨(∅, ∅), [], false, []⟩ rfl positive
  rw [(fs.withLimit 0).matchEndpoints_eq_finds rfl]
  exact ⟨(congrArg Scan.collected scanned).trans limited.1,
    (congrArg Scan.limitCalls scanned).trans limited.2⟩

/-- Some record matches exactly when the unlimited `Match` returns something. Here the
name of a record must determine its predicate, which holds in the states of a run. -/
theorem Represents.matchAny_iff_matchAttrs {fs : IndexedFilterSet} {live : List IndexedEntry}
    (rep : Represents fs live) (a : Attrs) (limit : Nat) :
    (fs.withLimit limit).matchAny a = true ↔ (fs.withLimit 0).matchAttrs a ≠ [] := by
  rw [(rep.withLimit limit).matchAny_iff]
  constructor
  · rintro ⟨ie, inside, matched⟩
    exact List.ne_nil_of_mem (((rep.withLimit 0).mem_matchAttrs rfl a ie.entry).2
      ⟨ie, inside, rfl, matched⟩)
  · intro nonempty
    obtain ⟨entry, returned⟩ := List.exists_mem_of_ne_nil _ nonempty
    obtain ⟨ie, inside, _, matched⟩ := ((rep.withLimit 0).mem_matchAttrs rfl a entry).1 returned
    exact ⟨ie, inside, matched⟩

/-- The query paths agree in every state a sequence of calls leads to. `MatchAny` says
whether the unlimited `Match` returns anything; the unlimited endpoints are the first
occurrences of its non-empty hints; a limit cuts both lists off, and the callback is called
once with the limit when the unlimited list is that long and not otherwise. -/
theorem query_paths_agree (unicode : Unicode) (operations : List Operation) (a : Attrs)
    (limit : Nat) :
    let fs := IndexedFilterSet.run unicode operations
    let unlimited := (fs.withLimit 0).matchAttrs a
    let endpoints := (fs.withLimit 0).matchEndpoints a
    ((fs.withLimit limit).matchAny a = true ↔ unlimited ≠ []) ∧
    endpoints = firstVisits id ∅ (hintsOf unlimited) ∧
    (0 < limit →
      (fs.withLimit limit).matchAttrs a = unlimited.take (min limit unlimited.length) ∧
      (fs.withLimit limit).matchEndpoints a = endpoints.take (min limit endpoints.length) ∧
      ((fs.withLimit limit).matchScan a).limitCalls =
        (if limit ≤ unlimited.length then [limit] else []) ∧
      ((fs.withLimit limit).endpointScan a).limitCalls =
        (if limit ≤ endpoints.length then [limit] else [])) := by
  intro fs unlimited endpoints
  obtain ⟨live, refines⟩ := run_refines unicode operations
  refine ⟨refines.represents.matchAny_iff_matchAttrs a limit, ?_, ?_⟩
  · have listed := (fs.withLimit 0).matchEndpoints_eq_finds rfl a
    rw [finds_endpointLook, ← (fs.withLimit 0).matchAttrs_eq_finds rfl a] at listed
    exact listed
  · intro positive
    obtain ⟨matched, matchCalls⟩ := matchScan_limited fs a limit positive
    obtain ⟨listed, endpointCalls⟩ := endpointScan_limited fs a limit positive
    rw [← List.take_eq_take_min, ← List.take_eq_take_min]
    exact ⟨matched, listed, matchCalls, endpointCalls⟩

/-- Two filters that share a hint, registered in turn. -/
def sharedHint : List Operation :=
  [.add ⟨"first", "queue", ∅⟩ "EXISTS id", .add ⟨"second", "queue", ∅⟩ "type = \"order\""]

/-- An event both filters match. -/
def orderEvent : Attrs := (Finmap.singleton "id" "7").insert "type" "order"

/-- All ways to ask agree on the two filters, with a limit of one and without a limit. -/
theorem query_paths_agree_sharedHint :
    let fs := IndexedFilterSet.run asciiTables sharedHint
    (fs.withLimit 1).matchAttrs orderEvent = ((fs.withLimit 0).matchAttrs orderEvent).take 1 ∧
      ((fs.withLimit 1).matchScan orderEvent).limitCalls = [1] ∧
      ((fs.withLimit 2).endpointScan orderEvent).limitCalls = [] := by
  intro fs
  have two : ((fs.withLimit 0).matchAttrs orderEvent).length = 2 := by decide +kernel
  have one : ((fs.withLimit 0).matchEndpoints orderEvent).length = 1 := by decide +kernel
  have once := (query_paths_agree asciiTables sharedHint orderEvent 1).2.2 (by decide)
  have never := (query_paths_agree asciiTables sharedHint orderEvent 2).2.2 (by decide)
  refine ⟨?_, ?_, ?_⟩
  · rw [once.1, two]
    rfl
  · rw [once.2.2.1, two]
    rfl
  · rw [never.2.2.2, one]
    rfl

end FluffyCore.CeFilter
