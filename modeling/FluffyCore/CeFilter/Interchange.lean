import FluffyCore.CeFilter.FilterSet

/-!
# When the two filter sets are interchangeable

Both sets satisfy one interface, and a caller may put either behind it. They differ on a
name that is added again without being removed: the indexed set replaces the filter, the
plain set keeps the old one beside it. The plain set thus answers for the live filters and
the superseded ones, the indexed set for the live ones only, and the two agree on an event
exactly when no superseded filter matches it.
-/

namespace FluffyCore.CeFilter

open Library.LastWrites Library.QuotedText

/-- An unlimited query returns the hints of the live records that match. -/
theorem Represents.mem_matchEndpoints {fs : IndexedFilterSet} {live : List IndexedEntry}
    (rep : Represents fs live) (unlimited : fs.maxMatches = 0) (a : Attrs) (hint : String) :
    hint ∈ fs.matchEndpoints a ↔
      hint ≠ "" ∧ ∃ ie ∈ live, ie.pred.matchAttrs a = true ∧ ie.entry.hint = hint := by
  rw [fs.matchEndpoints_eq_finds unlimited, mem_finds_endpointLook,
    ← fs.matchAttrs_eq_finds unlimited]
  refine and_congr_right fun _ => ?_
  constructor
  · rintro ⟨entry, returned, same⟩
    obtain ⟨ie, inside, rfl, matched⟩ := (rep.mem_matchAttrs unlimited a entry).1 returned
    exact ⟨ie, inside, matched, same⟩
  · rintro ⟨ie, inside, matched, same⟩
    exact ⟨ie.entry, (rep.mem_matchAttrs unlimited a ie.entry).2 ⟨ie, inside, rfl, matched⟩, same⟩

/-- Some live record matches exactly when the index finds one. -/
theorem Represents.matchAny_iff {fs : IndexedFilterSet} {live : List IndexedEntry}
    (rep : Represents fs live) (a : Attrs) :
    fs.matchAny a = true ↔ ∃ ie ∈ live, ie.pred.matchAttrs a = true := by
  have scanned : fs.matchAny a =
      (fs.candidates (eventType a)).any fun ie => ie.pred.matchAttrs a := by
    simp only [IndexedFilterSet.matchAny, IndexedFilterSet.candidates, List.any_append,
      List.any_map, List.any_filter, Function.comp_def]
  rw [scanned, List.any_eq_true]
  constructor
  · rintro ⟨ie, found, matched⟩
    exact ⟨ie, ((rep.mem_candidates _ ie).1 found).1, matched⟩
  · rintro ⟨ie, inside, matched⟩
    exact ⟨ie, (rep.mem_candidates _ ie).2 ⟨inside, filedFor_of_match ie a matched⟩, matched⟩

/-- The filter a record registers. -/
def IndexedEntry.named (ie : IndexedEntry) : NamedFilter := ⟨ie.entry, ie.pred⟩

/-- The index holds the last filters the plain set was given under each name. -/
theorem live_perm_lastWrites (unicode : Unicode) (operations : List Operation)
    (live : List IndexedEntry)
    (refines : Refines (IndexedFilterSet.run unicode operations) (Registry.run unicode operations)
      live) :
    (live.map IndexedEntry.named).Perm
      (lastWrites NamedFilter.name (FilterSet.run unicode operations).filters) := by
  have distinctLive : (live.map IndexedEntry.named).Nodup := by
    refine List.Nodup.of_map NamedFilter.name ?_
    rw [List.map_map]
    exact refines.represents.distinctNames
  have distinctWrites := List.Nodup.of_map _
    (nodup_keys_lastWrites NamedFilter.name (FilterSet.run unicode operations).filters)
  refine (List.perm_ext_iff_of_nodup distinctLive distinctWrites).2 fun f => ?_
  rw [mem_lastWrites_run, ← refines.mem_live_iff, List.mem_map]
  constructor
  · rintro ⟨ie, inside, rfl⟩
    exact ⟨ie, inside, rfl, rfl⟩
  · rintro ⟨ie, inside, sameEntry, samePred⟩
    exact ⟨ie, inside, by rw [IndexedEntry.named, sameEntry, samePred]⟩

/-- The entries of the filters that match. -/
def matching (a : Attrs) (filters : List NamedFilter) : List FilterEntry :=
  (filters.filter fun f => f.pred.matchAttrs a).map (·.entry)

/-- An unlimited query on the index returns the live entries that match, in some order. -/
theorem Refines.matchAttrs_perm {fs : IndexedFilterSet} {registry : Registry}
    {live : List IndexedEntry} (refines : Refines fs registry live) (a : Attrs) :
    (fs.matchAttrs a).Perm (matching a (live.map IndexedEntry.named)) := by
  have distinctFound := (nodup_names_matchAttrs fs refines.unlimited a).of_map
  have distinctLive : (matching a (live.map IndexedEntry.named)).Nodup := by
    refine List.Nodup.of_map (·.name) ?_
    have named : (live.map IndexedEntry.named).map (·.entry.name) = live.map (·.entry.name) := by
      rw [List.map_map]
      rfl
    rw [matching, List.map_map]
    exact (named ▸ refines.represents.distinctNames).sublist (List.filter_sublist.map _)
  refine (List.perm_ext_iff_of_nodup distinctFound distinctLive).2 fun entry => ?_
  rw [refines.represents.mem_matchAttrs refines.unlimited]
  simp only [matching, List.mem_map, List.mem_filter]
  constructor
  · rintro ⟨ie, inside, rfl, matched⟩
    exact ⟨ie.named, ⟨⟨ie, inside, rfl⟩, matched⟩, rfl⟩
  · rintro ⟨_, ⟨⟨ie, inside, rfl⟩, matched⟩, rfl⟩
    exact ⟨ie, inside, rfl, matched⟩

/-- What a caller behind the interface can observe of the two sets after a history of
calls, at one event: the results of the calls, and the answers to the three queries. -/
structure Interchangeable (unicode : Unicode) (operations : List Operation) (a : Attrs) :
    Prop where
  results : ∀ before entry expr after, operations = before ++ .add entry expr :: after →
    ((FilterSet.run unicode before).add unicode entry expr).1 =
      ((IndexedFilterSet.run unicode before).add unicode entry expr).1
  entries : ((FilterSet.run unicode operations).matchAttrs a).Perm
    ((IndexedFilterSet.run unicode operations).matchAttrs a)
  endpoints : ∀ hint, hint ∈ (FilterSet.run unicode operations).matchEndpoints a ↔
    hint ∈ (IndexedFilterSet.run unicode operations).matchEndpoints a
  any : (FilterSet.run unicode operations).matchAny a =
    (IndexedFilterSet.run unicode operations).matchAny a

/-- The result of an `add` depends only on the expression. -/
theorem add_results_agree (unicode : Unicode) (fs : FilterSet) (indexed : IndexedFilterSet)
    (entry : FilterEntry) (expr : String) :
    (fs.add unicode entry expr).1 = (indexed.add unicode entry expr).1 := by
  cases compiled : parse unicode expr <;> simp [FilterSet.add, IndexedFilterSet.add, compiled]

/-- The plain set answers for the live filters and for the superseded ones. -/
theorem plain_matchAttrs_perm (unicode : Unicode) (operations : List Operation) (a : Attrs) :
    ((FilterSet.run unicode operations).matchAttrs a).Perm
      ((IndexedFilterSet.run unicode operations).matchAttrs a ++
        matching a (overwritten NamedFilter.name (FilterSet.run unicode operations).filters)) := by
  obtain ⟨live, refines⟩ := run_refines unicode operations
  have parts := perm_append_overwritten NamedFilter.name (FilterSet.run unicode operations).filters
  have kept := live_perm_lastWrites unicode operations live refines
  have scanned : (FilterSet.run unicode operations).matchAttrs a =
      matching a (FilterSet.run unicode operations).filters := by
    rw [FilterSet.matchAttrs, FilterSet.run_maxMatches, matchLoop_unlimited, List.nil_append,
      matching]
  have split := ((parts.trans (kept.symm.append_right _)).filter
    (fun f => f.pred.matchAttrs a)).map (·.entry)
  rw [List.filter_append, List.map_append] at split
  rw [scanned]
  exact split.trans ((refines.matchAttrs_perm a).symm.append_right _)

/-- Where no superseded filter matches, a filter of the plain set that matches is live. -/
theorem exists_match_iff_live (unicode : Unicode) (operations : List Operation) (a : Attrs)
    (silent : ∀ entry pred, Superseded unicode operations entry pred → pred.matchAttrs a = false)
    (property : FilterEntry → Prop) :
    (∃ f ∈ (FilterSet.run unicode operations).filters,
        f.pred.matchAttrs a = true ∧ property f.entry) ↔
      ∃ entry pred, Live unicode operations entry pred ∧
        pred.matchAttrs a = true ∧ property entry := by
  have parts := perm_append_overwritten NamedFilter.name (FilterSet.run unicode operations).filters
  constructor
  · rintro ⟨f, inside, matched, holds⟩
    rcases List.mem_append.1 (parts.mem_iff.1 inside) with last | shadowed
    · exact ⟨f.entry, f.pred, (mem_lastWrites_run unicode operations f).1 last, matched, holds⟩
    · have unmatched := silent _ _ ((mem_overwritten_run unicode operations f).1 shadowed)
      exact absurd matched (by simp [unmatched])
  · rintro ⟨entry, pred, isLive, matched, holds⟩
    have last := (mem_lastWrites_run unicode operations ⟨entry, pred⟩).2 isLive
    exact ⟨⟨entry, pred⟩, parts.mem_iff.2 (List.mem_append_left _ last), matched, holds⟩

/-- The two filter sets are interchangeable on an event after a history of calls exactly
when no filter that a later `add` superseded matches the event. -/
theorem interchangeable_iff (unicode : Unicode) (operations : List Operation) (a : Attrs) :
    Interchangeable unicode operations a ↔
      ∀ entry pred, Superseded unicode operations entry pred → pred.matchAttrs a = false := by
  constructor
  · intro same entry pred superseded
    have none : matching a
        (overwritten NamedFilter.name (FilterSet.run unicode operations).filters) = [] := by
      have lengths :=
        ((plain_matchAttrs_perm unicode operations a).symm.trans same.entries).length_eq
      rw [List.length_append] at lengths
      exact List.length_eq_zero_iff.1 (by omega)
    rw [matching, List.map_eq_nil_iff, List.filter_eq_nil_iff] at none
    have shadowed := (mem_overwritten_run unicode operations ⟨entry, pred⟩).2 superseded
    simpa using none _ shadowed
  · intro silent
    obtain ⟨live, refines⟩ := run_refines unicode operations
    have found := exists_match_iff_live unicode operations a silent
    refine ⟨fun _ entry expr _ _ => add_results_agree unicode _ _ entry expr, ?_, ?_, ?_⟩
    · have none : matching a
          (overwritten NamedFilter.name (FilterSet.run unicode operations).filters) = [] := by
        rw [matching, List.map_eq_nil_iff, List.filter_eq_nil_iff]
        intro f shadowed
        simp [silent _ _ ((mem_overwritten_run unicode operations f).1 shadowed)]
      simpa [none] using plain_matchAttrs_perm unicode operations a
    · intro hint
      rw [refines.represents.mem_matchEndpoints refines.unlimited, FilterSet.matchEndpoints,
        FilterSet.run_maxMatches, mem_endpointLoop_unlimited, found (·.hint = hint)]
      simp only [← refines.mem_live_iff]
      grind
    · rw [Bool.eq_iff_iff, refines.represents.matchAny_iff, FilterSet.matchAny, List.any_eq_true]
      have anyFound := found fun _ => True
      simp only [and_true] at anyFound
      rw [anyFound]
      simp only [← refines.mem_live_iff]
      grind

/-- A rule that is removed before it is added again is the same rule to both sets. -/
theorem interchangeable_iff_removed_first : Interchangeable asciiTables
    [.add ⟨"rule", "v1", ∅⟩ "type = \"old.type\"", .remove "rule",
      .add ⟨"rule", "v2", ∅⟩ "type = \"new.type\""] (Finmap.singleton "type" "old.type") := by
  refine (interchangeable_iff asciiTables _ _).2 fun entry pred superseded => ?_
  have shadowed := (mem_overwritten_run asciiTables _ ⟨entry, pred⟩).2 superseded
  have none : (overwritten NamedFilter.name (FilterSet.run asciiTables
      [.add ⟨"rule", "v1", ∅⟩ "type = \"old.type\"", .remove "rule",
        .add ⟨"rule", "v2", ∅⟩ "type = \"new.type\""]).filters).length = 0 := by
    decide +kernel
  rw [List.length_eq_zero_iff] at none
  rw [none] at shadowed
  exact absurd shadowed List.not_mem_nil

/-- The history of one rule that is added, then added again with another expression. -/
def updatedRule : List Operation :=
  [.add ⟨"rule", "v1", ∅⟩ "type = \"old.type\"", .add ⟨"rule", "v2", ∅⟩ "type = \"new.type\""]

/-- The plain set still matches the previous version of an updated rule. -/
theorem not_interchangeable_updatedRule :
    ¬ Interchangeable asciiTables updatedRule (Finmap.singleton "type" "old.type") := by
  intro same
  have differ : (FilterSet.run asciiTables updatedRule).matchAny
        (Finmap.singleton "type" "old.type") ≠
      (IndexedFilterSet.run asciiTables updatedRule).matchAny
        (Finmap.singleton "type" "old.type") := by
    decide +kernel
  exact differ same.any

end FluffyCore.CeFilter
