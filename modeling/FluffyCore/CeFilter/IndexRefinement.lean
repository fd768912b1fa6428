import FluffyCore.CeFilter.QueryScans
import FluffyCore.Library.LastWrites

/-!
# The index refines a registry of filters

The plain view of a filter set is a registry: a map from names to the entry and
the predicate last registered under them. The three indexes are a redundant
rendering of the list of live records, one per name, in the order they were
added. Adding and removing keep that rendering, and a query on the index reads
off it what the registry says.
-/

namespace FluffyCore.CeFilter

open Library.MapLoop Library.Compaction Library.FirstVisits Library.LastWrites Library.QuotedText

/-- The exact types a record is filed under. -/
def IndexedEntry.exactTypes (ie : IndexedEntry) : Finset String :=
  if (extractTypeConstraint ie.pred).unconstrained then ∅ else (extractTypeConstraint ie.pred).exact

/-- The globs a record is filed under. -/
def IndexedEntry.globPatterns (ie : IndexedEntry) : List Regexp :=
  if (extractTypeConstraint ie.pred).unconstrained then []
  else (extractTypeConstraint ie.pred).globs

/-- A record filed under neither is a wildcard. -/
def IndexedEntry.isWildcard (ie : IndexedEntry) : Bool :=
  ie.exactTypes.card = 0 && ie.globPatterns.length = 0

/-- The index entries of one record. -/
def IndexedEntry.globSlots (ie : IndexedEntry) : List GlobIndexEntry :=
  ie.globPatterns.map fun rx => ⟨rx, ie⟩

/-- The indexes render a list of live records with distinct names and addresses. -/
structure Represents (fs : IndexedFilterSet) (live : List IndexedEntry) : Prop where
  buckets : ∀ t, fs.exactIndex.lookup t = keepBucket (live.filter fun ie => t ∈ ie.exactTypes)
  globs : fs.globEntries = live.flatMap IndexedEntry.globSlots
  wildcards : fs.wildcardEntries = live.filter IndexedEntry.isWildcard
  names : ∀ name, name ∈ fs.names ↔ name ∈ live.map (·.entry.name)
  distinctNames : (live.map (·.entry.name)).Nodup
  distinctAddresses : (live.map (·.address)).Nodup
  allocated : ∀ ie ∈ live, ie.address < fs.nextAddress

/-- The empty indexes render no record. -/
theorem empty_represents : Represents {} [] where
  buckets _ := rfl
  globs := rfl
  wildcards := rfl
  names := by simp
  distinctNames := List.nodup_nil
  distinctAddresses := List.nodup_nil
  allocated := by simp

/-- A bucket read back holds what was kept in it. -/
@[simp]
theorem keepBucket_getD (kept : List IndexedEntry) : (keepBucket kept).getD [] = kept := by
  cases kept <;> rfl

/-- The bucket of a type holds the live records with that type, in order. -/
theorem Represents.bucket_eq {fs : IndexedFilterSet} {live : List IndexedEntry}
    (rep : Represents fs live) (t : String) :
    fs.bucket t = live.filter fun ie => t ∈ ie.exactTypes := by
  rw [IndexedFilterSet.bucket, rep.buckets, keepBucket_getD]

/-- The slots of a record carry that record. -/
theorem filter_globSlots (keep : IndexedEntry → Bool) (ie : IndexedEntry) :
    (ie.globSlots.filter fun ge => keep ge.entry) = if keep ie then ie.globSlots else [] := by
  by_cases kept : keep ie <;>
    simp [IndexedEntry.globSlots, List.filter_map, Function.comp_def, kept]

/-- Filtering the slots of a list of records keeps the slots of the kept records. -/
theorem filter_flatMap_globSlots (keep : IndexedEntry → Bool) (live : List IndexedEntry) :
    ((live.flatMap IndexedEntry.globSlots).filter fun ge => keep ge.entry) =
      (live.filter keep).flatMap IndexedEntry.globSlots := by
  induction live with
  | nil => rfl
  | cons ie rest inductionHypothesis =>
    rw [List.flatMap_cons, List.filter_append, filter_globSlots, inductionHypothesis,
      List.filter_cons]
    split <;> rfl

/-- Removing a name filters the live records, and with them all three indexes. -/
theorem removeLocked_represents (fs : IndexedFilterSet) (live : List IndexedEntry)
    (rep : Represents fs live) (name : String) :
    Represents (fs.removeLocked name) (live.filter fun ie => ie.entry.name != name) where
  buckets t := by
    simp only [IndexedFilterSet.removeLocked]
    rw [lookup_updateEach_keys _ _ (fun _ => rfl)]
    simp only [compact_eq_filter, rep.buckets, keepBucket_getD, List.filter_filter, Bool.and_comm]
  globs := by
    simp only [IndexedFilterSet.removeLocked, compact_eq_filter, rep.globs]
    exact filter_flatMap_globSlots (fun ie => ie.entry.name != name) live
  wildcards := by
    simp only [IndexedFilterSet.removeLocked, compact_eq_filter, rep.wildcards,
      List.filter_filter, Bool.and_comm]
  names tested := by
    simp only [IndexedFilterSet.removeLocked, Finset.mem_erase, rep.names, List.mem_map,
      List.mem_filter, bne_iff_ne]
    constructor
    · rintro ⟨other, ie, inside, rfl⟩
      exact ⟨ie, ⟨inside, other⟩, rfl⟩
    · rintro ⟨ie, ⟨inside, other⟩, rfl⟩
      exact ⟨other, ie, inside, rfl⟩
  distinctNames := rep.distinctNames.sublist (List.filter_sublist.map _)
  distinctAddresses := rep.distinctAddresses.sublist (List.filter_sublist.map _)
  allocated ie inside := rep.allocated ie (List.mem_of_mem_filter inside)

/-- Filing in terms of a record's own places: the two branches of the source
differ only in what they append to no list. -/
theorem file_eq (fs : IndexedFilterSet) (ie : IndexedEntry) :
    fs.file ie (extractTypeConstraint ie.pred) =
      { fs with
        exactIndex := updateEach (fun _ entries => some (entries.getD [] ++ [ie])) ie.exactTypes
          fs.exactIndex
        globEntries := fs.globEntries ++ ie.globSlots
        wildcardEntries := fs.wildcardEntries ++ [ie].filter IndexedEntry.isWildcard } := by
  unfold IndexedFilterSet.file IndexedEntry.globSlots
  by_cases anything : (extractTypeConstraint ie.pred).unconstrained
  · simp [anything, IndexedEntry.exactTypes, IndexedEntry.globPatterns, IndexedEntry.isWildcard,
      updateEach]
  · simp only [anything, IndexedEntry.exactTypes, IndexedEntry.globPatterns,
      IndexedEntry.isWildcard, List.filter_cons, List.filter_nil, Bool.and_eq_true,
      decide_eq_true_eq, Bool.false_eq_true, if_false]
    split <;> simp

/-- Filing a record under a new name and a new address extends the live records. -/
theorem file_represents (fs : IndexedFilterSet) (live : List IndexedEntry)
    (rep : Represents fs live) (ie : IndexedEntry) (address : ie.address = fs.nextAddress)
    (fresh : ie.entry.name ∉ fs.names) :
    Represents
      (({ fs with
          names := insert ie.entry.name fs.names
          nextAddress := fs.nextAddress + 1 } : IndexedFilterSet).file ie
        (extractTypeConstraint ie.pred))
      (live ++ [ie]) where
  buckets t := by
    simp only [file_eq, lookup_updateEach, rep.buckets, keepBucket_getD, List.filter_append,
      List.filter_cons, List.filter_nil, decide_eq_true_eq]
    split
    · simp [keepBucket]
    · simp
  globs := by
    simp only [file_eq, rep.globs, List.flatMap_append, List.flatMap_cons, List.flatMap_nil,
      List.append_nil]
  wildcards := by
    simp only [file_eq, rep.wildcards, List.filter_append]
  names tested := by
    simp only [file_eq, Finset.mem_insert, rep.names, List.map_append, List.mem_append,
      List.map_cons, List.map_nil, List.mem_singleton]
    exact or_comm
  distinctNames := by
    rw [rep.names] at fresh
    rw [List.map_append, List.nodup_append]
    refine ⟨rep.distinctNames, by simp, ?_⟩
    rintro x inside y isNew rfl
    have same : x = ie.entry.name := by simpa using isNew
    exact fresh (same ▸ inside)
  distinctAddresses := by
    rw [List.map_append, List.nodup_append]
    refine ⟨rep.distinctAddresses, by simp, ?_⟩
    rintro x inside y isNew rfl
    obtain ⟨old, oldInside, rfl⟩ := List.mem_map.1 inside
    have same : old.address = ie.address := by simpa using isNew
    have below := rep.allocated old oldInside
    omega
  allocated old inside := by
    simp only [file_eq]
    rcases List.mem_append.1 inside with before | isNew
    · have below := rep.allocated old before
      omega
    · have same : old = ie := by simpa using isNew
      subst same
      omega

/-- A record is filed for a type when a query on that type looks at it. -/
def IndexedEntry.FiledFor (ie : IndexedEntry) (t : String) : Prop :=
  t ∈ ie.exactTypes ∨ (∃ rx ∈ ie.globPatterns, rx.matchString t = true) ∨ ie.isWildcard = true

/-- A query looks at exactly the live records filed for its type. -/
theorem Represents.mem_candidates {fs : IndexedFilterSet} {live : List IndexedEntry}
    (rep : Represents fs live) (t : String) (ie : IndexedEntry) :
    ie ∈ fs.candidates t ↔ ie ∈ live ∧ ie.FiledFor t := by
  have slots : ie ∈ (fs.globEntries.filter fun ge => ge.rx.matchString t).map (·.entry) ↔
      ie ∈ live ∧ ∃ rx ∈ ie.globPatterns, rx.matchString t = true := by
    simp only [rep.globs, List.mem_map, List.mem_filter, List.mem_flatMap, IndexedEntry.globSlots]
    constructor
    · rintro ⟨ge, ⟨⟨owner, inside, rx, listed, rfl⟩, matched⟩, rfl⟩
      exact ⟨inside, rx, listed, matched⟩
    · rintro ⟨inside, rx, listed, matched⟩
      exact ⟨⟨rx, ie⟩, ⟨⟨ie, inside, rx, listed, rfl⟩, matched⟩, rfl⟩
  rw [IndexedFilterSet.candidates, List.mem_append, List.mem_append, slots, rep.bucket_eq,
    rep.wildcards, List.mem_filter, List.mem_filter, decide_eq_true_eq]
  rw [← and_or_left, ← and_or_left, or_assoc]
  rfl

/-- A record whose predicate matches an event is filed for the event's type. -/
theorem filedFor_of_match (ie : IndexedEntry) (a : Attrs) (matched : ie.pred.matchAttrs a = true) :
    ie.FiledFor (eventType a) := by
  by_cases anything : (extractTypeConstraint ie.pred).unconstrained = true
  · right
    right
    simp [IndexedEntry.isWildcard, IndexedEntry.exactTypes, IndexedEntry.globPatterns, anything]
  · obtain ⟨t, present, listed⟩ :=
      (extractTypeConstraint_admits ie.pred a matched).resolve_left anything
    have same : eventType a = t := by simp [eventType, present]
    rw [same]
    rcases listed with inExact | inGlobs
    · left
      simpa [IndexedEntry.exactTypes, anything] using inExact
    · right
      left
      simpa [IndexedEntry.globPatterns, anything] using inGlobs

/-- A name determines its live record. -/
theorem Represents.determined {fs : IndexedFilterSet} {live : List IndexedEntry}
    (rep : Represents fs live) (x y : IndexedEntry) (xLive : x ∈ live) (yLive : y ∈ live)
    (same : x.entry.name = y.entry.name) : x = y :=
  List.inj_on_of_nodup_map rep.distinctNames xLive yLive same

/-- An unlimited query returns the entries of the live records that match. -/
theorem Represents.mem_matchAttrs {fs : IndexedFilterSet} {live : List IndexedEntry}
    (rep : Represents fs live) (unlimited : fs.maxMatches = 0) (a : Attrs) (entry : FilterEntry) :
    entry ∈ fs.matchAttrs a ↔ ∃ ie ∈ live, ie.entry = entry ∧ ie.pred.matchAttrs a = true := by
  have determined : ∀ x ∈ fs.candidates (eventType a), ∀ y ∈ fs.candidates (eventType a),
      x.entry.name = y.entry.name → x = y := fun x xFound y yFound =>
    rep.determined x y ((rep.mem_candidates _ x).1 xFound).1 ((rep.mem_candidates _ y).1 yFound).1
  rw [fs.matchAttrs_eq_finds unlimited, finds_matchLook]
  simp only [List.mem_map, List.mem_filter,
    mem_firstVisits_iff _ _ _ determined, rep.mem_candidates]
  constructor
  · rintro ⟨ie, ⟨⟨⟨inside, _⟩, _⟩, matched⟩, same⟩
    exact ⟨ie, inside, same, matched⟩
  · rintro ⟨ie, inside, same, matched⟩
    exact ⟨ie, ⟨⟨⟨inside, filedFor_of_match ie a matched⟩, Finset.notMem_empty _⟩, matched⟩, same⟩

/-- An unlimited query returns no name twice. -/
theorem nodup_names_matchAttrs (fs : IndexedFilterSet) (unlimited : fs.maxMatches = 0)
    (a : Attrs) : ((fs.matchAttrs a).map (·.name)).Nodup := by
  rw [fs.matchAttrs_eq_finds unlimited, finds_matchLook, List.map_map]
  exact (nodup_keys_firstVisits _ _ _).sublist (List.filter_sublist.map _)

/-- A record that is not a wildcard has a type or a glob it is filed under. -/
theorem not_isWildcard_iff (ie : IndexedEntry) :
    (!ie.isWildcard) = true ↔ (∃ t, t ∈ ie.exactTypes) ∨ ∃ rx, rx ∈ ie.globPatterns := by
  rw [IndexedEntry.isWildcard, Bool.not_and, Bool.or_eq_true]
  simp only [Bool.not_eq_true', decide_eq_false_iff_not, Finset.card_eq_zero, List.length_eq_zero_iff,
    ← Finset.nonempty_iff_ne_empty, List.eq_nil_iff_forall_not_mem, not_forall, not_not]
  rfl

/-- The records reachable through buckets and globs are those that are not wildcards. -/
theorem Represents.seenAddresses_eq {fs : IndexedFilterSet} {live : List IndexedEntry}
    (rep : Represents fs live) :
    fs.seenAddresses = ((live.filter fun ie => !ie.isWildcard).map (·.address)).toFinset := by
  ext address
  simp only [IndexedFilterSet.seenAddresses, Finset.mem_union, Finset.mem_biUnion,
    List.mem_toFinset, List.mem_map, List.mem_filter, not_isWildcard_iff, rep.bucket_eq, rep.globs,
    List.mem_flatMap, IndexedEntry.globSlots, decide_eq_true_eq]
  constructor
  · rintro (⟨t, _, ie, ⟨inside, filed⟩, rfl⟩ | ⟨ge, ⟨ie, inside, rx, listed, rfl⟩, rfl⟩)
    · exact ⟨ie, ⟨inside, Or.inl ⟨t, filed⟩⟩, rfl⟩
    · exact ⟨ie, ⟨inside, Or.inr ⟨rx, listed⟩⟩, rfl⟩
  · rintro ⟨ie, ⟨inside, ⟨t, filed⟩ | ⟨rx, listed⟩⟩, rfl⟩
    · refine Or.inl ⟨t, ?_, ie, ⟨inside, filed⟩, rfl⟩
      -- A type some live record is filed under has a bucket, so it is among the keys.
      rw [Finmap.mem_keys, ← Finmap.lookup_isSome, rep.buckets]
      have member : ie ∈ live.filter fun ie => t ∈ ie.exactTypes := by simp [inside, filed]
      cases kept : live.filter (fun ie => t ∈ ie.exactTypes) with
      | nil => rw [kept] at member; cases member
      | cons _ _ => rfl
    · exact Or.inr ⟨⟨rx, ie⟩, ⟨ie, inside, rx, listed, rfl⟩, rfl⟩

/-- `Stats` counts every live record once, however many places it is filed under. -/
theorem Represents.stats_total {fs : IndexedFilterSet} {live : List IndexedEntry}
    (rep : Represents fs live) : fs.stats.total = live.length := by
  have distinct : ((live.filter fun ie => !ie.isWildcard).map (·.address)).Nodup :=
    rep.distinctAddresses.sublist (List.filter_sublist.map _)
  rw [IndexedFilterSet.stats, rep.seenAddresses_eq, List.toFinset_card_of_nodup distinct,
    List.length_map, rep.wildcards, Nat.add_comm]
  exact (List.length_eq_length_filter_add IndexedEntry.isWildcard).symm

/-- One call that changes the set. -/
inductive Operation where
  | add (entry : FilterEntry) (expr : String)
  | remove (name : String)

def IndexedFilterSet.apply (unicode : Unicode) (fs : IndexedFilterSet) :
    Operation → IndexedFilterSet
  | .add entry expr => (fs.add unicode entry expr).2
  | .remove name => fs.remove name

/-- The set after a sequence of calls on an empty one. -/
def IndexedFilterSet.run (unicode : Unicode) (operations : List Operation) : IndexedFilterSet :=
  operations.foldl (IndexedFilterSet.apply unicode) {}

/-- What a filter set is for: names mapped to an entry and its predicate. -/
abbrev Registry : Type := FiniteMap String (FilterEntry × Predicate)

/-- A call on the registry. An expression that does not compile changes nothing. -/
def Registry.apply (unicode : Unicode) (registry : Registry) : Operation → Registry
  | .add entry expr =>
      match parse unicode expr with
      | .ok pred => registry.insert entry.name (entry, pred)
      | .error _ => registry
  | .remove name => registry.erase name

def Registry.run (unicode : Unicode) (operations : List Operation) : Registry :=
  operations.foldl (Registry.apply unicode) ∅

/-- The live records are the pairs of the registry. -/
def Agrees (live : List IndexedEntry) (registry : Registry) : Prop :=
  ∀ name entry pred, registry.lookup name = some (entry, pred) ↔
    ∃ ie ∈ live, ie.entry.name = name ∧ ie.entry = entry ∧ ie.pred = pred

/-- The relation between the index and the registry that every call keeps. -/
structure Refines (fs : IndexedFilterSet) (registry : Registry) (live : List IndexedEntry) :
    Prop where
  represents : Represents fs live
  agrees : Agrees live registry
  unlimited : fs.maxMatches = 0

/-- Removing a name from both sides. -/
theorem removeLocked_refines (fs : IndexedFilterSet) (registry : Registry)
    (live : List IndexedEntry) (refines : Refines fs registry live) (name : String) :
    Refines (fs.removeLocked name) (registry.erase name)
      (live.filter fun ie => ie.entry.name != name) := by
  refine ⟨removeLocked_represents fs live refines.represents name, ?_, refines.unlimited⟩
  intro tested entry pred
  by_cases same : tested = name
  · subst tested
    rw [Finmap.lookup_erase]
    refine ⟨nofun, ?_⟩
    rintro ⟨ie, inside, named, _⟩
    simp [named] at inside
  · rw [Finmap.lookup_erase_ne same, refines.agrees]
    constructor
    · rintro ⟨ie, inside, named, rest⟩
      exact ⟨ie, by simp [inside, named, same], named, rest⟩
    · rintro ⟨ie, inside, rest⟩
      exact ⟨ie, List.mem_of_mem_filter inside, rest⟩

/-- Registering under a name no live record has. -/
theorem file_refines (fs : IndexedFilterSet) (registry : Registry) (live : List IndexedEntry)
    (refines : Refines fs registry live) (entry : FilterEntry) (pred : Predicate)
    (fresh : entry.name ∉ fs.names) :
    Refines
      (({ fs with
          names := insert entry.name fs.names
          nextAddress := fs.nextAddress + 1 } : IndexedFilterSet).file
        ⟨fs.nextAddress, entry, pred⟩ (extractTypeConstraint pred))
      (registry.insert entry.name (entry, pred)) (live ++ [⟨fs.nextAddress, entry, pred⟩]) := by
  refine ⟨file_represents fs live refines.represents ⟨fs.nextAddress, entry, pred⟩ rfl fresh,
    ?_, ?_⟩
  · intro tested found foundPred
    have unnamed : ∀ ie ∈ live, ie.entry.name ≠ entry.name := fun ie inside same =>
      fresh ((refines.represents.names _).2 (List.mem_map.2 ⟨ie, inside, same⟩))
    by_cases same : tested = entry.name
    · subst tested
      rw [Finmap.lookup_insert]
      constructor
      · intro registered
        obtain ⟨rfl, rfl⟩ := Prod.mk.inj (Option.some.inj registered)
        exact ⟨⟨fs.nextAddress, entry, pred⟩, by simp, rfl, rfl, rfl⟩
      · rintro ⟨ie, inside, named, rfl, rfl⟩
        rcases List.mem_append.1 inside with before | isNew
        · exact absurd named (unnamed ie before)
        · obtain rfl : ie = ⟨fs.nextAddress, entry, pred⟩ := by simpa using isNew
          rfl
    · rw [Finmap.lookup_insert_of_ne registry same, refines.agrees]
      constructor
      · rintro ⟨ie, inside, rest⟩
        exact ⟨ie, List.mem_append_left _ inside, rest⟩
      · rintro ⟨ie, inside, named, rest⟩
        rcases List.mem_append.1 inside with before | isNew
        · exact ⟨ie, before, named, rest⟩
        · obtain rfl : ie = ⟨fs.nextAddress, entry, pred⟩ := by simpa using isNew
          exact absurd named.symm same
  · rw [file_eq]
    exact refines.unlimited

/-- Clearing a name before it is registered again: afterwards no record has it, and
registering it makes the registry forget whether it was cleared. -/
theorem add_refines (unicode : Unicode) (fs : IndexedFilterSet) (registry : Registry)
    (live : List IndexedEntry) (refines : Refines fs registry live) (entry : FilterEntry)
    (expr : String) :
    ∃ live', Refines (fs.add unicode entry expr).2
      (Registry.apply unicode registry (.add entry expr)) live' := by
  cases compiled : parse unicode expr with
  | error err =>
    simp only [IndexedFilterSet.add, Registry.apply, compiled]
    exact ⟨live, refines⟩
  | ok pred =>
    simp only [IndexedFilterSet.add, Registry.apply, compiled]
    by_cases known : entry.name ∈ fs.names
    · have cleared := removeLocked_refines fs registry live refines entry.name
      have filed := file_refines _ _ _ cleared entry pred
        (by simp [IndexedFilterSet.removeLocked])
      rw [insert_erase_self] at filed
      simp only [known, if_true]
      exact ⟨_, filed⟩
    · simp only [known, if_false]
      exact ⟨_, file_refines fs registry live refines entry pred known⟩

/-- Every sequence of calls keeps the index a rendering of the registry. -/
theorem run_refines (unicode : Unicode) (operations : List Operation) :
    ∃ live, Refines (IndexedFilterSet.run unicode operations)
      (Registry.run unicode operations) live := by
  induction operations using List.reverseRecOn with
  | nil => exact ⟨[], empty_represents, by simp [Agrees, Registry.run], rfl⟩
  | append_singleton before operation inductionHypothesis =>
    obtain ⟨live, refines⟩ := inductionHypothesis
    simp only [IndexedFilterSet.run, Registry.run, List.foldl_append, List.foldl_cons,
      List.foldl_nil]
    cases operation with
    | add entry expr => exact add_refines unicode _ _ live refines entry expr
    | remove name => exact ⟨_, removeLocked_refines _ _ live refines name⟩

/-- A call that ends the life of a filter: a successful `add` under its name, or a
`remove` of that name. -/
def Operation.Ends (unicode : Unicode) (name : String) : Operation → Prop
  | .add entry expr => entry.name = name ∧ ∃ pred, parse unicode expr = .ok pred
  | .remove removed => removed = name

/-- A filter that was the last one successfully added under its name and has not
been removed since. -/
def Live (unicode : Unicode) (operations : List Operation) (entry : FilterEntry)
    (pred : Predicate) : Prop :=
  ∃ before expr after, operations = before ++ .add entry expr :: after ∧
    parse unicode expr = .ok pred ∧ ∀ operation ∈ after, ¬ operation.Ends unicode entry.name

/-- What one more call does to the live filters. -/
theorem live_append_singleton (unicode : Unicode) (operations : List Operation)
    (operation : Operation) (entry : FilterEntry) (pred : Predicate) :
    Live unicode (operations ++ [operation]) entry pred ↔
      (∃ expr, operation = .add entry expr ∧ parse unicode expr = .ok pred) ∨
        Live unicode operations entry pred ∧ ¬ operation.Ends unicode entry.name := by
  constructor
  · rintro ⟨before, expr, after, split, compiled, kept⟩
    rcases (append_singleton_eq_append_cons_iff _ _ _ _ _).1 split with
      ⟨_, same, _⟩ | ⟨earlier, same, rfl⟩
    · exact Or.inl ⟨expr, same, compiled⟩
    · refine Or.inr ⟨⟨before, expr, earlier, same, compiled, ?_⟩, kept operation (by simp)⟩
      exact fun other inside => kept other (by simp [inside])
  · rintro (⟨expr, rfl, compiled⟩ | ⟨⟨before, expr, after, rfl, compiled, kept⟩, last⟩)
    · exact ⟨operations, expr, [], rfl, compiled, by simp⟩
    · refine ⟨before, expr, after ++ [operation], by simp, compiled, ?_⟩
      intro other inside
      rcases List.mem_append.1 inside with earlier | isLast
      · exact kept other earlier
      · obtain rfl : other = operation := by simpa using isLast
        exact last

/-- A call on the registry, seen at one name: it writes a new filter there, or it
leaves what was there unless it ends it. -/
theorem registry_apply_lookup (unicode : Unicode) (registry : Registry) (operation : Operation)
    (name : String) (entry : FilterEntry) (pred : Predicate) :
    (Registry.apply unicode registry operation).lookup name = some (entry, pred) ↔
      (entry.name = name ∧ ∃ expr, operation = .add entry expr ∧ parse unicode expr = .ok pred) ∨
        registry.lookup name = some (entry, pred) ∧ ¬ operation.Ends unicode name := by
  cases operation with
  | add added expr =>
    cases compiled : parse unicode expr with
    | error err => simp [Registry.apply, Operation.Ends, compiled]
    | ok addedPred =>
      simp only [Registry.apply, compiled]
      by_cases same : added.name = name
      · subst name
        rw [Finmap.lookup_insert]
        simp only [Operation.Ends, compiled, Option.some.injEq, Prod.mk.injEq, Operation.add.injEq]
        constructor
        · rintro ⟨rfl, rfl⟩
          exact Or.inl ⟨rfl, expr, ⟨rfl, rfl⟩, compiled⟩
        · rintro (⟨_, _, ⟨rfl, rfl⟩, again⟩ | ⟨_, untouched⟩)
          · exact ⟨rfl, Except.ok.inj (compiled.symm.trans again)⟩
          · simp at untouched
      · rw [Finmap.lookup_insert_of_ne _ (Ne.symm same)]
        simp only [Operation.Ends, same, false_and, not_false_eq_true, and_true,
          Operation.add.injEq]
        refine ⟨Or.inr, ?_⟩
        rintro (⟨named, _, ⟨rfl, _⟩, _⟩ | kept)
        · exact absurd named same
        · exact kept
  | remove removed =>
    by_cases same : removed = name
    · subst name
      simp [Registry.apply, Operation.Ends]
    · simp [Registry.apply, Operation.Ends, same, Finmap.lookup_erase_ne (Ne.symm same)]

/-- The registry holds exactly the live filters. -/
theorem registry_lookup_iff (unicode : Unicode) (operations : List Operation) (name : String)
    (entry : FilterEntry) (pred : Predicate) :
    (Registry.run unicode operations).lookup name = some (entry, pred) ↔
      entry.name = name ∧ Live unicode operations entry pred := by
  induction operations using List.reverseRecOn with
  | nil => simp [Registry.run, Live]
  | append_singleton before operation inductionHypothesis =>
    have unfolded : Registry.run unicode (before ++ [operation]) =
        Registry.apply unicode (Registry.run unicode before) operation := by
      simp [Registry.run]
    rw [unfolded, live_append_singleton, registry_apply_lookup, inductionHypothesis]
    constructor
    · rintro (⟨rfl, added⟩ | ⟨⟨rfl, live⟩, untouched⟩)
      · exact ⟨rfl, Or.inl added⟩
      · exact ⟨rfl, Or.inr ⟨live, untouched⟩⟩
    · rintro ⟨rfl, added | ⟨live, untouched⟩⟩
      · exact Or.inl ⟨rfl, added⟩
      · exact Or.inr ⟨⟨rfl, live⟩, untouched⟩

/-- After a history of calls the records are the live filters. -/
theorem Refines.mem_live_iff {unicode : Unicode} {operations : List Operation}
    {fs : IndexedFilterSet} {live : List IndexedEntry}
    (refines : Refines fs (Registry.run unicode operations) live) (entry : FilterEntry)
    (pred : Predicate) :
    (∃ ie ∈ live, ie.entry = entry ∧ ie.pred = pred) ↔ Live unicode operations entry pred := by
  have registered := registry_lookup_iff unicode operations entry.name entry pred
  rw [refines.agrees] at registered
  constructor
  · rintro ⟨ie, inside, rfl, rfl⟩
    exact (registered.1 ⟨ie, inside, rfl, rfl, rfl⟩).2
  · intro isLive
    obtain ⟨ie, inside, _, same⟩ := registered.2 ⟨rfl, isLive⟩
    exact ⟨ie, inside, same⟩

/-- The names of the registry are those of the live records. -/
theorem Refines.card_keys {fs : IndexedFilterSet} {registry : Registry}
    {live : List IndexedEntry} (refines : Refines fs registry live) :
    registry.keys.card = live.length := by
  have same : registry.keys = (live.map (·.entry.name)).toFinset := by
    ext name
    rw [Finmap.mem_keys, Finmap.mem_iff, List.mem_toFinset, List.mem_map]
    constructor
    · rintro ⟨⟨entry, pred⟩, registered⟩
      obtain ⟨ie, inside, named, _⟩ := (refines.agrees name entry pred).1 registered
      exact ⟨ie, inside, named⟩
    · rintro ⟨ie, inside, named⟩
      exact ⟨(ie.entry, ie.pred), (refines.agrees name _ _).2 ⟨ie, inside, named, rfl, rfl⟩⟩
  rw [same, List.toFinset_card_of_nodup refines.represents.distinctNames, List.length_map]

/-- An `add` whose expression does not compile reports an error and leaves the set as it was. -/
theorem add_invalid (unicode : Unicode) (fs : IndexedFilterSet) (entry : FilterEntry)
    (expr : String) (err : ParseError) (invalid : parse unicode expr = .error err) :
    fs.add unicode entry expr = (.error (addError unicode entry.name err), fs) := by
  simp [IndexedFilterSet.add, invalid]

/-- The index is a faithful rendering of the registry. After any sequence of calls
on an empty unlimited set, a query returns exactly the entries of the live filters
whose predicate is true, each once; the statistics count the live names; and an
`add` whose expression does not compile returns an error and leaves the same set
as if it had not been made. -/
theorem index_refines_registry (unicode : Unicode) (operations : List Operation) :
    (∀ name entry pred, (Registry.run unicode operations).lookup name = some (entry, pred) ↔
      entry.name = name ∧ Live unicode operations entry pred) ∧
    (∀ a entry, entry ∈ (IndexedFilterSet.run unicode operations).matchAttrs a ↔
      ∃ pred, Live unicode operations entry pred ∧ pred.matchAttrs a = true) ∧
    (∀ a, ((IndexedFilterSet.run unicode operations).matchAttrs a).Nodup) ∧
    (IndexedFilterSet.run unicode operations).stats.total =
      (Registry.run unicode operations).keys.card ∧
    (∀ before entry expr after err, operations = before ++ .add entry expr :: after →
      parse unicode expr = .error err →
      ((IndexedFilterSet.run unicode before).add unicode entry expr).1 =
        .error (addError unicode entry.name err) ∧
      IndexedFilterSet.run unicode operations =
        IndexedFilterSet.run unicode (before ++ after)) := by
  obtain ⟨live, refines⟩ := run_refines unicode operations
  refine ⟨registry_lookup_iff unicode operations, ?_, ?_, ?_, ?_⟩
  · intro a entry
    rw [refines.represents.mem_matchAttrs refines.unlimited]
    constructor
    · rintro ⟨ie, inside, rfl, matched⟩
      exact ⟨ie.pred, (refines.mem_live_iff _ _).1 ⟨ie, inside, rfl, rfl⟩, matched⟩
    · rintro ⟨pred, isLive, matched⟩
      obtain ⟨ie, inside, rfl, rfl⟩ := (refines.mem_live_iff entry pred).2 isLive
      exact ⟨ie, inside, rfl, matched⟩
  · intro a
    exact (nodup_names_matchAttrs _ refines.unlimited a).of_map _
  · rw [refines.represents.stats_total, refines.card_keys]
  · intro before entry expr after err split invalid
    have unchanged :=
      add_invalid unicode (IndexedFilterSet.run unicode before) entry expr err invalid
    refine ⟨by rw [unchanged], ?_⟩
    subst split
    simp only [IndexedFilterSet.run, List.foldl_append, List.foldl_cons, IndexedFilterSet.apply]
    exact congrArg (fun fs => after.foldl (IndexedFilterSet.apply unicode) fs)
      (congrArg Prod.snd unchanged)

/-- A rule replaced under its name no longer matches, and the new one is found
through the bucket of its type. -/
example :
    ((IndexedFilterSet.run asciiTables
        [.add ⟨"rule", "old", ∅⟩ "NOT type = \"a\"", .add ⟨"rule", "new", ∅⟩ "type = \"b\"",
          .add ⟨"rule", "bad", ∅⟩ "type ="]).matchAttrs
      (Finmap.singleton "type" "b")).map (·.hint) = ["new"] := by
  decide +kernel

end FluffyCore.CeFilter
