import FluffyCore.CeFilter.IndexRefinement

/-!
# The plain filter set

The unindexed set keeps its filters in a slice and scans all of it. `Add` appends, so a
name added twice has two filters, and `Remove` drops both. A filter set can be read off a
history of calls: the filters of a name are those added since its last `Remove`, and the
last of them is the live one.
-/

namespace FluffyCore.CeFilter

open Library.Compaction Library.FirstVisits Library.LastWrites Library.QuotedText

structure NamedFilter where
  entry : FilterEntry
  pred : Predicate

structure FilterSet where
  maxMatches : Int := 0
  filters : List NamedFilter := []

/-- Compile and register an expression. -/
def FilterSet.add (unicode : Unicode) (fs : FilterSet) (entry : FilterEntry) (expr : String) :
    Except ParseError Unit × FilterSet :=
  match parse unicode expr with
  | .error err => (.error (addError unicode entry.name err), fs)
  | .ok pred => (.ok (), { fs with filters := fs.filters ++ [⟨entry, pred⟩] })

/-- The slice is compacted in place. -/
def FilterSet.remove (fs : FilterSet) (name : String) : FilterSet :=
  { fs with filters := compact (fun f => f.entry.name != name) fs.filters }

/-- The loop of `Match`, with the argument of the call to `OnLimitExceeded` if it made one. -/
def matchLoop (maxMatches : Int) (a : Attrs) (matched : List FilterEntry) :
    List NamedFilter → List FilterEntry × Option Nat
  | [] => (matched, none)
  | f :: rest =>
      if f.pred.matchAttrs a then
        let matched := matched ++ [f.entry]
        if maxMatches > 0 ∧ maxMatches ≤ matched.length then (matched, some matched.length)
        else matchLoop maxMatches a matched rest
      else matchLoop maxMatches a matched rest

def FilterSet.matchAttrs (fs : FilterSet) (a : Attrs) : List FilterEntry :=
  (matchLoop fs.maxMatches a [] fs.filters).1

/-- `MatchAny` returns at the first filter that matches. -/
def FilterSet.matchAny (fs : FilterSet) (a : Attrs) : Bool :=
  fs.filters.any fun f => f.pred.matchAttrs a

/-- The loop of `MatchEndpoints`, with the argument of the call to `OnLimitExceeded` if it
made one. -/
def endpointLoop (maxMatches : Int) (a : Attrs) (seen : Finset String) (endpoints : List String) :
    List NamedFilter → List String × Option Nat
  | [] => (endpoints, none)
  | f :: rest =>
      if f.pred.matchAttrs a then
        let hint := f.entry.hint
        if hint = "" then endpointLoop maxMatches a seen endpoints rest
        else if hint ∈ seen then endpointLoop maxMatches a seen endpoints rest
        else
          let endpoints := endpoints ++ [hint]
          if maxMatches > 0 ∧ maxMatches ≤ endpoints.length then
            (endpoints, some endpoints.length)
          else endpointLoop maxMatches a (insert hint seen) endpoints rest
      else endpointLoop maxMatches a seen endpoints rest

def FilterSet.matchEndpoints (fs : FilterSet) (a : Attrs) : List String :=
  (endpointLoop fs.maxMatches a ∅ [] fs.filters).1

def FilterSet.apply (unicode : Unicode) (fs : FilterSet) : Operation → FilterSet
  | .add entry expr => (fs.add unicode entry expr).2
  | .remove name => fs.remove name

/-- The set after a sequence of calls on an empty one. -/
def FilterSet.run (unicode : Unicode) (operations : List Operation) : FilterSet :=
  operations.foldl (FilterSet.apply unicode) {}

/-- Without a limit the scan collects every filter that matches, in order. -/
theorem matchLoop_unlimited (a : Attrs) (filters : List NamedFilter) (matched : List FilterEntry) :
    (matchLoop 0 a matched filters).1 =
      matched ++ (filters.filter fun f => f.pred.matchAttrs a).map (·.entry) := by
  induction filters generalizing matched with
  | nil => simp [matchLoop]
  | cons f rest inductionHypothesis =>
    by_cases holds : f.pred.matchAttrs a = true <;>
      simp [matchLoop, holds, inductionHypothesis]

/-- Without a limit the scan collects every hint of a filter that matches. -/
theorem mem_endpointLoop_unlimited (a : Attrs) (hint : String) (filters : List NamedFilter)
    (seen : Finset String) (endpoints : List String) :
    hint ∈ (endpointLoop 0 a seen endpoints filters).1 ↔ hint ∈ endpoints ∨
      (hint ≠ "" ∧ hint ∉ seen ∧
        ∃ f ∈ filters, f.pred.matchAttrs a = true ∧ f.entry.hint = hint) := by
  induction filters generalizing seen endpoints with
  | nil => simp [endpointLoop]
  | cons f rest inductionHypothesis =>
    by_cases holds : f.pred.matchAttrs a = true
    · by_cases blank : f.entry.hint = ""
      · simp only [endpointLoop, holds, blank, if_true, inductionHypothesis]
        grind
      · by_cases known : f.entry.hint ∈ seen
        · simp only [endpointLoop, holds, blank, known, if_true, if_false, inductionHypothesis]
          grind
        · simp only [endpointLoop, holds, blank, known, if_true, if_false, gt_iff_lt, lt_irrefl,
            false_and, inductionHypothesis]
          grind
    · simp only [endpointLoop, holds, Bool.false_eq_true, if_false, inductionHypothesis]
      grind

/-- The last operation of a history acts on what the ones before it left. -/
@[simp]
theorem FilterSet.run_append_singleton (unicode : Unicode) (operations : List Operation)
    (operation : Operation) :
    FilterSet.run unicode (operations ++ [operation]) =
      (FilterSet.run unicode operations).apply unicode operation := by
  simp [FilterSet.run]

/-- No call changes the limit. -/
theorem FilterSet.run_maxMatches (unicode : Unicode) (operations : List Operation) :
    (FilterSet.run unicode operations).maxMatches = 0 := by
  induction operations using List.reverseRecOn with
  | nil => rfl
  | append_singleton before operation inductionHypothesis =>
    rw [FilterSet.run_append_singleton]
    cases operation with
    | add entry expr =>
      cases compiled : parse unicode expr <;>
        simpa [FilterSet.apply, FilterSet.add, compiled] using inductionHypothesis
    | remove name => simpa [FilterSet.apply, FilterSet.remove] using inductionHypothesis

/-- The name is the key a filter is written under. -/
def NamedFilter.name (f : NamedFilter) : String := f.entry.name

/-- An `add` whose expression does not compile changes nothing. -/
theorem apply_add_invalid (unicode : Unicode) (fs : FilterSet) (entry : FilterEntry)
    (expr : String) (err : ParseError) (invalid : parse unicode expr = .error err) :
    fs.apply unicode (.add entry expr) = fs := by
  simp [FilterSet.apply, FilterSet.add, invalid]

/-- Any other `add` appends, whatever is registered under the name. -/
theorem filters_apply_add (unicode : Unicode) (fs : FilterSet) (entry : FilterEntry)
    (expr : String) (pred : Predicate) (compiled : parse unicode expr = .ok pred) :
    (fs.apply unicode (.add entry expr)).filters = fs.filters ++ [⟨entry, pred⟩] := by
  simp [FilterSet.apply, FilterSet.add, compiled]

/-- A `remove` drops every filter of the name. -/
theorem filters_apply_remove (unicode : Unicode) (fs : FilterSet) (name : String) :
    (fs.apply unicode (.remove name)).filters = fs.filters.filter fun f => f.name != name :=
  compact_eq_filter _ _

/-- The last filters added under their names are the live ones. -/
theorem mem_lastWrites_run (unicode : Unicode) (operations : List Operation) (f : NamedFilter) :
    f ∈ lastWrites NamedFilter.name (FilterSet.run unicode operations).filters ↔
      Live unicode operations f.entry f.pred := by
  induction operations using List.reverseRecOn with
  | nil => simp [FilterSet.run, lastWrites, Live]
  | append_singleton before operation inductionHypothesis =>
    rw [FilterSet.run_append_singleton, live_append_singleton, ← inductionHypothesis]
    cases operation with
    | add entry expr =>
      cases compiled : parse unicode expr with
      | error err =>
        rw [apply_add_invalid _ _ _ _ err compiled]
        grind [Operation.Ends]
      | ok pred =>
        have added : (∃ other, Operation.add entry expr = .add f.entry other ∧
            parse unicode other = .ok f.pred) ↔ f = ⟨entry, pred⟩ := by
          cases f
          grind
        have kept : (Operation.add entry expr).Ends unicode f.entry.name ↔
            entry.name = f.entry.name := by simp [Operation.Ends, compiled]
        rw [filters_apply_add _ _ _ _ pred compiled, lastWrites_append_singleton, List.mem_append,
          List.mem_filter, List.mem_singleton, added, kept, or_comm]
        simp only [NamedFilter.name, ne_eq, decide_eq_true_eq, @eq_comm _ f.entry.name]
    | remove name =>
      rw [filters_apply_remove, lastWrites_filter NamedFilter.name (· != name), List.mem_filter]
      simp only [Operation.Ends, NamedFilter.name, bne_iff_ne, reduceCtorEq, false_and,
        exists_false, false_or, ne_eq, @eq_comm _ name]

/-- A filter that was added, then added again under its name, and not removed since it was
first added. -/
def Superseded (unicode : Unicode) (operations : List Operation) (entry : FilterEntry)
    (pred : Predicate) : Prop :=
  ∃ before expr after, operations = before ++ .add entry expr :: after ∧
    parse unicode expr = .ok pred ∧
    (∃ operation ∈ after, operation.Ends unicode entry.name) ∧ .remove entry.name ∉ after

/-- What one more call does to the superseded filters: a successful `add` supersedes the
live filter of its name. -/
theorem superseded_append_singleton (unicode : Unicode) (operations : List Operation)
    (operation : Operation) (entry : FilterEntry) (pred : Predicate) :
    Superseded unicode (operations ++ [operation]) entry pred ↔
      operation ≠ .remove entry.name ∧ (Superseded unicode operations entry pred ∨
        Live unicode operations entry pred ∧ operation.Ends unicode entry.name) := by
  constructor
  · rintro ⟨before, expr, after, split, compiled, ⟨ending, inside, ends⟩, unremoved⟩
    rcases (append_singleton_eq_append_cons_iff _ _ _ _ _).1 split with
      ⟨_, _, rfl⟩ | ⟨earlier, rfl, rfl⟩
    · cases inside
    · rw [List.mem_append, not_or, List.mem_singleton] at unremoved
      refine ⟨Ne.symm unremoved.2, ?_⟩
      by_cases already : ∃ other ∈ earlier, other.Ends unicode entry.name
      · exact Or.inl ⟨before, expr, earlier, rfl, compiled, already, unremoved.1⟩
      · push Not at already
        have isLast : ending = operation := by
          rcases List.mem_append.1 inside with before | isLast
          · exact absurd ends (already ending before)
          · exact List.mem_singleton.1 isLast
        exact Or.inr ⟨⟨before, expr, earlier, rfl, compiled, already⟩, isLast ▸ ends⟩
  · rintro ⟨notRemoved, ⟨before, expr, after, rfl, compiled, ⟨ending, inside, ends⟩, unremoved⟩ |
      ⟨⟨before, expr, after, rfl, compiled, kept⟩, ends⟩⟩
    · refine ⟨before, expr, after ++ [operation], by simp, compiled,
        ⟨ending, List.mem_append_left _ inside, ends⟩, ?_⟩
      simp [unremoved, Ne.symm notRemoved]
    · refine ⟨before, expr, after ++ [operation], by simp, compiled,
        ⟨operation, by simp, ends⟩, ?_⟩
      have unremoved : Operation.remove entry.name ∉ after := fun inside => kept _ inside rfl
      simp [unremoved, Ne.symm notRemoved]

/-- The filters that a later one of their name shadows are the superseded ones. -/
theorem mem_overwritten_run (unicode : Unicode) (operations : List Operation) (f : NamedFilter) :
    f ∈ overwritten NamedFilter.name (FilterSet.run unicode operations).filters ↔
      Superseded unicode operations f.entry f.pred := by
  induction operations using List.reverseRecOn with
  | nil => simp [FilterSet.run, overwritten, Superseded]
  | append_singleton before operation inductionHypothesis =>
    rw [FilterSet.run_append_singleton, superseded_append_singleton, ← inductionHypothesis,
      ← mem_lastWrites_run]
    cases operation with
    | add entry expr =>
      cases compiled : parse unicode expr with
      | error err =>
        rw [apply_add_invalid _ _ _ _ err compiled]
        simp [Operation.Ends, compiled]
      | ok pred =>
        rw [filters_apply_add _ _ _ _ pred compiled, mem_overwritten_append_singleton]
        simp [Operation.Ends, compiled, NamedFilter.name, @eq_comm _ f.entry.name]
    | remove name =>
      rw [filters_apply_remove, overwritten_filter NamedFilter.name (· != name), List.mem_filter]
      simp only [Operation.Ends, NamedFilter.name, bne_iff_ne, ne_eq, Operation.remove.injEq]
      grind

end FluffyCore.CeFilter
