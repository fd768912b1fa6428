import Mathlib.Data.Finmap

/-!
# Loops over the keys of a finite map

A loop over a map visits its keys in an order that is not specified. When the
body reads and writes only the entry of the visited key, any two visits commute,
so the loop is a fold that needs no order at all. The result is then given key by
key: a visited key holds what the body makes of its entry, any other key is
untouched.

A loop that files values under other keys is different: the values of one key stand
in the order of the visits.
-/

namespace FluffyCore.Library.MapLoop

universe u v

/-- A finite map with one value type. -/
abbrev FiniteMap (α : Type u) (β : Type v) : Type (max u v) := Finmap (fun _ : α => β)

variable {α : Type u} {β : Type v} [DecidableEq α]

/-- An order in which a loop may visit the keys of a map: each key once. -/
def IterationOrder (entries : FiniteMap α β) (order : List α) : Prop :=
  order.Nodup ∧ ∀ key, key ∈ order ↔ key ∈ entries

omit [DecidableEq α] in
/-- Every map can be visited. -/
theorem exists_iterationOrder (entries : FiniteMap α β) : ∃ order, IterationOrder entries order :=
  ⟨entries.keys.toList, entries.keys.nodup_toList, fun key => by
    rw [Finset.mem_toList, Finmap.mem_keys]⟩

/-- A map with two keys can be visited in both orders. -/
theorem iterationOrder_pair {first second : α} (different : first ≠ second) (x y : β) :
    IterationOrder ((Finmap.singleton first x).insert second y : FiniteMap α β) [first, second] ∧
      IterationOrder ((Finmap.singleton first x).insert second y : FiniteMap α β)
        [second, first] := by
  have keys (key : α) :
      key ∈ ((Finmap.singleton first x).insert second y : FiniteMap α β) ↔
        key = second ∨ key = first := by
    rw [Finmap.mem_insert, Finmap.mem_singleton]
  refine ⟨⟨by simpa using different, fun key => ?_⟩, ⟨by simpa using different.symm, fun key => ?_⟩⟩
  · rw [keys]
    simp [or_comm]
  · rw [keys]
    simp

/-- A map with one key holds the value of that key only. -/
theorem lookup_single {key tested : α} {value inner : β}
    (found : (Finmap.singleton key value : FiniteMap α β).lookup tested = some inner) :
    tested = key ∧ inner = value := by
  by_cases same : tested = key
  · subst same
    rw [Finmap.lookup_singleton_eq, Option.some.injEq] at found
    exact ⟨rfl, found.symm⟩
  · rw [Finmap.lookup_eq_none.2 (by rwa [Finmap.mem_singleton])] at found
    cases found

/-- A map with two keys holds the values of these keys only. -/
theorem lookup_pair {first second tested : α} {x y inner : β}
    (found : ((Finmap.singleton first x).insert second y : FiniteMap α β).lookup tested =
      some inner) :
    (tested = first ∧ inner = x) ∨ (tested = second ∧ inner = y) := by
  by_cases same : tested = second
  · subst same
    rw [Finmap.lookup_insert, Option.some.injEq] at found
    exact Or.inr ⟨rfl, found.symm⟩
  · rw [Finmap.lookup_insert_of_ne _ same] at found
    exact Or.inl (lookup_single found)

/-- Erasing a key before inserting it makes no difference. -/
theorem insert_erase_self (entries : FiniteMap α β) (key : α) (value : β) :
    (entries.erase key).insert key value = entries.insert key value := by
  apply Finmap.ext_lookup
  intro tested
  by_cases same : tested = key
  · subst tested
    simp
  · rw [Finmap.lookup_insert_of_ne _ same, Finmap.lookup_insert_of_ne _ same,
      Finmap.lookup_erase_ne same]

/-- Rewrite the entry of one key; no result removes the key. -/
def update (body : Option β → Option β) (key : α) (entries : FiniteMap α β) : FiniteMap α β :=
  match body (entries.lookup key) with
  | some value => entries.insert key value
  | none => entries.erase key

/-- An update is seen at its own key only. -/
theorem lookup_update (body : Option β → Option β) (key tested : α) (entries : FiniteMap α β) :
    (update body key entries).lookup tested =
      if tested = key then body (entries.lookup key) else entries.lookup tested := by
  by_cases same : tested = key
  · subst tested
    cases result : body (entries.lookup key) <;> simp [update, result]
  · cases result : body (entries.lookup key) with
    | none => simp [update, result, same, Finmap.lookup_erase_ne same]
    | some value => simp [update, result, same, Finmap.lookup_insert_of_ne entries same]

/-- Updates whose body depends only on the visited key commute. -/
instance update_commutes (body : α → Option β → Option β) :
    LeftCommutative (fun key (entries : FiniteMap α β) => update (body key) key entries) where
  left_comm first second entries := by
    by_cases same : first = second
    · rw [same]
    · apply Finmap.ext_lookup
      intro tested
      simp only [lookup_update]
      by_cases atFirst : tested = first
      · subst tested
        simp [same]
      · simp [atFirst, Ne.symm same]

/-- Visit each key of a set once, in no particular order. -/
def updateEach (body : α → Option β → Option β) (visited : Finset α) (entries : FiniteMap α β) :
    FiniteMap α β :=
  visited.val.foldr (fun key current => update (body key) key current) entries

/-- The loop over a set with one more key runs the body once more. -/
theorem updateEach_insert (body : α → Option β → Option β) (visited : Finset α) (key : α)
    (fresh : key ∉ visited) (entries : FiniteMap α β) :
    updateEach body (insert key visited) entries =
      update (body key) key (updateEach body visited entries) := by
  rw [updateEach, Finset.insert_val_of_notMem fresh, Multiset.foldr_cons]
  rfl

/-- After the loop a visited key holds the body's result on its own entry. -/
theorem lookup_updateEach (body : α → Option β → Option β) (visited : Finset α)
    (entries : FiniteMap α β) (tested : α) :
    (updateEach body visited entries).lookup tested =
      if tested ∈ visited then body tested (entries.lookup tested)
      else entries.lookup tested := by
  induction visited using Finset.induction_on with
  | empty => rfl
  | insert key visited fresh inductionHypothesis =>
    rw [updateEach_insert body visited key fresh, lookup_update]
    by_cases same : tested = key
    · subst tested
      simp [inductionHypothesis, fresh]
    · simp [same, inductionHypothesis]

/-- A loop over all keys whose body creates no entry acts on every entry. -/
theorem lookup_updateEach_keys (body : α → Option β → Option β) (entries : FiniteMap α β)
    (creates : ∀ key, body key none = none) (tested : α) :
    (updateEach body entries.keys entries).lookup tested = body tested (entries.lookup tested) := by
  rw [lookup_updateEach]
  split
  · rfl
  · next absent =>
    have missing : entries.lookup tested = none :=
      Finmap.lookup_eq_none.2 fun inside => absent (Finmap.mem_keys.2 inside)
    rw [missing, creates]

variable {γ : Type u} [DecidableEq γ]

/-- Append a value for each visited key to the list of the key it is filed under. -/
def appendEach (target : α → γ) (value : α → β) (order : List α) (entries : FiniteMap γ (List β)) :
    FiniteMap γ (List β) :=
  order.foldl (fun current key =>
    update (fun values => some (values.getD [] ++ [value key])) (target key) current) entries

omit [DecidableEq α] in
/-- A list grows by the values of the keys filed under it, in the order of the visits. -/
theorem lookup_appendEach (target : α → γ) (value : α → β) (order : List α)
    (entries : FiniteMap γ (List β)) (tested : γ) :
    ((appendEach target value order entries).lookup tested).getD [] =
      (entries.lookup tested).getD [] ++ (order.filter (target · = tested)).map value := by
  induction order generalizing entries with
  | nil => simp [appendEach]
  | cons key rest inductionHypothesis =>
    rw [appendEach, List.foldl_cons, ← appendEach, inductionHypothesis, lookup_update]
    by_cases same : target key = tested
    · subst same
      simp
    · simp [same, Ne.symm same]

omit [DecidableEq α] in
/-- The keys of the result are the old ones and those something was filed under. -/
theorem mem_appendEach (target : α → γ) (value : α → β) (order : List α)
    (entries : FiniteMap γ (List β)) (tested : γ) :
    tested ∈ appendEach target value order entries ↔
      tested ∈ entries ∨ ∃ key ∈ order, target key = tested := by
  induction order generalizing entries with
  | nil => simp [appendEach]
  | cons key rest inductionHypothesis =>
    rw [appendEach, List.foldl_cons, ← appendEach, inductionHypothesis]
    have updated : tested ∈ update (fun values => some (values.getD [] ++ [value key])) (target key)
        entries ↔ tested = target key ∨ tested ∈ entries := Finmap.mem_insert
    rw [updated, List.exists_mem_cons_iff, or_assoc, or_left_comm, @eq_comm _ tested]

omit [DecidableEq α] in
/-- In an order of distinct keys a key that alone satisfies a test is all that is left. -/
theorem filter_eq_singleton (order : List α) (distinct : order.Nodup) (test : α → Bool) (key : α)
    (alone : ∀ tested, tested ∈ order ∧ test tested = true ↔ tested = key) :
    order.filter test = [key] := by
  rw [← List.perm_singleton, List.perm_ext_iff_of_nodup (distinct.filter test)
    (List.nodup_singleton key)]
  intro tested
  rw [List.mem_filter, List.mem_singleton]
  exact alone tested

end FluffyCore.Library.MapLoop
