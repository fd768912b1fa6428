import FluffyCore.Utils.ReplaceMergeMap

/-!
# What a merge leaves

A call is followed key by key. While the source is iterated, every visited key of the
destination stands for the right-biased merge of what both sides held there, and every
other key holds what it held before. The call stops with an error exactly where both sides
hold maps one level deeper than it may go.

The part of the heap that is read, a region that does not contain the destination, is left
alone. Together with the maps the call makes it is closed again, so the next call on the
same destination can be followed in the same way.
-/

namespace FluffyCore.Utils

open Library.MapLoop Library.MapHeap

variable {Leaf : Type}

/-- The source's map at each path is iterated in an order of its own. -/
def OrderedFor (order : List String → List String) (path : List String) (heap : Heap String Leaf)
    (value : Value Leaf) : Prop :=
  ∀ below address, heap.resolve below value = some (.map address) →
    IterationOrder (heap.read address) (order (path ++ below))

/-- Both trees hold maps along a path of some length. -/
def BothDeep (levels : Nat) (dst src : View String Leaf) : Prop :=
  ∃ path, path.length = levels ∧ dst path = some .map ∧ src path = some .map

/-- Both trees hold maps one level further when they do so under one key. -/
theorem bothDeep_succ (levels : Nat) (dst src : View String Leaf) :
    BothDeep (levels + 1) dst src ↔ ∃ key, BothDeep levels (dst.under key) (src.under key) := by
  constructor
  · rintro ⟨path, length, dstMap, srcMap⟩
    cases path with
    | nil => cases length
    | cons key path => exact ⟨key, path, Nat.succ.inj length, dstMap, srcMap⟩
  · rintro ⟨key, path, length, dstMap, srcMap⟩
    exact ⟨key :: path, by simp [length], dstMap, srcMap⟩

/-- What a call relies on: a closed region without the destination, in which the source
and the values of the destination are. -/
structure Ready (order : List String → List String) (path : List String) (heap : Heap String Leaf)
    (dst : Nat) (src : Option Nat) (region : Set Nat) : Prop where
  allocated : ∀ address ∈ region, address < heap.next
  dstAllocated : dst < heap.next
  outside : dst ∉ region
  closed : heap.Closed region
  srcWithin : Heap.Within region (.map src : Value Leaf)
  dstHolds : heap.HoldsWithin region dst
  ordered : OrderedFor order path heap (.map src)

/-- What both sides held under a key when the call began. -/
def meant (heap : Heap String Leaf) (dst : Nat) (src : Option Nat) (key : String) :
    View String Leaf :=
  View.merge (heap.view ((heap.cells dst).lookup key)) (heap.view ((heap.read src).lookup key))

/-- The region with the maps a call has made so far. -/
def grown (region : Set Nat) (heap current : Heap String Leaf) : Set Nat :=
  region ∪ Set.Ico heap.next current.next

/-- Where a call stands after some keys. -/
structure Progress (heap : Heap String Leaf) (dst : Nat) (src : Option Nat) (region : Set Nat)
    (visited : String → Prop) (current : Heap String Leaf) : Prop where
  extended : Extends (some dst) heap current
  closed : current.Closed (grown region heap current)
  dstHolds : current.HoldsWithin (grown region heap current) dst
  merged : ∀ key, visited key → current.view ((current.cells dst).lookup key) =
    meant heap dst src key
  untouched : ∀ key, ¬ visited key → (current.cells dst).lookup key = (heap.cells dst).lookup key

section Rounds

variable {order : List String → List String} {path : List String} {heap current : Heap String Leaf}
  {dst : Nat} {src : Option Nat} {region : Set Nat} {visited : String → Prop}

/-- The region with the new maps contains the region. -/
theorem subset_grown : region ⊆ grown region heap current := Set.subset_union_left

/-- The destination is neither in the region nor among the new maps. -/
theorem Ready.dst_notMem_grown (ready : Ready order path heap dst src region)
    (current : Heap String Leaf) : dst ∉ grown region heap current := by
  rintro (inside | fresh)
  · exact ready.outside inside
  · exact absurd ready.dstAllocated (Nat.not_lt.2 fresh.1)

/-- Nothing has happened at the start of a call. -/
theorem Ready.start (ready : Ready order path heap dst src region) :
    Progress heap dst src region (fun _ => False) heap := by
  have same : grown region heap heap = region := by simp [grown]
  constructor
  · exact Extends.refl _ heap
  · rw [same]
    exact ready.closed
  · rw [same]
    exact ready.dstHolds
  · intro key impossible
    exact impossible.elim
  · intro key _
    rfl

/-- The region reads as it did when the call began. -/
theorem Progress.region_kept (progress : Progress heap dst src region visited current)
    (ready : Ready order path heap dst src region) (address : Nat) (inside : address ∈ region) :
    current.cells address = heap.cells address := by
  refine progress.extended.kept address (ready.allocated address inside) ?_
  intro same
  exact ready.outside (Option.some.inj same ▸ inside)

/-- More maps are made, and nothing is written to the ones there are. -/
theorem Progress.extend (progress : Progress heap dst src region visited current)
    (ready : Ready order path heap dst src region) {after : Heap String Leaf}
    (extended : Extends none current after) (closed : after.Closed (grown region heap after)) :
    Progress heap dst src region visited after := by
  have larger : grown region heap current ⊆ grown region heap after := by
    rintro address (inside | fresh)
    · exact Or.inl inside
    · exact Or.inr ⟨fresh.1, fresh.2.trans_le extended.grows⟩
  have below : ∀ address ∈ grown region heap current, address < current.next := by
    rintro address (inside | fresh)
    · exact (ready.allocated address inside).trans_le progress.extended.grows
    · exact fresh.2
  have sameDst : after.cells dst = current.cells dst :=
    extended.kept dst (ready.dstAllocated.trans_le progress.extended.grows) (by simp)
  constructor
  · refine ⟨progress.extended.grows.trans extended.grows, fun address inside other => ?_⟩
    rw [extended.kept address (inside.trans_le progress.extended.grows) (by simp),
      progress.extended.kept address inside other]
  · exact closed
  · intro key value found
    rw [sameDst] at found
    exact (progress.dstHolds key value found).mono larger
  · intro key done
    rw [← progress.merged key done, sameDst]
    refine progress.closed.view_congr (fun address inside => ?_) ?_
    · exact extended.kept address (below address inside) (by simp)
    · intro value found
      exact progress.dstHolds key value found
  · intro key other
    rw [sameDst, progress.untouched key other]

/-- The value that is stored under a key stands for what is meant there. -/
theorem Progress.store (progress : Progress heap dst src region visited current)
    (ready : Ready order path heap dst src region) (key : String) (value : Value Leaf)
    (within : Heap.Within (grown region heap current) value)
    (right : current.view (some value) = meant heap dst src key) :
    Progress heap dst src region (fun tested => tested = key ∨ visited tested)
      (current.store dst key value) := by
  have others : ∀ address ∈ grown region heap current,
      (current.store dst key value).cells address = current.cells address := by
    intro address inside
    have differ : address ≠ dst := fun same => ready.dst_notMem_grown current (same ▸ inside)
    simp [Heap.store, differ]
  have cell : (current.store dst key value).cells dst = (current.cells dst).insert key value := by
    simp [Heap.store]
  have views : ∀ inner : Option (Value Leaf),
      (∀ found ∈ inner, Heap.Within (grown region heap current) found) →
      (current.store dst key value).view inner = current.view inner :=
    fun inner inside => progress.closed.view_congr others inside
  constructor
  · exact progress.extended.trans (extends_store current dst key value)
  · intro address inside tested found lookup
    rw [others address inside] at lookup
    exact progress.closed address inside tested found lookup
  · intro tested found lookup
    rw [cell] at lookup
    by_cases same : tested = key
    · rw [same, Finmap.lookup_insert, Option.some.injEq] at lookup
      exact lookup ▸ within
    · rw [Finmap.lookup_insert_of_ne _ same] at lookup
      exact progress.dstHolds tested found lookup
  · intro tested done
    rw [cell]
    by_cases same : tested = key
    · subst same
      rw [Finmap.lookup_insert, views _ (by simpa using within), right]
    · rw [Finmap.lookup_insert_of_ne _ same, views _ fun found lookup =>
        progress.dstHolds tested found lookup]
      exact progress.merged tested (done.resolve_left same)
  · intro tested other
    rw [not_or] at other
    rw [cell, Finmap.lookup_insert_of_ne _ other.1, progress.untouched tested other.2]

/-- A copy of a map of the region is made. -/
theorem Progress.allocate (progress : Progress heap dst src region visited current)
    (ready : Ready order path heap dst src region) (entries : FiniteMap String (Value Leaf))
    (within : ∀ key value, entries.lookup key = some value → Heap.Within region value) :
    Progress heap dst src region visited (current.allocate entries) := by
  refine progress.extend ready (extends_allocate current none entries) ?_
  have larger : grown region heap current ⊆ grown region heap (current.allocate entries) := by
    rintro address (inside | fresh)
    · exact Or.inl inside
    · exact Or.inr ⟨fresh.1, fresh.2.trans_le (Nat.le_succ _)⟩
  intro address inside
  by_cases last : address = current.next
  · intro key value found
    have cell : (current.allocate entries).cells address = entries := by
      simp [Heap.allocate, last]
    rw [cell] at found
    exact (within key value found).mono subset_grown
  · have older : address ∈ grown region heap current := by
      rcases inside with inside | fresh
      · exact Or.inl inside
      · have bound : address < current.next + 1 := fresh.2
        exact Or.inr ⟨fresh.1, by omega⟩
    have cell : (current.allocate entries).cells address = current.cells address := by
      simp [Heap.allocate, last]
    intro key value found
    rw [cell] at found
    exact (progress.closed address older key value found).mono larger

/-- A map of the region is read as it was when the call began. -/
theorem Progress.read_kept (progress : Progress heap dst src region visited current)
    (ready : Ready order path heap dst src region) {address : Option Nat}
    (within : Heap.Within region (.map address : Value Leaf)) :
    current.read address = heap.read address := by
  cases address with
  | none => rfl
  | some address => exact progress.region_kept ready address (within address rfl)

/-- A map of the region holds values of the region. -/
theorem Ready.read_within (ready : Ready order path heap dst src region) {address : Option Nat}
    (within : Heap.Within region (.map address : Value Leaf)) (key : String) (value : Value Leaf)
    (found : (heap.read address).lookup key = some value) : Heap.Within region value :=
  ready.closed.child_within within found

/-- A value of the region has the view it had when the call began. -/
theorem Progress.view_kept (progress : Progress heap dst src region visited current)
    (ready : Ready order path heap dst src region) {value : Option (Value Leaf)}
    (within : ∀ inner ∈ value, Heap.Within region inner) :
    current.view value = heap.view value :=
  ready.closed.view_congr (progress.region_kept ready) within

/-- A copy of a map of the region stands for the same tree. -/
theorem Progress.copy_view (progress : Progress heap dst src region visited current)
    (ready : Ready order path heap dst src region) (copy : Nat) {original : Option Nat}
    (within : Heap.Within region (.map original : Value Leaf))
    (cell : current.cells copy = heap.read original) :
    current.view (some (.map (some copy))) = heap.view (some (.map original)) := by
  funext below
  cases below with
  | nil => simp [Heap.view_some_nil, Value.shape]
  | cons key below =>
    have inner : current.view ((heap.read original).lookup key) =
        heap.view ((heap.read original).lookup key) :=
      progress.view_kept ready fun value found => ready.read_within within key value found
    have left := congrFun (current.under_view (.map (some copy)) key) below
    have right := congrFun (heap.under_view (.map original) key) below
    simp only [Heap.child, Heap.read, cell] at left right
    exact left.trans ((congrFun inner below).trans right.symm)

/-- Once every key of the source is visited, the destination stands for the merge. -/
theorem Progress.dst_view (progress : Progress heap dst src region visited current)
    (ready : Ready order path heap dst src region)
    (complete : ∀ key, key ∈ heap.read src → visited key) :
    current.view (some (.map (some dst))) =
      View.merge (heap.view (some (.map (some dst)))) (heap.view (some (.map src))) := by
  have isMap : ∀ address, heap.view (some (.map address : Value Leaf)) [] = some .map :=
    fun address => Heap.view_some_nil heap (.map address)
  funext below
  cases below with
  | nil => simp [View.merge, Heap.view_some_nil, Value.shape]
  | cons key below =>
    have left := congrFun (current.under_view (.map (some dst)) key) below
    have right := congrFun (View.under_merge (isMap (some dst)) (isMap src) key) below
    rw [Heap.under_view, Heap.under_view] at right
    refine left.trans (Eq.trans ?_ right.symm)
    change current.view ((current.cells dst).lookup key) below = meant heap dst src key below
    by_cases done : visited key
    · rw [progress.merged key done]
    · have absent : (heap.read src).lookup key = none :=
        Finmap.lookup_eq_none.2 fun listed => done (complete key listed)
      rw [progress.untouched key done, meant, absent, View.merge_none (by simp [Heap.view_none]),
        progress.view_kept ready fun value found => ready.dstHolds key value found]

/-- The call for two maps under one key is made with copies of both. -/
theorem Ready.nested (ready : Ready order path heap dst src region)
    (progress : Progress heap dst src region visited current) {key : String}
    {srcMap dstMap : Option Nat} (srcFound : (heap.read src).lookup key = some (.map srcMap))
    (dstFound : (heap.cells dst).lookup key = some (.map dstMap)) :
    Ready order (path ++ [key])
      ((current.allocate (heap.read srcMap)).allocate (heap.read dstMap)) (current.next + 1)
      (some current.next) (grown region heap (current.allocate (heap.read srcMap))) := by
  have srcWithin := ready.read_within ready.srcWithin key _ srcFound
  have dstWithin := ready.dstHolds key _ dstFound
  have first := progress.allocate ready (heap.read srcMap) (ready.read_within srcWithin)
  have both := first.allocate ready (heap.read dstMap) (ready.read_within dstWithin)
  have bounded : ∀ address ∈ grown region heap (current.allocate (heap.read srcMap)),
      address < current.next + 1 := by
    rintro address (inside | fresh)
    · have := ready.allocated address inside
      have := progress.extended.grows
      omega
    · exact fresh.2
  have srcCell : ((current.allocate (heap.read srcMap)).allocate (heap.read dstMap)).cells
      current.next = heap.read srcMap := by
    simp [Heap.allocate]
  constructor
  · intro address inside
    exact (bounded address inside).trans (Nat.lt_succ_self _)
  · exact Nat.lt_succ_self _
  · intro inside
    exact Nat.lt_irrefl _ (bounded _ inside)
  · intro address inside tested value found
    have older : address ≠ current.next + 1 := Nat.ne_of_lt (bounded address inside)
    have cell : ((current.allocate (heap.read srcMap)).allocate (heap.read dstMap)).cells
        address = (current.allocate (heap.read srcMap)).cells address := by
      simp [Heap.allocate, older]
    rw [cell] at found
    exact first.closed address inside tested value found
  · intro address same
    cases same
    exact Or.inr ⟨progress.extended.grows, Nat.lt_succ_self _⟩
  · intro tested value found
    have cell : ((current.allocate (heap.read srcMap)).allocate (heap.read dstMap)).cells
        (current.next + 1) = heap.read dstMap := by
      simp [Heap.allocate]
    rw [cell] at found
    exact (ready.read_within dstWithin tested value found).mono subset_grown
  · intro below address reached
    -- Below the copy stand the values that stand below the original.
    have visits : ∀ below address, heap.resolve below (.map srcMap) = some (.map address) →
        IterationOrder (heap.read address) (order (path ++ [key] ++ below)) := by
      intro below address found
      rw [List.append_assoc]
      refine ready.ordered ([key] ++ below) address ?_
      rw [List.singleton_append, Heap.resolve, Heap.child, srcFound]
      exact found
    cases below with
    | nil =>
      rw [Heap.resolve, Option.some.injEq] at reached
      cases reached
      rw [Heap.read, srcCell]
      exact visits [] srcMap rfl
    | cons next below =>
      rw [Heap.resolve, Heap.child, Heap.read, srcCell] at reached
      obtain ⟨inner, found, inside⟩ := Option.bind_eq_some_iff.1 reached
      have innerWithin := ready.read_within srcWithin next inner found
      rw [ready.closed.resolve_congr (both.region_kept ready) innerWithin] at inside
      have original : heap.resolve (next :: below) (.map srcMap) = some (.map address) := by
        rw [Heap.resolve, Heap.child, found]
        exact inside
      have addressWithin : Heap.Within region (.map address : Value Leaf) :=
        ready.closed.resolve_within innerWithin inside
      rw [both.read_kept ready addressWithin]
      exact visits (next :: below) address original

/-- Maps stand along a path in two trees only if both trees are maps. -/
theorem bothDeep_maps {levels : Nat} {first second : Option (Value Leaf)}
    (deep : BothDeep levels (heap.view first) (current.view second)) :
    ∃ dstMap srcMap, first = some (.map dstMap) ∧ second = some (.map srcMap) := by
  obtain ⟨below, _, dstDeep, srcDeep⟩ := deep
  obtain ⟨dstMap, dstFound⟩ := Heap.map_of_view dstDeep
  obtain ⟨srcMap, srcFound⟩ := Heap.map_of_view srcDeep
  exact ⟨dstMap, srcMap, dstFound, srcFound⟩

/-- What a call with some levels left to enter does: it fails exactly where both trees hold
maps too deep, and it has merged every key if it does not. -/
structure Outcome (levels : Nat) (heap : Heap String Leaf) (dst : Nat) (src : Option Nat)
    (region : Set Nat) (result : Merged Leaf) : Prop where
  failed : (∃ err, result.1 = .error err) ↔
    BothDeep levels (heap.view (some (.map (some dst)))) (heap.view (some (.map src)))
  progress : ∃ visited, Progress heap dst src region visited result.2 ∧
    (result.1 = .ok () → ∀ key ∈ heap.read src, visited key)

/-- What a round of the loop does with its key. -/
structure RoundOutcome (levels : Nat) (heap : Heap String Leaf) (dst : Nat) (src : Option Nat)
    (region : Set Nat) (visited : String → Prop) (key : String) (result : Merged Leaf) :
    Prop where
  failed : (∃ err, result.1 = .error err) ↔
    BothDeep levels (heap.view ((heap.cells dst).lookup key))
      (heap.view ((heap.read src).lookup key))
  stopped : ∀ err, result.1 = .error err → Progress heap dst src region visited result.2
  finished : result.1 = .ok () →
    Progress heap dst src region (fun tested => tested = key ∨ visited tested) result.2

/-- The source's value takes the destination's place. -/
theorem Progress.replace (progress : Progress heap dst src region visited current)
    (ready : Ready order path heap dst src region) {levels : Nat} {key : String}
    {srcVal : Value Leaf} (srcFound : (heap.read src).lookup key = some srcVal)
    (notBoth : ∀ dstMap srcMap, (heap.cells dst).lookup key = some (.map dstMap) →
      srcVal ≠ .map srcMap) :
    RoundOutcome levels heap dst src region visited key
      (.ok (), current.store dst key srcVal) := by
  have within := ready.read_within ready.srcWithin key srcVal srcFound
  have kept : current.view (some srcVal) = heap.view (some srcVal) :=
    progress.view_kept ready (by simpa using within)
  constructor
  · constructor
    · rintro ⟨err, impossible⟩
      cases impossible
    · intro deep
      obtain ⟨dstMap, srcMap, dstFound, srcMapFound⟩ := bothDeep_maps deep
      rw [srcFound, Option.some.injEq] at srcMapFound
      exact absurd srcMapFound (notBoth dstMap srcMap dstFound)
  · intro err impossible
    cases impossible
  · intro _
    refine progress.store ready key srcVal (within.mono subset_grown) ?_
    rw [kept, meant, srcFound]
    refine (View.merge_some (Heap.view_some_nil heap srcVal) ?_).symm
    by_cases dstShape : heap.view ((heap.cells dst).lookup key) [] = some .map
    · right
      intro srcShape
      obtain ⟨dstMap, dstFound⟩ := Heap.map_of_view dstShape
      obtain ⟨srcMap, srcSame⟩ := Value.shape_eq_map srcShape
      exact notBoth dstMap srcMap dstFound srcSame
    · exact Or.inl dstShape

/-- The call on the copies has made maps of its own and changed nothing else. -/
theorem Progress.of_nested (progress : Progress heap dst src region visited current)
    (ready : Ready order path heap dst src region) {srcMap dstMap : Option Nat}
    {inner : String → Prop} {after : Heap String Leaf}
    (nested : Progress ((current.allocate (heap.read srcMap)).allocate (heap.read dstMap))
      (current.next + 1) (some current.next)
      (grown region heap (current.allocate (heap.read srcMap))) inner after) :
    Progress heap dst src region visited after := by
  have copies : Extends none current
      ((current.allocate (heap.read srcMap)).allocate (heap.read dstMap)) :=
    (extends_allocate current none _).trans (extends_allocate _ none _)
  have larger : grown (grown region heap (current.allocate (heap.read srcMap)))
      ((current.allocate (heap.read srcMap)).allocate (heap.read dstMap)) after ⊆
      grown region heap after := by
    have grows := nested.extended.grows
    have later := progress.extended.grows
    simp only [Heap.allocate] at grows
    rintro address ((inside | fresh) | fresh)
    · exact Or.inl inside
    · simp only [Heap.allocate, Set.mem_Ico] at fresh
      exact Or.inr ⟨fresh.1, by omega⟩
    · simp only [Heap.allocate, Set.mem_Ico] at fresh
      exact Or.inr ⟨by omega, fresh.2⟩
  refine progress.extend ready (copies.of_fresh (Nat.le_succ _) none nested.extended) ?_
  intro address inside
  by_cases copy : address = current.next + 1
  · subst copy
    exact nested.dstHolds.mono larger
  · refine Heap.HoldsWithin.mono larger (nested.closed address ?_)
    rcases inside with inside | fresh
    · exact Or.inl (Or.inl inside)
    · by_cases early : address < current.next + 1
      · exact Or.inl (Or.inr ⟨fresh.1, early⟩)
      · refine Or.inr ⟨?_, fresh.2⟩
        simp only [Heap.allocate]
        omega

/-- Two maps are merged in a copy of the destination's, which is then stored. -/
theorem Progress.descend (progress : Progress heap dst src region visited current)
    (ready : Ready order path heap dst src region) {levels : Nat} {key : String}
    {srcMap dstMap : Option Nat} (srcFound : (heap.read src).lookup key = some (.map srcMap))
    (dstFound : (heap.cells dst).lookup key = some (.map dstMap)) {result : Merged Leaf} :
    Outcome levels ((current.allocate (heap.read srcMap)).allocate (heap.read dstMap))
      (current.next + 1) (some current.next)
      (grown region heap (current.allocate (heap.read srcMap))) result →
    RoundOutcome levels heap dst src region visited key
      (match result with
      | (.error err, heap) => (.error err, heap)
      | (.ok (), heap) => (.ok (), heap.store dst key (.map (some (current.next + 1))))) := by
  intro call
  have srcWithin := ready.read_within ready.srcWithin key _ srcFound
  have dstWithin := ready.dstHolds key _ dstFound
  have both := (progress.allocate ready (heap.read srcMap) (ready.read_within srcWithin)).allocate
    ready (heap.read dstMap) (ready.read_within dstWithin)
  have srcView := both.copy_view ready current.next srcWithin (by simp [Heap.allocate])
  have dstView := both.copy_view ready (current.next + 1) dstWithin (by simp [Heap.allocate])
  have failed := call.failed
  rw [srcView, dstView, ← srcFound, ← dstFound] at failed
  obtain ⟨inner, nested, complete⟩ := call.progress
  have after := progress.of_nested ready nested
  obtain ⟨answer, final⟩ := result
  cases answer with
  | error err =>
    constructor
    · exact failed
    · intro _ _
      exact after
    · intro impossible
      cases impossible
  | ok done =>
    constructor
    · exact failed
    · intro err impossible
      cases impossible
    · intro _
      refine after.store ready key _ ?_ ?_
      · intro address same
        cases same
        have grows : current.next + 1 < final.next := nested.extended.grows
        exact Or.inr ⟨progress.extended.grows.trans (Nat.le_succ _), grows⟩
      · have merged := nested.dst_view (ready.nested progress srcFound dstFound) (complete rfl)
        rw [merged, srcView, dstView, meant, srcFound, dstFound]

end Rounds

section Calls

variable {order : List String → List String} {path : List String} {heap current : Heap String Leaf}
  {dst : Nat} {src : Option Nat} {region : Set Nat} {visited : String → Prop}

/-- A call of some number of levels does what it should wherever it is ready. -/
def CallsMerge (Leaf : Type) (order : List String → List String) (levels : Nat) : Prop :=
  ∀ path (heap : Heap String Leaf) dst src region, Ready order path heap dst src region →
    Outcome levels heap dst src region
      (replaceOnlyMergeMap order levels path (some dst) src heap)

/-- One round of the loop over the source. -/
theorem Progress.mergeKey (progress : Progress heap dst src region visited current)
    (ready : Ready order path heap dst src region) {levels : Nat}
    (calls : CallsMerge Leaf order levels) {key : String} (listed : key ∈ heap.read src)
    (unvisited : ¬ visited key) :
    RoundOutcome levels heap dst src region visited key
      (Utils.mergeKey (replaceOnlyMergeMap order levels) path dst src current key) := by
  obtain ⟨srcVal, srcFound⟩ := Finmap.mem_iff.1 listed
  have srcWithin := ready.read_within ready.srcWithin key srcVal srcFound
  unfold Utils.mergeKey
  rw [progress.read_kept ready ready.srcWithin, srcFound, progress.untouched key unvisited]
  cases dstFound : (heap.cells dst).lookup key with
  | none =>
    refine progress.replace ready srcFound ?_
    intro dstMap srcMap impossible
    rw [dstFound] at impossible
    cases impossible
  | some dstVal =>
    have dstWithin := ready.dstHolds key dstVal dstFound
    cases srcVal with
    | leaf content =>
      have notBoth : ∀ dstMap srcMap, (heap.cells dst).lookup key = some (.map dstMap) →
          (.leaf content : Value Leaf) ≠ .map srcMap := by
        intro dstMap srcMap _ impossible
        cases impossible
      cases dstVal with
      | leaf other => exact progress.replace ready srcFound notBoth
      | map dstMap =>
        have copied := progress.allocate ready (heap.read dstMap) (ready.read_within dstWithin)
        simp only [mapify, progress.read_kept ready dstWithin]
        exact copied.replace ready srcFound notBoth
    | map srcMap =>
      have copied := progress.allocate ready (heap.read srcMap) (ready.read_within srcWithin)
      cases dstVal with
      | leaf other =>
        simp only [mapify, progress.read_kept ready srcWithin]
        refine copied.replace ready srcFound ?_
        intro dstMap _ impossible
        rw [dstFound] at impossible
        cases impossible
      | map dstMap =>
        simp only [mapify, progress.read_kept ready srcWithin, copied.read_kept ready dstWithin]
        exact progress.descend ready srcFound dstFound
          (calls _ _ _ _ _ (ready.nested progress srcFound dstFound))

/-- The loop over the keys that are left. -/
theorem Progress.mergeKeys (progress : Progress heap dst src region visited current)
    (ready : Ready order path heap dst src region) {levels : Nat}
    (calls : CallsMerge Leaf order levels) {keys : List String} (distinct : keys.Nodup)
    (listed : ∀ key ∈ keys, key ∈ heap.read src) (unvisited : ∀ key ∈ keys, ¬ visited key) :
    ((∃ err, (Utils.mergeKeys (Utils.mergeKey (replaceOnlyMergeMap order levels) path dst src)
        keys current).1 = .error err) ↔
      ∃ key ∈ keys, BothDeep levels (heap.view ((heap.cells dst).lookup key))
        (heap.view ((heap.read src).lookup key))) ∧
    ∃ after, Progress heap dst src region after
        (Utils.mergeKeys (Utils.mergeKey (replaceOnlyMergeMap order levels) path dst src)
          keys current).2 ∧
      ((Utils.mergeKeys (Utils.mergeKey (replaceOnlyMergeMap order levels) path dst src)
          keys current).1 = .ok () → ∀ key, key ∈ keys ∨ visited key → after key) := by
  induction keys generalizing current visited with
  | nil =>
    refine ⟨by simp [Utils.mergeKeys], visited, progress, ?_⟩
    intro _ key done
    exact done.resolve_left List.not_mem_nil
  | cons key rest inductionHypothesis =>
    have round := progress.mergeKey ready calls (listed key List.mem_cons_self)
      (unvisited key List.mem_cons_self)
    rw [Utils.mergeKeys]
    generalize Utils.mergeKey (replaceOnlyMergeMap order levels) path dst src current key =
      result at round ⊢
    obtain ⟨answer, next⟩ := result
    cases answer with
    | error err =>
      have deep := round.failed.1 ⟨err, rfl⟩
      refine ⟨⟨fun _ => ⟨key, List.mem_cons_self, deep⟩, fun _ => ⟨err, rfl⟩⟩, visited,
        round.stopped err rfl, ?_⟩
      intro impossible
      cases impossible
    | ok done =>
      have shallow : ¬ BothDeep levels (heap.view ((heap.cells dst).lookup key))
          (heap.view ((heap.read src).lookup key)) := by
        intro deep
        obtain ⟨err, impossible⟩ := round.failed.2 deep
        cases impossible
      rw [List.nodup_cons] at distinct
      have left : ∀ other ∈ rest, ¬ (other = key ∨ visited other) := by
        rintro other later (same | already)
        · exact distinct.1 (same ▸ later)
        · exact unvisited other (List.mem_cons_of_mem _ later) already
      obtain ⟨failed, after, final, complete⟩ := inductionHypothesis (round.finished rfl)
        distinct.2 (fun other later => listed other (List.mem_cons_of_mem _ later)) left
      refine ⟨?_, after, final, ?_⟩
      · rw [failed]
        simp [shallow]
      · intro finished tested done
        refine complete finished tested ?_
        rcases done with member | already
        · rcases List.mem_cons.1 member with same | later
          · exact Or.inr (Or.inl same)
          · exact Or.inl later
        · exact Or.inr (Or.inr already)

/-- Every call does what it should. -/
theorem callsMerge (Leaf : Type) (order : List String → List String) (levels : Nat) :
    CallsMerge Leaf order levels := by
  induction levels with
  | zero =>
    intro path heap dst src region ready
    have isMap : ∀ address, heap.view (some (.map address : Value Leaf)) [] = some .map :=
      fun address => Heap.view_some_nil heap (.map address)
    refine ⟨⟨fun _ => ⟨[], rfl, isMap _, isMap _⟩, fun _ => ⟨depthExceeded, rfl⟩⟩,
      fun _ => False, ready.start, ?_⟩
    intro impossible
    cases impossible
  | succ levels inductionHypothesis =>
    intro path heap dst src region ready
    have iterates := ready.ordered [] src rfl
    rw [List.append_nil] at iterates
    have listed : ∀ key, key ∈ order path ↔ key ∈ heap.read src := iterates.2
    obtain ⟨failed, after, final, complete⟩ := ready.start.mergeKeys ready inductionHypothesis
      iterates.1 (fun key member => (listed key).1 member) (fun _ _ impossible => impossible)
    refine ⟨?_, after, final, fun finished key member =>
      complete finished key (Or.inl ((listed key).2 member))⟩
    rw [replaceOnlyMergeMap, failed, bothDeep_succ]
    simp only [Heap.under_view, Heap.child, Heap.read]
    constructor
    · rintro ⟨key, _, deep⟩
      exact ⟨key, deep⟩
    · rintro ⟨key, deep⟩
      obtain ⟨_, srcMap, _, srcFound⟩ := bothDeep_maps deep
      refine ⟨key, (listed key).2 ?_, deep⟩
      exact Finmap.mem_iff.2 ⟨_, srcFound⟩

end Calls

end FluffyCore.Utils
