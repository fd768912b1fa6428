import FluffyCore.Utils.DeepMerge

/-!
# The merge of two trees

`ReplaceMergeMap` on a destination and a source that share no map. The result does not
depend on the order of iteration. It is the right-biased merge of the two trees, unless both
hold maps deeper than the bound.

Afterwards the destination shares maps with the source. Nothing that is merged into the
destination later reaches the source through them, since a call writes to the destination
itself and to its own copies only.
-/

namespace FluffyCore.Utils

open Library.MapLoop Library.MapHeap

variable {Leaf : Type}

section Trees

/-- The maps that are found below a value, the value itself included. -/
def Reaches (heap : Heap String Leaf) (value : Value Leaf) (address : Nat) : Prop :=
  ∃ path, heap.resolve path value = some (.map (some address))

/-- The maps that are found below the values of a map. -/
def Nested (heap : Heap String Leaf) (dst : Option Nat) (address : Nat) : Prop :=
  ∃ key value, (heap.read dst).lookup key = some value ∧ Reaches heap value address

/-- A destination and a source that share no map, where the destination is not inside of
itself. -/
structure Trees (heap : Heap String Leaf) (dst src : Option Nat) : Prop where
  srcAllocated : ∀ address, Reaches heap (.map src) address → address < heap.next
  dstAllocated : ∀ address, Reaches heap (.map dst) address → address < heap.next
  apart : ∀ address, Reaches heap (.map dst) address → ¬ Reaches heap (.map src) address
  notInside : ∀ address, dst = some address → ¬ Nested heap dst address

variable {heap after : Heap String Leaf} {dst src : Option Nat}

/-- A map below the values of a map is below the map. -/
theorem Nested.reaches {address : Nat} (nested : Nested heap dst address) :
    Reaches heap (.map dst) address := by
  obtain ⟨key, value, found, path, reached⟩ := nested
  refine ⟨key :: path, ?_⟩
  rw [Heap.resolve, Heap.child, found]
  exact reached

/-- What a map below a value holds is below the value, too. -/
theorem Reaches.holdsWithin {value : Value Leaf} {address : Nat}
    (reached : Reaches heap value address) :
    heap.HoldsWithin {inner | Reaches heap value inner} address := by
  obtain ⟨path, found⟩ := reached
  intro key inner lookup below same
  refine ⟨path ++ [key], ?_⟩
  rw [Heap.resolve_append, found, Option.bind_some, Heap.resolve, Heap.child, Heap.read, lookup,
    same]
  rfl

/-- The maps a merge reads. -/
def readMaps (heap : Heap String Leaf) (dst src : Option Nat) : Set Nat :=
  {address | Reaches heap (.map src) address ∨ Nested heap dst address}

/-- The maps a merge reads are a part of the heap of their own. -/
theorem closed_readMaps (heap : Heap String Leaf) (dst src : Option Nat) :
    heap.Closed (readMaps heap dst src) := by
  rintro address (inSrc | ⟨key, value, found, reached⟩)
  · exact inSrc.holdsWithin.mono fun _ inside => Or.inl inside
  · exact reached.holdsWithin.mono fun _ inside => Or.inr ⟨key, value, found, inside⟩

/-- A merge of trees can be followed. -/
theorem Trees.ready {dst : Nat} (trees : Trees heap (some dst) src)
    {order : List String → List String} (ordered : OrderedFor order [] heap (.map src)) :
    Ready order [] heap dst src (readMaps heap (some dst) src) := by
  constructor
  · rintro address (inSrc | inDst)
    · exact trees.srcAllocated address inSrc
    · exact trees.dstAllocated address inDst.reaches
  · exact trees.dstAllocated dst ⟨[], rfl⟩
  · rintro (inSrc | inDst)
    · exact trees.apart dst ⟨[], rfl⟩ inSrc
    · exact trees.notInside dst rfl inDst
  · exact closed_readMaps heap (some dst) src
  · intro address same
    exact Or.inl ⟨[], congrArg some same⟩
  · intro key value found address same
    exact Or.inr ⟨key, value, found, [], congrArg some same⟩
  · exact ordered

/-- The maps a merge reads are not the destination. -/
theorem Trees.readMaps_other (trees : Trees heap dst src) {address : Nat}
    (inside : address ∈ readMaps heap dst src) : address < heap.next ∧ some address ≠ dst := by
  rcases inside with inSrc | inDst
  · refine ⟨trees.srcAllocated address inSrc, ?_⟩
    rintro rfl
    exact trees.apart address ⟨[], rfl⟩ inSrc
  · refine ⟨trees.dstAllocated address inDst.reaches, ?_⟩
    rintro rfl
    exact trees.notInside address rfl inDst

end Trees

section Again

variable {order : List String → List String} {heap current : Heap String Leaf}
  {dst : Nat} {src : Option Nat} {region : Set Nat} {visited : String → Prop}

/-- Another merge into the same destination can be followed after the first. -/
theorem Progress.ready (progress : Progress heap dst src region visited current)
    (ready : Ready order [] heap dst src region) {again : List String → List String}
    (ordered : OrderedFor again [] current (.map src)) :
    Ready again [] current dst src (grown region heap current) := by
  constructor
  · rintro address (inside | fresh)
    · exact (ready.allocated address inside).trans_le progress.extended.grows
    · exact fresh.2
  · exact ready.dstAllocated.trans_le progress.extended.grows
  · exact ready.dst_notMem_grown current
  · exact progress.closed
  · exact ready.srcWithin.mono subset_grown
  · exact progress.dstHolds
  · exact ordered

/-- Where a merge means what is there already, it changes nothing, however far it gets. -/
theorem Progress.dst_view_same (progress : Progress heap dst src region visited current)
    (ready : Ready order [] heap dst src region)
    (same : View.merge (heap.view (some (.map (some dst)))) (heap.view (some (.map src))) =
      heap.view (some (.map (some dst)))) :
    current.view (some (.map (some dst))) = heap.view (some (.map (some dst))) := by
  have isMap : ∀ address, heap.view (some (.map address : Value Leaf)) [] = some .map :=
    fun address => Heap.view_some_nil heap (.map address)
  funext below
  cases below with
  | nil => simp [Heap.view_some_nil]
  | cons key below =>
    have meantSame : meant heap dst src key = heap.view ((heap.cells dst).lookup key) := by
      have keyed := View.under_merge (isMap (some dst)) (isMap src) key
      rw [same, Heap.under_view, Heap.under_view] at keyed
      exact keyed.symm
    have kept : current.view ((current.cells dst).lookup key) =
        heap.view ((heap.cells dst).lookup key) := by
      by_cases done : visited key
      · rw [progress.merged key done, meantSame]
      · rw [progress.untouched key done,
          progress.view_kept ready fun value found => ready.dstHolds key value found]
    have left := congrFun (current.under_view (.map (some dst)) key) below
    have right := congrFun (heap.under_view (.map (some dst)) key) below
    exact left.trans ((congrFun kept below).trans right.symm)

end Again

/-- What may happen after a point in time: more merges into the destination, of any source
and in any order, while other maps are built in between. -/
inductive Followed (dst : Option Nat) (heap : Heap String Leaf) : Heap String Leaf → Prop
  | refl : Followed dst heap heap
  | merge {middle : Heap String Leaf} (earlier : Followed dst heap middle)
      (order : List String → List String) (src : Option Nat) :
      Followed dst heap (replaceMergeMap order dst src middle).2
  | build {middle after : Heap String Leaf} (earlier : Followed dst heap middle)
      (extended : Extends none middle after) : Followed dst heap after

/-- Whatever follows, the destination is the only map that changes. -/
theorem Followed.extends {dst : Option Nat} {heap after : Heap String Leaf}
    (followed : Followed dst heap after) : Extends dst heap after := by
  induction followed with
  | refl => exact Extends.refl dst heap
  | merge _ order src inductionHypothesis =>
    exact inductionHypothesis.trans (extends_replaceOnlyMergeMap order _ [] dst src _)
  | build _ extended inductionHypothesis =>
    refine inductionHypothesis.trans ⟨extended.grows, ?_⟩
    intro address inside _
    exact extended.kept address inside (by simp)

/-- Maps stand along a path of a given length if they stand along a longer one. -/
theorem bothDeep_iff_longer (levels : Nat) (heap : Heap String Leaf)
    (dst src : Option (Value Leaf)) :
    BothDeep (levels + 1) (heap.view dst) (heap.view src) ↔
      ∃ path, levels < path.length ∧ heap.view dst path = some .map ∧
        heap.view src path = some .map := by
  constructor
  · rintro ⟨path, length, dstMap, srcMap⟩
    exact ⟨path, by omega, dstMap, srcMap⟩
  · rintro ⟨path, longer, dstMap, srcMap⟩
    refine ⟨path.take (levels + 1), ?_, Heap.view_take dstMap _, Heap.view_take srcMap _⟩
    rw [List.length_take]
    omega

/-- **`ReplaceMergeMap` is a deep merge.** For trees that share no map and any order of
iteration, it fails exactly if the destination is nil or both trees hold maps along a path
of more than `MaxDepth` keys. Otherwise the destination becomes the right-biased merge.
Merging the source again changes nothing, even where that call runs into the bound. No map
of the source and none that was inside of the destination is changed, by the call or by
anything merged into the destination later. -/
theorem replaceMergeMap_deepMerge (order : List String → List String) (dst src : Option Nat)
    (heap : Heap String Leaf) (trees : Trees heap dst src)
    (ordered : OrderedFor order [] heap (.map src)) :
    ((∃ err, (replaceMergeMap order dst src heap).1 = .error err) ↔
      dst = none ∨ ∃ path : List String, maxDepth < path.length ∧
        heap.view (some (.map dst)) path = some .map ∧
        heap.view (some (.map src)) path = some .map) ∧
    ((replaceMergeMap order dst src heap).1 = .ok () →
      (replaceMergeMap order dst src heap).2.view (some (.map dst)) =
        View.merge (heap.view (some (.map dst))) (heap.view (some (.map src)))) ∧
    ((replaceMergeMap order dst src heap).1 = .ok () → ∀ again : List String → List String,
      OrderedFor again [] (replaceMergeMap order dst src heap).2 (.map src) →
      (replaceMergeMap again dst src (replaceMergeMap order dst src heap).2).2.view
          (some (.map dst)) =
        (replaceMergeMap order dst src heap).2.view (some (.map dst))) ∧
    (∀ middle later, Followed dst heap middle → Followed dst middle later →
      (∀ address < middle.next, some address ≠ dst →
        later.cells address = middle.cells address) ∧
      (∀ address, Reaches heap (.map src) address ∨ Nested heap dst address →
        later.cells address = heap.cells address) ∧
      later.view (some (.map src)) = heap.view (some (.map src)) ∧
      ∀ key, later.view ((heap.read dst).lookup key) = heap.view ((heap.read dst).lookup key)) := by
  have frame : ∀ middle later, Followed dst heap middle → Followed dst middle later →
      (∀ address < middle.next, some address ≠ dst →
        later.cells address = middle.cells address) ∧
      (∀ address, Reaches heap (.map src) address ∨ Nested heap dst address →
        later.cells address = heap.cells address) ∧
      later.view (some (.map src)) = heap.view (some (.map src)) ∧
      ∀ key, later.view ((heap.read dst).lookup key) =
        heap.view ((heap.read dst).lookup key) := by
    intro middle later first second
    have kept : ∀ address ∈ readMaps heap dst src,
        later.cells address = heap.cells address := by
      intro address inside
      obtain ⟨allocated, other⟩ := trees.readMaps_other inside
      exact (first.extends.trans second.extends).kept address allocated other
    have closed := closed_readMaps heap dst src
    refine ⟨second.extends.kept, kept, closed.view_congr kept ?_, fun key =>
      closed.view_congr kept ?_⟩
    · intro inner same address found
      cases same
      exact Or.inl ⟨[], congrArg some found⟩
    · intro inner found address same
      exact Or.inr ⟨key, inner, found, [], congrArg some same⟩
  cases dst with
  | none =>
    have fails : (replaceMergeMap order none src heap).1 = .error dstIsNil := rfl
    refine ⟨⟨fun _ => Or.inl rfl, fun _ => ⟨dstIsNil, fails⟩⟩, ?_, ?_, frame⟩
    · intro finished
      rw [fails] at finished
      cases finished
    · intro finished
      rw [fails] at finished
      cases finished
  | some dst =>
    have ready := trees.ready ordered
    have outcome := callsMerge Leaf order (maxDepth + 1) [] heap dst src _ ready
    change Outcome _ _ _ _ _ (replaceMergeMap order (some dst) src heap) at outcome
    obtain ⟨visited, progress, complete⟩ := outcome.progress
    refine ⟨?_, ?_, ?_, frame⟩
    · rw [outcome.failed, bothDeep_iff_longer]
      simp
    · intro finished
      exact progress.dst_view ready (complete finished)
    · intro finished again orderedAgain
      have readyAgain := progress.ready ready orderedAgain
      obtain ⟨_, next, _⟩ :=
        (callsMerge Leaf again (maxDepth + 1) [] _ dst src _ readyAgain).progress
      refine next.dst_view_same readyAgain ?_
      have source : (replaceMergeMap order (some dst) src heap).2.view (some (.map src)) =
          heap.view (some (.map src)) :=
        progress.view_kept ready (by simpa using ready.srcWithin)
      rw [progress.dst_view ready (complete finished), source, View.merge_merge]

section Defaults

/-- Defaults at the first two addresses and overrides at the next two. Both maps of the
overrides have two keys. -/
def defaultsAndOverrides : Heap String Nat where
  cells
    | 0 => Finmap.singleton "jwt" (.map (some 1))
    | 1 => Finmap.singleton "expiration" (.leaf 300)
    | 2 => (Finmap.singleton "jwt" (.map (some 3))).insert "port" (.leaf 8080)
    | 3 => (Finmap.singleton "expiration" (.leaf 60)).insert "leeway" (.leaf 5)
    | _ => ∅
  next := 4

/-- The overrides are visited in the order of their insertion. -/
def overridesOrder : List String → List String
  | [] => ["jwt", "port"]
  | ["jwt"] => ["expiration", "leeway"]
  | _ => []

/-- The overrides are visited in the opposite order at both levels. -/
def overridesReversed : List String → List String
  | [] => ["port", "jwt"]
  | ["jwt"] => ["leeway", "expiration"]
  | _ => []

/-- The inner map of the defaults holds no map. -/
theorem closed_defaults : defaultsAndOverrides.Closed {1} := by
  intro address inside key value found
  rw [Set.mem_singleton_iff] at inside
  subst inside
  obtain ⟨_, rfl⟩ := lookup_single found
  intro address same
  cases same

/-- The maps of the overrides hold no other map. -/
theorem closed_overrides : defaultsAndOverrides.Closed {2, 3} := by
  intro address inside key value found
  rcases inside with rfl | rfl
  · rcases lookup_pair found with ⟨_, rfl⟩ | ⟨_, rfl⟩
    · intro address same
      cases same
      exact Or.inr rfl
    · intro address same
      cases same
  · rcases lookup_pair found with ⟨_, rfl⟩ | ⟨_, rfl⟩
    · intro address same
      cases same
    · intro address same
      cases same

/-- The maps below the overrides. -/
theorem reaches_overrides {address : Nat}
    (reached : Reaches defaultsAndOverrides (.map (some 2)) address) :
    address = 2 ∨ address = 3 := by
  obtain ⟨path, found⟩ := reached
  exact closed_overrides.resolve_within (by rintro _ ⟨⟩; exact Or.inl rfl) found address rfl

/-- The maps inside of the defaults. -/
theorem nested_defaults {address : Nat} (nested : Nested defaultsAndOverrides (some 0) address) :
    address = 1 := by
  obtain ⟨key, value, found, path, reached⟩ := nested
  obtain ⟨_, rfl⟩ := lookup_single found
  exact closed_defaults.resolve_within (by rintro _ ⟨⟩; exact rfl) reached address rfl

/-- The maps below the defaults, their own map included. -/
theorem reaches_defaults {address : Nat}
    (reached : Reaches defaultsAndOverrides (.map (some 0)) address) :
    address = 0 ∨ address = 1 := by
  obtain ⟨path, found⟩ := reached
  cases path with
  | nil =>
    cases found
    exact Or.inl rfl
  | cons key path =>
    obtain ⟨inner, here, below⟩ := Option.bind_eq_some_iff.1 found
    exact Or.inr (nested_defaults ⟨key, inner, here, path, below⟩)

/-- The defaults and the overrides share no map. -/
theorem trees_defaultsAndOverrides : Trees defaultsAndOverrides (some 0) (some 2) := by
  constructor
  · intro address reached
    have := reaches_overrides reached
    simp only [defaultsAndOverrides]
    omega
  · intro address reached
    have := reaches_defaults reached
    simp only [defaultsAndOverrides]
    omega
  · intro address first second
    have := reaches_defaults first
    have := reaches_overrides second
    omega
  · intro address same inside
    have := nested_defaults inside
    cases same
    omega

/-- The overrides have a map at the top and one under `jwt`. -/
theorem resolve_overrides {below : List String} {address : Option Nat}
    (found : defaultsAndOverrides.resolve below (.map (some 2)) = some (.map address)) :
    (below = [] ∧ address = some 2) ∨ (below = ["jwt"] ∧ address = some 3) := by
  -- a leaf has nothing below it, so a path stops at the first map that holds leaves only
  have leaf (value : Nat) (path : List String) :
      defaultsAndOverrides.resolve path (.leaf value) ≠ some (.map address) := by
    cases path <;> rintro ⟨⟩
  cases below with
  | nil =>
    cases found
    exact Or.inl ⟨rfl, rfl⟩
  | cons key below =>
    obtain ⟨inner, here, deeper⟩ := Option.bind_eq_some_iff.1 found
    rcases lookup_pair here with ⟨rfl, rfl⟩ | ⟨_, rfl⟩
    · cases below with
      | nil =>
        cases deeper
        exact Or.inr ⟨rfl, rfl⟩
      | cons next below =>
        obtain ⟨last, there, deepest⟩ := Option.bind_eq_some_iff.1 deeper
        rcases lookup_pair there with ⟨_, rfl⟩ | ⟨_, rfl⟩
        · exact absurd deepest (leaf 60 below)
        · exact absurd deepest (leaf 5 below)
    · exact absurd deeper (leaf 8080 below)

/-- The maps of the overrides can be visited in the order of insertion. -/
theorem orderedFor_overridesOrder :
    OrderedFor overridesOrder [] defaultsAndOverrides (.map (some 2)) := by
  intro below address found
  rcases resolve_overrides found with ⟨rfl, rfl⟩ | ⟨rfl, rfl⟩
  · exact (iterationOrder_pair (by decide) _ _).1
  · exact (iterationOrder_pair (by decide) _ _).1

/-- The maps of the overrides can be visited in the opposite order. -/
theorem orderedFor_overridesReversed :
    OrderedFor overridesReversed [] defaultsAndOverrides (.map (some 2)) := by
  intro below address found
  rcases resolve_overrides found with ⟨rfl, rfl⟩ | ⟨rfl, rfl⟩
  · exact (iterationOrder_pair (by decide) _ _).2
  · exact (iterationOrder_pair (by decide) _ _).2

/-- Overrides of nested settings are merged with the defaults beside them, in whichever of
two orders they are visited. -/
theorem replaceMergeMap_deepMerge_overrides :
    Trees defaultsAndOverrides (some 0) (some 2) ∧
    OrderedFor overridesOrder [] defaultsAndOverrides (.map (some 2)) ∧
    OrderedFor overridesReversed [] defaultsAndOverrides (.map (some 2)) ∧
    (replaceMergeMap overridesOrder (some 0) (some 2) defaultsAndOverrides).2.view
        (some (.map (some 0))) =
      View.merge (defaultsAndOverrides.view (some (.map (some 0))))
        (defaultsAndOverrides.view (some (.map (some 2)))) ∧
    (replaceMergeMap overridesReversed (some 0) (some 2) defaultsAndOverrides).2.view
        (some (.map (some 0))) =
      View.merge (defaultsAndOverrides.view (some (.map (some 0))))
        (defaultsAndOverrides.view (some (.map (some 2)))) ∧
    (replaceMergeMap overridesOrder (some 0) (some 2) defaultsAndOverrides).2.view
        (some (.map (some 0))) ["jwt", "leeway"] = some (.leaf 5) ∧
    (replaceMergeMap overridesOrder (some 0) (some 2) defaultsAndOverrides).2.view
        (some (.map (some 0))) ["jwt", "expiration"] = some (.leaf 60) := by
  have forward := (replaceMergeMap_deepMerge overridesOrder (some 0) (some 2)
    defaultsAndOverrides trees_defaultsAndOverrides orderedFor_overridesOrder).2.1 rfl
  have backward := (replaceMergeMap_deepMerge overridesReversed (some 0) (some 2)
    defaultsAndOverrides trees_defaultsAndOverrides orderedFor_overridesReversed).2.1 rfl
  refine ⟨trees_defaultsAndOverrides, orderedFor_overridesOrder, orderedFor_overridesReversed,
    forward, backward, ?_, ?_⟩
  · rw [forward]
    rfl
  · rw [forward]
    rfl

end Defaults

end FluffyCore.Utils
