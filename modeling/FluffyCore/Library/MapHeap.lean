import FluffyCore.Library.MapLoop
import Mathlib.Data.Set.Basic

/-!
# Nested maps in a heap

Maps are references: a map that holds another map holds its address, and two holders of one
address see each other's writes. What a value means to a reader is its view, which gives for
every path of keys what stands there. Two values with equal views are the same tree.

A set of addresses that is closed under following references is a part of the heap of its
own. Writes outside of it change no view of a value in it.
-/

namespace FluffyCore.Library.MapHeap

open Library.MapLoop

variable {κ Leaf : Type}

/-- A value in a map: something that is not a map, or a reference to one. The reference
may be nil, which reads as an empty map. -/
inductive Value (Leaf : Type) where
  | leaf (content : Leaf)
  | map (address : Option Nat)
deriving DecidableEq

/-- What a reader sees of a value without looking inside. -/
inductive Shape (Leaf : Type) where
  | leaf (content : Leaf)
  | map
deriving DecidableEq

def Value.shape : Value Leaf → Shape Leaf
  | .leaf content => .leaf content
  | .map _ => .map

/-- A value that looks like a map is one. -/
theorem Value.shape_eq_map {value : Value Leaf} (shape : value.shape = .map) :
    ∃ address, value = .map address := by
  cases value with
  | leaf content => cases shape
  | map address => exact ⟨address, rfl⟩

/-- The maps at the addresses given out so far. -/
structure Heap (κ Leaf : Type) where
  cells : Nat → FiniteMap κ (Value Leaf)
  next : Nat

/-- What stands at each path below a tree. -/
abbrev View (κ Leaf : Type) : Type := List κ → Option (Shape Leaf)

namespace View

/-- The part of a tree under a key. -/
def under (view : View κ Leaf) (key : κ) : View κ Leaf := fun path => view (key :: path)

/-- The right-biased merge of two trees: where both are maps, their keys are merged;
elsewhere the right tree, if there is one, takes the place of the left one. -/
def merge : View κ Leaf → View κ Leaf → View κ Leaf
  | dst, src, [] => (src []).or (dst [])
  | dst, src, key :: path =>
    match dst [], src [] with
    | some .map, some .map => merge (dst.under key) (src.under key) path
    | _, none => dst (key :: path)
    | _, some _ => src (key :: path)

/-- The keys of two maps are merged one by one. -/
theorem under_merge {dst src : View κ Leaf} (dstMap : dst [] = some .map)
    (srcMap : src [] = some .map) (key : κ) :
    (merge dst src).under key = merge (dst.under key) (src.under key) := by
  funext path
  simp [under, merge, dstMap, srcMap]

/-- A tree that is absent on the right changes nothing. -/
theorem merge_none {dst src : View κ Leaf} (absent : src [] = none) : merge dst src = dst := by
  funext path
  cases path with
  | nil => simp [merge, absent]
  | cons key path => simp [merge, absent]

/-- Unless both trees are maps, a tree on the right takes the place of the left one. -/
theorem merge_some {dst src : View κ Leaf} {shape : Shape Leaf} (present : src [] = some shape)
    (notBoth : dst [] ≠ some .map ∨ shape ≠ .map) : merge dst src = src := by
  funext path
  cases path with
  | nil => simp [merge, present]
  | cons key path =>
    rw [merge, present]
    split
    · next dstMap srcMap =>
      rw [Option.some.injEq] at srcMap
      rcases notBoth with other | other
      · exact absurd dstMap other
      · exact absurd srcMap other
    · next absent => cases absent
    · rfl

/-- Merging a tree with itself gives the tree. -/
theorem merge_self (view : View κ Leaf) : merge view view = view := by
  funext path
  induction path generalizing view with
  | nil => simp [merge]
  | cons key path inductionHypothesis =>
    rw [merge]
    split
    · exact inductionHypothesis (view.under key)
    · rfl
    · rfl

/-- Merging the same tree again gives nothing new. -/
theorem merge_merge (dst src : View κ Leaf) : merge (merge dst src) src = merge dst src := by
  funext path
  induction path generalizing dst src with
  | nil => cases present : src [] <;> simp [merge, present]
  | cons key path inductionHypothesis =>
    cases present : src [] with
    | none => rw [merge_none present, merge_none present]
    | some shape =>
      by_cases both : dst [] = some .map ∧ shape = .map
      · obtain ⟨dstMap, rfl⟩ := both
        have merged : merge dst src [] = some .map := by simp [merge, present]
        have now := congrFun (under_merge merged present key) path
        rw [under_merge dstMap present, inductionHypothesis] at now
        have before := congrFun (under_merge dstMap present key) path
        exact now.trans before.symm
      · have notBoth : dst [] ≠ some .map ∨ shape ≠ .map := by
          by_cases dstMap : dst [] = some .map
          · exact Or.inr fun same => both ⟨dstMap, same⟩
          · exact Or.inl dstMap
        rw [merge_some present notBoth, merge_self]

end View

namespace Heap

variable [DecidableEq κ]

/-- The map behind a reference. -/
def read (heap : Heap κ Leaf) : Option Nat → FiniteMap κ (Value Leaf)
  | some address => heap.cells address
  | none => ∅

/-- What a value holds under a key. -/
def child (heap : Heap κ Leaf) (key : κ) : Value Leaf → Option (Value Leaf)
  | .leaf _ => none
  | .map address => (heap.read address).lookup key

/-- Follow a path of keys. -/
def resolve (heap : Heap κ Leaf) : List κ → Value Leaf → Option (Value Leaf)
  | [], value => some value
  | key :: path, value => (heap.child key value).bind (heap.resolve path)

/-- The tree a value stands for; nothing at all for a missing one. -/
def view (heap : Heap κ Leaf) (value : Option (Value Leaf)) : View κ Leaf :=
  fun path => (value.bind (heap.resolve path)).map Value.shape

/-- Put a value into the map at an address. -/
def store (heap : Heap κ Leaf) (address : Nat) (key : κ) (value : Value Leaf) : Heap κ Leaf :=
  { heap with
    cells := Function.update heap.cells address ((heap.cells address).insert key value) }

/-- Make a map with the given entries at a new address. -/
def allocate (heap : Heap κ Leaf) (entries : FiniteMap κ (Value Leaf)) : Heap κ Leaf where
  cells := Function.update heap.cells heap.next entries
  next := heap.next + 1

/-- Below an absent value, every path is absent. -/
theorem view_none (heap : Heap κ Leaf) : heap.view none = fun _ => none := by
  funext path
  simp [view]

/-- The empty path shows the value itself. -/
theorem view_some_nil (heap : Heap κ Leaf) (value : Value Leaf) :
    heap.view (some value) [] = some value.shape := by
  simp [view, resolve]

/-- Below a key stands the tree of the value there. -/
theorem under_view (heap : Heap κ Leaf) (value : Value Leaf) (key : κ) :
    (heap.view (some value)).under key = heap.view (heap.child key value) := by
  funext path
  simp [View.under, view, resolve]

/-- A path is followed one part after the other. -/
theorem resolve_append (heap : Heap κ Leaf) (first second : List κ) (value : Value Leaf) :
    heap.resolve (first ++ second) value =
      (heap.resolve first value).bind (heap.resolve second) := by
  induction first generalizing value with
  | nil => rfl
  | cons key first inductionHypothesis =>
    rw [List.cons_append, resolve, resolve]
    cases heap.child key value with
    | none => rfl
    | some inner => exact inductionHypothesis inner

/-- Only maps have maps below them. -/
theorem map_of_view {heap : Heap κ Leaf} {value : Option (Value Leaf)} {path : List κ}
    (deep : heap.view value path = some .map) : ∃ address, value = some (.map address) := by
  cases value with
  | none => simp [view_none] at deep
  | some value =>
    cases value with
    | map address => exact ⟨address, rfl⟩
    | leaf content =>
      cases path with
      | nil => simp [view_some_nil, Value.shape] at deep
      | cons key path => simp [view, resolve, child] at deep

/-- Above a map stand maps. -/
theorem view_take {heap : Heap κ Leaf} {value : Option (Value Leaf)} {path : List κ}
    (deep : heap.view value path = some .map) (count : Nat) :
    heap.view value (path.take count) = some .map := by
  induction path generalizing value count with
  | nil =>
    rw [List.take_nil]
    exact deep
  | cons key path inductionHypothesis =>
    obtain ⟨address, rfl⟩ := map_of_view deep
    cases count with
    | zero => simp [view_some_nil, Value.shape]
    | succ count =>
      rw [List.take_succ_cons]
      have below := congrFun (heap.under_view (.map address) key)
      exact (below _).trans (inductionHypothesis ((below path).symm.trans deep) count)

/-- The reference of a value, if it has one, is in a set of addresses. -/
def Within (addresses : Set Nat) (value : Value Leaf) : Prop :=
  ∀ address, value = .map (some address) → address ∈ addresses

/-- The values of the map at an address have their references in a set of addresses. -/
def HoldsWithin (heap : Heap κ Leaf) (addresses : Set Nat) (address : Nat) : Prop :=
  ∀ key value, (heap.cells address).lookup key = some value → Within addresses value

/-- Following references does not lead out of a set of addresses. -/
def Closed (heap : Heap κ Leaf) (addresses : Set Nat) : Prop :=
  ∀ address ∈ addresses, heap.HoldsWithin addresses address

omit [DecidableEq κ] in
/-- A value within a set of addresses is within every larger one. -/
theorem Within.mono {first second : Set Nat} (smaller : first ⊆ second) {value : Value Leaf}
    (within : Within first value) : Within second value :=
  fun address same => smaller (within address same)

/-- A map that holds references within a set of addresses does so for every larger one. -/
theorem HoldsWithin.mono {heap : Heap κ Leaf} {first second : Set Nat} (smaller : first ⊆ second)
    {address : Nat} (holds : heap.HoldsWithin first address) : heap.HoldsWithin second address :=
  fun key value found => (holds key value found).mono smaller

section Agreement

variable {heap after : Heap κ Leaf} {addresses : Set Nat}

/-- What a value of a closed part holds is in that part. -/
theorem Closed.child_within (closed : heap.Closed addresses) {key : κ} {value inner : Value Leaf}
    (within : Within addresses value) (found : heap.child key value = some inner) :
    Within addresses inner := by
  cases value with
  | leaf content => cases found
  | map address =>
    cases address with
    | none => simp [child, read] at found
    | some address => exact closed address (within address rfl) key inner found

/-- What is found below a value of a closed part is in that part. -/
theorem Closed.resolve_within (closed : heap.Closed addresses) {path : List κ}
    {value inner : Value Leaf} (within : Within addresses value)
    (found : heap.resolve path value = some inner) : Within addresses inner := by
  induction path generalizing value with
  | nil =>
    rw [resolve, Option.some.injEq] at found
    exact found ▸ within
  | cons key path inductionHypothesis =>
    obtain ⟨next, here, below⟩ := Option.bind_eq_some_iff.1 found
    exact inductionHypothesis (closed.child_within within here) below

/-- Heaps that agree on a closed part hold the same below its values. -/
theorem child_congr (agree : ∀ address ∈ addresses, after.cells address = heap.cells address)
    {value : Value Leaf} (within : Within addresses value) (key : κ) :
    after.child key value = heap.child key value := by
  cases value with
  | leaf content => rfl
  | map address =>
    cases address with
    | none => rfl
    | some address => simp only [child, read, agree address (within address rfl)]

/-- Heaps that agree on a closed part find the same along every path from its values. -/
theorem Closed.resolve_congr (closed : heap.Closed addresses)
    (agree : ∀ address ∈ addresses, after.cells address = heap.cells address)
    {value : Value Leaf} (within : Within addresses value) (path : List κ) :
    after.resolve path value = heap.resolve path value := by
  induction path generalizing value with
  | nil => rfl
  | cons key path inductionHypothesis =>
    rw [resolve, resolve, child_congr agree within]
    cases found : heap.child key value with
    | none => rfl
    | some inner => exact inductionHypothesis (closed.child_within within found)

/-- Heaps that agree on a closed part have the same views of its values. -/
theorem Closed.view_congr (closed : heap.Closed addresses)
    (agree : ∀ address ∈ addresses, after.cells address = heap.cells address)
    {value : Option (Value Leaf)} (within : ∀ inner ∈ value, Within addresses inner) :
    after.view value = heap.view value := by
  funext path
  cases value with
  | none => rfl
  | some inner =>
    simp only [view, Option.bind_some, closed.resolve_congr agree (within inner rfl)]

end Agreement

end Heap

end FluffyCore.Library.MapHeap
