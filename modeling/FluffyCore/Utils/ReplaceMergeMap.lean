import FluffyCore.Library.MapHeap
import FluffyCore.Status
import Mathlib.Order.Interval.Set.Defs

/-!
# Merging configuration maps

`ReplaceMergeMap` merges one map into another, key by key and in whatever order Go iterates
over the source. Where both sides hold a map it merges into a copy of the destination's and
stores the copy, to a bounded depth. Elsewhere it stores the source's value itself, so that
the destination shares maps with the source afterwards.

The only map a call writes to, apart from the copies it makes, is the destination.
Everything else that was there before is a part of the heap the call leaves alone.
-/

namespace FluffyCore.Utils

open Library.MapLoop Library.MapHeap

variable {Leaf : Type}

def maxDepth : Nat := 32

def depthExceeded : GoError := .status .invalidArgument "merge recursion max depth exceeded"

def dstIsNil : GoError := .status .invalidArgument "dst map is nil"

/-- What a call returns, and the heap it leaves. -/
abbrev Merged (Leaf : Type) : Type := Except GoError Unit × Heap String Leaf

/-- A map with string keys is copied. A nil one is copied to an empty map. -/
def mapify (heap : Heap String Leaf) : Value Leaf → Option Nat × Heap String Leaf
  | .leaf _ => (none, heap)
  | .map address => (some heap.next, heap.allocate (heap.read address))

/-- One round of the loop over the source. `recurse` is the call one level deeper. -/
def mergeKey
    (recurse : List String → Option Nat → Option Nat → Heap String Leaf → Merged Leaf)
    (path : List String) (dst : Nat) (src : Option Nat) (heap : Heap String Leaf) (key : String) :
    Merged Leaf :=
  match (heap.read src).lookup key with
  | none => (.ok (), heap)
  | some srcVal =>
    match (heap.cells dst).lookup key with
    | none => (.ok (), heap.store dst key srcVal)
    | some dstVal =>
      let (srcMap, heap) := mapify heap srcVal
      let (dstMap, heap) := mapify heap dstVal
      match srcMap, dstMap with
      | some srcMap, some dstMap =>
        match recurse (path ++ [key]) (some dstMap) (some srcMap) heap with
        | (.error err, heap) => (.error err, heap)
        | (.ok (), heap) => (.ok (), heap.store dst key (.map (some dstMap)))
      | _, _ => (.ok (), heap.store dst key srcVal)

/-- The loop over the source's keys stops at the first error. -/
def mergeKeys (round : Heap String Leaf → String → Merged Leaf) :
    List String → Heap String Leaf → Merged Leaf
  | [], heap => (.ok (), heap)
  | key :: rest, heap =>
    match round heap key with
    | (.error err, heap) => (.error err, heap)
    | (.ok (), heap) => mergeKeys round rest heap

/-- `replaceOnlyMergeMap`, with the levels that may still be entered in place of the depth:
none are left when the depth exceeds its maximum. `order` gives the order in which the
source's map at each path is iterated. -/
def replaceOnlyMergeMap (order : List String → List String) :
    Nat → List String → Option Nat → Option Nat → Heap String Leaf → Merged Leaf
  | 0, _, _, _, heap => (.error depthExceeded, heap)
  | levels + 1, path, dst, src, heap =>
    match dst with
    | none => (.error dstIsNil, heap)
    | some dst =>
      mergeKeys (mergeKey (replaceOnlyMergeMap order levels) path dst src) (order path) heap

def replaceMergeMap (order : List String → List String) (dst src : Option Nat)
    (heap : Heap String Leaf) : Merged Leaf :=
  replaceOnlyMergeMap order (maxDepth + 1) [] dst src heap

section Frame

/-- A later heap in which one map may have changed and others may have been added. -/
structure Extends (dst : Option Nat) (heap after : Heap String Leaf) : Prop where
  grows : heap.next ≤ after.next
  kept : ∀ address < heap.next, some address ≠ dst → after.cells address = heap.cells address

variable {dst : Option Nat} {heap middle after : Heap String Leaf}

/-- A heap extends itself. -/
theorem Extends.refl (dst : Option Nat) (heap : Heap String Leaf) : Extends dst heap heap :=
  ⟨le_rfl, fun _ _ _ => rfl⟩

/-- Extensions compose. -/
theorem Extends.trans (first : Extends dst heap middle) (second : Extends dst middle after) :
    Extends dst heap after where
  grows := first.grows.trans second.grows
  kept address inside other :=
    (second.kept address (inside.trans_le first.grows) other).trans
      (first.kept address inside other)

/-- Storing into the destination changes no other map. -/
theorem extends_store (heap : Heap String Leaf) (dst : Nat) (key : String) (value : Value Leaf) :
    Extends (some dst) heap (heap.store dst key value) where
  grows := le_rfl
  kept address _ other := by
    have differ : address ≠ dst := fun same => other (congrArg some same)
    simp [Heap.store, differ]

/-- A new map changes none that was there. -/
theorem extends_allocate (heap : Heap String Leaf) (dst : Option Nat)
    (entries : FiniteMap String (Value Leaf)) : Extends dst heap (heap.allocate entries) where
  grows := Nat.le_succ _
  kept address inside _ := by
    have differ : address ≠ heap.next := Nat.ne_of_lt inside
    simp [Heap.allocate, differ]

/-- A copy of a map changes none that was there. -/
theorem extends_mapify (heap : Heap String Leaf) (dst : Option Nat) (value : Value Leaf) :
    Extends dst heap (mapify heap value).2 := by
  cases value with
  | leaf content => exact Extends.refl dst heap
  | map address => exact extends_allocate heap dst _

/-- A call on a map that was not there before changes nothing that was. -/
theorem Extends.of_fresh {fresh : Nat} (later : heap.next ≤ fresh) (dst : Option Nat)
    (extended : Extends dst heap middle) (call : Extends (some fresh) middle after) :
    Extends dst heap after where
  grows := extended.grows.trans call.grows
  kept address inside other := by
    have differ : some address ≠ some fresh := by
      rw [ne_eq, Option.some.injEq]
      omega
    exact (call.kept address (inside.trans_le extended.grows) differ).trans
      (extended.kept address inside other)

/-- A round changes the destination only, if the calls it makes change theirs only. -/
theorem extends_mergeKey
    {recurse : List String → Option Nat → Option Nat → Heap String Leaf → Merged Leaf}
    (calls : ∀ path dst src heap, Extends dst heap (recurse path dst src heap).2)
    (path : List String) (dst : Nat) (src : Option Nat) (heap : Heap String Leaf)
    (key : String) : Extends (some dst) heap (mergeKey recurse path dst src heap key).2 := by
  unfold mergeKey
  split
  · exact Extends.refl _ heap
  · next srcVal _ =>
    split
    · exact extends_store heap dst key srcVal
    · next dstVal _ =>
      have copied : Extends (some dst) heap (mapify (mapify heap srcVal).2 dstVal).2 :=
        (extends_mapify heap _ srcVal).trans (extends_mapify _ _ dstVal)
      dsimp only
      split
      · next srcMap dstMap srcCopied dstCopied =>
        have later : heap.next ≤ dstMap := by
          cases dstVal with
          | leaf content => cases dstCopied
          | map address =>
            cases dstCopied
            exact (extends_mapify heap none srcVal).grows
        have call := Extends.of_fresh later (some dst) copied
          (calls (path ++ [key]) (some dstMap) (some srcMap) _)
        split
        · next failed =>
          rw [failed] at call
          exact call
        · next finished =>
          rw [finished] at call
          exact call.trans (extends_store _ dst key _)
      · exact copied.trans (extends_store _ dst key srcVal)

/-- A call leaves every map alone that was there before, except for the destination. -/
theorem extends_replaceOnlyMergeMap (order : List String → List String) (levels : Nat)
    (path : List String) (dst src : Option Nat) (heap : Heap String Leaf) :
    Extends dst heap (replaceOnlyMergeMap order levels path dst src heap).2 := by
  induction levels generalizing path dst src heap with
  | zero => exact Extends.refl dst heap
  | succ levels inductionHypothesis =>
    cases dst with
    | none => exact Extends.refl none heap
    | some dst =>
      rw [replaceOnlyMergeMap]
      generalize order path = keys
      induction keys generalizing heap with
      | nil => exact Extends.refl _ heap
      | cons key rest loop =>
        have round := extends_mergeKey inductionHypothesis path dst src heap key
        rw [mergeKeys]
        split
        · next failed =>
          rw [failed] at round
          exact round
        · next finished =>
          rw [finished] at round
          exact round.trans (loop _)

end Frame

end FluffyCore.Utils
