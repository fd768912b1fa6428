import FluffyCore.Library.Compaction
import Mathlib.Data.List.Basic
import Mathlib.Logic.Function.Basic

/-!
# Registrations of the container

A builder collects descriptors. A descriptor says which type it serves, how long its services
live and how one is made: from a registered instance, by a factory or by a constructor whose
parameters are services themselves. It may also be filed under interfaces that its type
implements, and under lookup keys.

The call-site factory files every descriptor in order of registration. The last one filed under
a type serves requests for that type, and all of them serve requests for a slice of it. The
slot of a descriptor is its position counted from the end, so the last one has slot 0.
-/

namespace FluffyCore.Di

open Library

/-- A type as the container looks at it: one of its own three interfaces, a slice, or any other
type, known by its name. -/
inductive ServiceType where
  | container
  | scopeFactory
  | isService
  | named (name : String)
  | slice (elem : ServiceType)
deriving DecidableEq

/-- The element type of a slice. -/
def ServiceType.elem : ServiceType → Option ServiceType
  | .slice elem => some elem
  | _ => none

/-- A type with an element type is the slice of it. -/
theorem eq_slice_of_elem {t elem : ServiceType} (isSlice : t.elem = some elem) :
    t = .slice elem := by
  cases t <;> simp_all [ServiceType.elem]

inductive Lifetime where
  | singleton
  | scoped
  | transient
deriving DecidableEq

/-- A constructor function with the types of its parameters. -/
structure ConstructorInfo where
  funcValue : Nat
  inTypes : List ServiceType
deriving DecidableEq

/-- A registered instance, and whether it has a `Dispose` method. -/
structure Instance where
  id : Nat
  disposable : Bool
deriving DecidableEq

/-- A descriptor is known by its pointer. Of the three ways to make a service the first that is
present is used: the instance, the factory, the constructor. -/
structure Descriptor where
  pointer : Nat
  serviceType : ServiceType
  lifetime : Lifetime
  ctor : Option ConstructorInfo := none
  registered : Option Instance := none
  factory : Option Nat := none
  implementedInterfaceTypes : List ServiceType := []
  lookupKeys : List String := []
deriving DecidableEq

/-- The types a descriptor is filed under. -/
def Descriptor.types (d : Descriptor) : List ServiceType :=
  d.serviceType :: d.implementedInterfaceTypes

/-- The types of the services that a descriptor needs. Only a constructor needs any. -/
def Descriptor.needs (d : Descriptor) : List ServiceType :=
  match d.registered, d.factory, d.ctor with
  | none, none, some ctor => ctor.inTypes
  | _, _, _ => []

/-- A descriptor that says how to make its service. -/
def Descriptor.isValid (d : Descriptor) : Bool :=
  d.registered.isSome || d.factory.isSome || d.ctor.isSome

section Builder

/-- The descriptor is filed under the type. -/
def descriptorImplements (d : Descriptor) (t : ServiceType) : Bool :=
  d.implementedInterfaceTypes.any (· == t)

structure ContainerBuilder where
  descriptors : List Descriptor := []

def ContainerBuilder.add (b : ContainerBuilder) (d : List Descriptor) : ContainerBuilder :=
  { b with descriptors := b.descriptors ++ d }

/-- Remove the descriptors of a type. The remaining ones are moved to the front of the cells
that the loop reads. -/
def ContainerBuilder.remove (b : ContainerBuilder) (t : ServiceType) : ContainerBuilder :=
  { b with
    descriptors :=
      Compaction.compact (fun d => !(d.serviceType == t || descriptorImplements d t))
        b.descriptors }

def ContainerBuilder.contains (b : ContainerBuilder) (t : ServiceType) : Bool :=
  b.descriptors.any fun d => d.serviceType == t || descriptorImplements d t

/-- The test of the builder asks whether the descriptor is filed under the type. -/
theorem serves_iff (d : Descriptor) (t : ServiceType) :
    (d.serviceType == t || descriptorImplements d t) = true ↔ t ∈ d.types := by
  simp [descriptorImplements, Descriptor.types, @eq_comm _ t]

/-- What remains are the descriptors that are not filed under the type, in their order. -/
theorem remove_descriptors (b : ContainerBuilder) (t : ServiceType) :
    (b.remove t).descriptors = b.descriptors.filter (t ∉ ·.types) := by
  rw [ContainerBuilder.remove, Compaction.compact_eq_filter]
  refine List.filter_congr fun d _ => ?_
  rw [Bool.eq_iff_iff, Bool.not_eq_true', ← Bool.not_eq_true, serves_iff, decide_eq_true_eq]

/-- A type is contained when a registered descriptor is filed under it. -/
theorem contains_iff (b : ContainerBuilder) (t : ServiceType) :
    b.contains t = true ↔ ∃ d ∈ b.descriptors, t ∈ d.types := by
  simp only [ContainerBuilder.contains, List.any_eq_true, serves_iff]

/-- A call on the builder. -/
inductive Registration where
  | add (d : List Descriptor)
  | remove (t : ServiceType)
deriving DecidableEq

def Registration.apply (b : ContainerBuilder) : Registration → ContainerBuilder
  | .add d => b.add d
  | .remove t => b.remove t

/-- The builder after a sequence of calls. -/
def register (calls : List Registration) : ContainerBuilder :=
  calls.foldl Registration.apply {}

end Builder

/-- The descriptors filed under one key: the first one, and the later ones. -/
structure DescriptorCacheItem where
  item : Option Descriptor := none
  items : List Descriptor := []
  filled : item = none → items = [] := by simp

namespace DescriptorCacheItem

/-- All descriptors of an item, in the order they were filed. -/
def all (dci : DescriptorCacheItem) : List Descriptor :=
  dci.item.toList ++ dci.items

def last (dci : DescriptorCacheItem) : Option Descriptor :=
  match dci.items.getLast? with
  | some d => some d
  | none => dci.item

def num (dci : DescriptorCacheItem) : Nat :=
  if dci.item.isNone then 0 else 1 + dci.items.length

/-- The descriptor at an index. No value stands for the panic of an index out of range. -/
def get (dci : DescriptorCacheItem) (index : Nat) : Option Descriptor :=
  if dci.num ≤ index then none
  else if index = 0 then dci.item
  else dci.items[index - 1]?

/-- The slot of a descriptor. No value stands for the panic of a descriptor not filed here. -/
def getSlot (dci : DescriptorCacheItem) (d : Descriptor) : Option Nat :=
  if dci.item.any (·.pointer == d.pointer) then some (dci.num - 1)
  else
    (dci.items.findIdx? (·.pointer == d.pointer)).map fun i => dci.items.length - (i + 1)

def add (dci : DescriptorCacheItem) (d : Descriptor) : DescriptorCacheItem :=
  match dci.item with
  | none => { item := some d }
  | some first => { item := some first, items := dci.items ++ [d] }

/-- An empty item holds no descriptor. -/
@[simp] theorem all_empty : ({} : DescriptorCacheItem).all = [] := rfl

/-- Adding to an item appends to its descriptors. -/
@[simp] theorem all_add (dci : DescriptorCacheItem) (d : Descriptor) :
    (dci.add d).all = dci.all ++ [d] := by
  obtain ⟨item, items, filled⟩ := dci
  cases item with
  | none =>
    obtain rfl := filled rfl
    rfl
  | some first => simp [add, all]

/-- The last descriptor of an item is the last one in order. -/
theorem last_eq (dci : DescriptorCacheItem) : dci.last = dci.all.getLast? := by
  obtain ⟨item, items, filled⟩ := dci
  cases item with
  | none =>
    obtain rfl := filled rfl
    rfl
  | some first =>
    cases found : items.getLast? with
    | none =>
      obtain rfl := List.getLast?_eq_none_iff.1 found
      rfl
    | some d => simp [last, all, List.getLast?_cons, found]

/-- An item counts its descriptors. -/
theorem num_eq (dci : DescriptorCacheItem) : dci.num = dci.all.length := by
  obtain ⟨item, items, filled⟩ := dci
  cases item with
  | none =>
    obtain rfl := filled rfl
    rfl
  | some first => simp [num, all, Nat.add_comm]

/-- Descriptors are numbered in the order in which they were added. -/
theorem get_eq (dci : DescriptorCacheItem) (index : Nat) : dci.get index = dci.all[index]? := by
  rw [get, num_eq]
  split
  case isTrue outside => rw [List.getElem?_eq_none outside]
  case isFalse inside =>
    obtain ⟨item, items, filled⟩ := dci
    cases item with
    | none =>
      obtain rfl := filled rfl
      simp [all] at inside
    | some first => cases index <;> simp [all]

/-- The slot counts from the end the first position that holds the descriptor. -/
theorem getSlot_eq (dci : DescriptorCacheItem) (d : Descriptor) :
    dci.getSlot d =
      (dci.all.findIdx? (·.pointer == d.pointer)).map fun i => dci.all.length - i - 1 := by
  obtain ⟨item, items, filled⟩ := dci
  cases item with
  | none =>
    obtain rfl := filled rfl
    rfl
  | some first =>
    by_cases same : first.pointer = d.pointer
    · simp [getSlot, all, num, same, List.findIdx?_cons]
    · simp [getSlot, all, same, List.findIdx?_cons, Function.comp_def, Nat.sub_sub]

end DescriptorCacheItem

section Lookup

variable {κ : Type} [DecidableEq κ] (keys : Descriptor → List κ)

/-- File a descriptor under one more key. -/
def fileUnder (d : Descriptor) (lookup : κ → DescriptorCacheItem) (key : κ) :
    κ → DescriptorCacheItem :=
  Function.update lookup key ((lookup key).add d)

/-- File descriptors under all their keys. A key without an entry has an empty item. -/
def populate (descriptors : List Descriptor) : κ → DescriptorCacheItem :=
  descriptors.foldl (fun lookup d => (keys d).foldl (fileUnder d) lookup) fun _ => {}

/-- The occurrences of a descriptor under a key. -/
def occurrences (key : κ) (d : Descriptor) : List Descriptor :=
  List.replicate ((keys d).count key) d

/-- A descriptor is filed under a name once for each time it has the name, and nothing else is
filed. -/
theorem all_fileUnder (d : Descriptor) (names : List κ) (lookup : κ → DescriptorCacheItem)
    (key : κ) :
    (names.foldl (fileUnder d) lookup key).all =
      (lookup key).all ++ List.replicate (names.count key) d := by
  induction names generalizing lookup with
  | nil => simp
  | cons name names inductionHypothesis =>
    rw [List.foldl_cons, inductionHypothesis, fileUnder]
    by_cases same : name = key
    · subst same
      simp [List.replicate_succ]
    · rw [Function.update_of_ne (Ne.symm same), List.count_cons_of_ne same]

/-- Under each key stand the descriptors that have it, in the order of registration. -/
theorem all_populate (descriptors : List Descriptor) (key : κ) :
    (populate keys descriptors key).all = descriptors.flatMap (occurrences keys key) := by
  have filed (lookup : κ → DescriptorCacheItem) :
      (descriptors.foldl (fun lookup d => (keys d).foldl (fileUnder d) lookup) lookup key).all =
        (lookup key).all ++ descriptors.flatMap (occurrences keys key) := by
    induction descriptors generalizing lookup with
    | nil => simp
    | cons d rest inductionHypothesis =>
      rw [List.foldl_cons, inductionHypothesis, all_fileUnder]
      simp [occurrences]
  simpa [populate] using filed fun _ => {}

/-- A descriptor stands under a key exactly if it is registered and has the key. -/
theorem mem_populate_iff (descriptors : List Descriptor) (key : κ) (d : Descriptor) :
    d ∈ (populate keys descriptors key).all ↔ d ∈ descriptors ∧ key ∈ keys d := by
  rw [all_populate, List.mem_flatMap]
  constructor
  · rintro ⟨other, registered, filed⟩
    obtain ⟨occurs, rfl⟩ := List.mem_replicate.1 filed
    exact ⟨registered, List.count_pos_iff.1 (Nat.pos_of_ne_zero occurs)⟩
  · rintro ⟨registered, named⟩
    exact ⟨d, registered, List.mem_replicate.2 ⟨Nat.ne_of_gt (List.count_pos_iff.2 named), rfl⟩⟩

end Lookup

section Registered

/-- No type that the descriptor is filed under is removed by one of the calls. -/
def Descriptor.KeptBy (calls : List Registration) (d : Descriptor) : Prop :=
  ∀ t ∈ d.types, .remove t ∉ calls

instance (calls : List Registration) (d : Descriptor) : Decidable (d.KeptBy calls) :=
  inferInstanceAs (Decidable (∀ t ∈ d.types, .remove t ∉ calls))

/-- Adding descriptors removes none. -/
theorem keptBy_add_iff (added : List Descriptor) (calls : List Registration) (d : Descriptor) :
    d.KeptBy (.add added :: calls) ↔ d.KeptBy calls := by
  simp [Descriptor.KeptBy]

/-- A descriptor is kept by a removal and the calls after it when it is not filed under the
removed type and the calls after it keep it. -/
theorem keptBy_remove_iff (t : ServiceType) (calls : List Registration) (d : Descriptor) :
    d.KeptBy (.remove t :: calls) ↔ d.KeptBy calls ∧ t ∉ d.types := by
  simp only [Descriptor.KeptBy, List.mem_cons, Registration.remove.injEq, not_or]
  constructor
  · intro kept
    exact ⟨fun u filed => (kept u filed).2, fun filed => (kept t filed).1 rfl⟩
  · rintro ⟨later, now⟩ u filed
    exact ⟨fun same => now (same ▸ filed), later u filed⟩

/-- The descriptors that a sequence of calls registers: those added with no later removal of a
type they are filed under. -/
def surviving : List Registration → List Descriptor
  | [] => []
  | .add d :: calls => d.filter (·.KeptBy calls) ++ surviving calls
  | .remove _ :: calls => surviving calls

/-- What the calls leave of a builder are its descriptors that no call removes, and after them
the ones that the calls register. -/
theorem foldl_apply_descriptors (calls : List Registration) (b : ContainerBuilder) :
    (calls.foldl Registration.apply b).descriptors =
      b.descriptors.filter (·.KeptBy calls) ++ surviving calls := by
  induction calls generalizing b with
  | nil => simp [surviving, Descriptor.KeptBy]
  | cons call calls inductionHypothesis =>
    rw [List.foldl_cons, inductionHypothesis]
    cases call with
    | add d =>
      simp only [Registration.apply, ContainerBuilder.add, surviving, keptBy_add_iff,
        List.filter_append, List.append_assoc]
    | remove t =>
      rw [Registration.apply, remove_descriptors, List.filter_filter, surviving]
      simp only [keptBy_remove_iff, Bool.decide_and]

/-- A descriptor that is filed several times under a key is still the last one there. -/
theorem getLast?_occurrences {κ : Type} [DecidableEq κ] (keys : Descriptor → List κ)
    (descriptors : List Descriptor) (key : κ) :
    (descriptors.flatMap (occurrences keys key)).getLast? =
      (descriptors.filter (key ∈ keys ·)).getLast? := by
  induction descriptors with
  | nil => rfl
  | cons d rest inductionHypothesis =>
    rw [List.flatMap_cons, List.getLast?_append, inductionHypothesis]
    by_cases named : key ∈ keys d
    · have occurs : (keys d).count key ≠ 0 := Nat.ne_of_gt (List.count_pos_iff.2 named)
      rw [occurrences, List.getLast?_replicate, if_neg occurs, Option.or_some,
        List.filter_cons_of_pos (by simpa using named), List.getLast?_cons]
    · rw [occurrences, List.count_eq_zero.2 named, List.replicate_zero, List.getLast?_nil,
        Option.or_none, List.filter_cons_of_neg (by simpa using named)]

/-- What a builder has after a sequence of calls. -/
theorem register_descriptors (calls : List Registration) :
    (register calls).descriptors = surviving calls := by
  simp [register, foldl_apply_descriptors]

end Registered

end FluffyCore.Di
