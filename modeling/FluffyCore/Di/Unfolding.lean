import FluffyCore.Di.CallSiteFactory
import FluffyCore.Library.Traversals
import Mathlib.Logic.Relation

/-!
# What a call site should be

The descriptors alone determine how the service of a type is made: unfold the last descriptor
filed under the type, and the types of its parameters in turn. This unfolding has no cache, no
mutexes and no chain, and its result has no addresses. It is undefined for a type that is not
registered, or whose dependencies never end.
-/

namespace FluffyCore.Di

open Library

/-- A call site without addresses. -/
inductive Shape where
  | node (site : Site) (parts : List Shape)

def Shape.site : Shape → Site
  | .node site _ => site

mutual

def CallSite.shape : CallSite → Shape
  | .node _ site callSites => .node site (shapes callSites)

def shapes : List CallSite → List Shape
  | [] => []
  | cs :: rest => cs.shape :: shapes rest

end

/-- The shapes of parts, one by one. -/
theorem shapes_eq_map (callSites : List CallSite) : shapes callSites = callSites.map (·.shape) := by
  induction callSites with
  | nil => rfl
  | cons cs rest inductionHypothesis => rw [shapes, inductionHypothesis, List.map_cons]

/-- The shape of a call site is its site with the shapes of its parts. -/
theorem shape_node (address : Nat) (site : Site) (callSites : List CallSite) :
    (CallSite.node address site callSites).shape = .node site (callSites.map (·.shape)) := by
  rw [CallSite.shape, shapes_eq_map]

/-- A shape has the site of its call site. -/
theorem site_shape (cs : CallSite) : cs.shape.site = cs.site := by
  obtain ⟨address, site, callSites⟩ := cs
  rw [shape_node]
  rfl

section Plan

variable (lookup : ServiceType → DescriptorCacheItem)

/-- Unfold a descriptor. -/
def planExact (plan : ServiceType → Option Shape) (d : Descriptor) (slot : Nat) : Option Shape :=
  let cache := newResultCacheWithLifetime d.lifetime d.serviceType slot
  match d.registered, d.factory, d.ctor with
  | some value, _, _ => some (.node (.constant d.serviceType (.registered value)) [])
  | none, some factory, _ => some (.node (.factory cache d.serviceType factory) [])
  | none, none, some ctor =>
      (ctor.inTypes.mapM plan).map (.node (.constructor cache d.serviceType ctor))
  | none, none, none => none

/-- Unfold a slice: one element for each descriptor of the element type. -/
def planSlice (plan : ServiceType → Option Shape) (elem : ServiceType) : Option Shape :=
  let item := lookup elem
  let parts := item.all.zipIdx.mapM fun (d, i) => planExact plan d (item.num - i - 1)
  parts.map fun parts =>
    .node (.slice (sliceCache (.slice elem) (parts.map fun part => part.site.cache.location)) elem)
      parts

/-- Unfold a type to a given depth. -/
def plan : Nat → ServiceType → Option Shape
  | 0, _ => none
  | depth + 1, t =>
      match builtInCallSite t with
      | some cs => some cs.shape
      | none =>
          match (lookup t).last with
          | some d => planExact (plan depth) d 0
          | none =>
              match t.elem with
              | some elem => planSlice lookup (plan depth) elem
              | none => none

variable {lookup}

/-- A descriptor that can be unfolded is one that says how to make its service, with parameters
that can be unfolded. -/
theorem planExact_mono {smaller larger : ServiceType → Option Shape}
    (grows : ∀ t shape, smaller t = some shape → larger t = some shape) {d : Descriptor}
    {slot : Nat} {shape : Shape} (planned : planExact smaller d slot = some shape) :
    planExact larger d slot = some shape := by
  unfold planExact at planned ⊢
  cases registered : d.registered with
  | some value =>
    simp only [registered] at planned ⊢
    exact planned
  | none =>
    cases factory : d.factory with
    | some made =>
      simp only [registered, factory] at planned ⊢
      exact planned
    | none =>
      cases ctor : d.ctor with
      | none => simp [registered, factory, ctor] at planned
      | some info =>
        simp only [registered, factory, ctor, Option.map_eq_some_iff,
          Traversals.mapM_eq_some_iff] at planned ⊢
        obtain ⟨parts, parameters, made⟩ := planned
        exact ⟨parts, parameters.imp fun _ _ found => grows _ _ found, made⟩

/-- A greater depth finds what a smaller one finds. -/
theorem plan_succ {depth : Nat} {t : ServiceType} {shape : Shape}
    (planned : plan lookup depth t = some shape) : plan lookup (depth + 1) t = some shape := by
  induction depth generalizing t shape with
  | zero => cases planned
  | succ depth inductionHypothesis =>
    unfold plan at planned ⊢
    cases builtIn : builtInCallSite t with
    | some cs =>
      simp only [builtIn] at planned ⊢
      exact planned
    | none =>
      simp only [builtIn] at planned ⊢
      cases last : (lookup t).last with
      | some d =>
        simp only [last] at planned ⊢
        exact planExact_mono (fun _ _ found => inductionHypothesis found) planned
      | none =>
        cases isSlice : t.elem with
        | none => simp [last, isSlice] at planned
        | some elem =>
          simp only [last, isSlice, planSlice, Option.map_eq_some_iff,
            Traversals.mapM_eq_some_iff] at planned ⊢
          obtain ⟨parts, elements, made⟩ := planned
          exact ⟨parts, elements.imp fun _ _ found =>
            planExact_mono (fun _ _ earlier => inductionHypothesis earlier) found, made⟩

/-- A type that unfolds at some depth unfolds to the same shape at every larger one. -/
theorem plan_mono {depth larger : Nat} {t : ServiceType} {shape : Shape} (deeper : depth ≤ larger)
    (planned : plan lookup depth t = some shape) : plan lookup larger t = some shape := by
  induction deeper with
  | refl => exact planned
  | step _ inductionHypothesis => exact plan_succ inductionHypothesis

/-- A descriptor that unfolds at some depth unfolds to the same shape at every larger one. -/
theorem planExact_deeper {depth larger : Nat} {d : Descriptor} {slot : Nat} {shape : Shape}
    (deeper : depth ≤ larger) (planned : planExact (plan lookup depth) d slot = some shape) :
    planExact (plan lookup larger) d slot = some shape :=
  planExact_mono (fun _ _ found => plan_mono deeper found) planned

/-- Finitely many unfoldings have a common depth. -/
theorem exists_common_depth {α : Type} (plans : Nat → α → Option Shape)
    (mono : ∀ {depth larger x shape}, depth ≤ larger → plans depth x = some shape →
      plans larger x = some shape) {xs : List α} {callSites : List CallSite}
    (each : List.Forall₂ (fun x cs => ∃ depth, plans depth x = some cs.shape) xs callSites) :
    ∃ depth, xs.mapM (plans depth) = some (callSites.map (·.shape)) := by
  simp only [Traversals.mapM_eq_some_iff, List.forall₂_map_right_iff]
  induction each with
  | nil => exact ⟨0, List.Forall₂.nil⟩
  | cons first _ inductionHypothesis =>
    obtain ⟨depth, found⟩ := first
    obtain ⟨others, rest⟩ := inductionHypothesis
    refine ⟨max depth others, List.Forall₂.cons (mono (Nat.le_max_left _ _) found) ?_⟩
    exact rest.imp fun _ _ found => mono (Nat.le_max_right _ _) found

end Plan

section Dependencies

variable (lookup : ServiceType → DescriptorCacheItem)

/-- The descriptors that a request for a type can lead to: those filed under it or, for a slice
that is not registered itself, those of its element type. -/
def filed (t : ServiceType) : List Descriptor :=
  if (lookup t).all = [] then
    match t.elem with
    | some elem => (lookup elem).all
    | none => []
  else (lookup t).all

/-- A type uses the types that a descriptor filed for it needs. -/
def Uses (t u : ServiceType) : Prop :=
  ∃ d ∈ filed lookup t, u ∈ d.needs

/-- No type uses itself, directly or through others. -/
def Acyclic : Prop :=
  ∀ t, ¬ Relation.TransGen (Uses lookup) t t

/-- The descriptor in a slot. -/
def atSlot (t : ServiceType) (slot : Nat) : Option Descriptor :=
  (filed lookup t).reverse[slot]?

variable {lookup}

/-- Dependencies along which a rank decreases are not circular. -/
theorem acyclic_of_rank (rank : ServiceType → Nat)
    (decreases : ∀ t u, Uses lookup t u → rank u < rank t) : Acyclic lookup := by
  intro t circle
  have smaller {u : ServiceType} (path : Relation.TransGen (Uses lookup) t u) :
      rank u < rank t := by
    induction path with
    | single uses => exact decreases _ _ uses
    | tail _ uses inductionHypothesis => exact Nat.lt_trans (decreases _ _ uses) inductionHypothesis
  exact Nat.lt_irrefl _ (smaller circle)

/-- For a type that is registered, its own descriptors count. -/
theorem filed_eq {t : ServiceType} (registered : (lookup t).all ≠ []) :
    filed lookup t = (lookup t).all := by
  rw [filed, if_neg registered]

/-- For a slice that is not registered, the descriptors of its element type count. -/
theorem filed_slice {elem : ServiceType} (unregistered : (lookup (.slice elem)).all = []) :
    filed lookup (.slice elem) = (lookup elem).all := by
  rw [filed, if_pos unregistered]
  rfl

/-- The last descriptor has slot 0. -/
theorem atSlot_last {t : ServiceType} {d : Descriptor} (last : (lookup t).last = some d) :
    atSlot lookup t 0 = some d := by
  rw [DescriptorCacheItem.last_eq] at last
  have registered : (lookup t).all ≠ [] := by
    intro empty
    simp [empty] at last
  rw [atSlot, filed_eq registered, ← List.head?_eq_getElem?, List.head?_reverse]
  exact last

/-- A descriptor in a slot of a type is one that a request for the type can lead to. -/
theorem mem_filed_of_atSlot {t : ServiceType} {slot : Nat} {d : Descriptor}
    (found : atSlot lookup t slot = some d) : d ∈ filed lookup t :=
  List.mem_reverse.1 (List.mem_of_getElem? found)

/-- The position of a descriptor from the front and its slot. -/
theorem atSlot_of_getElem? {t : ServiceType} {i : Nat} {d : Descriptor}
    (found : (filed lookup t)[i]? = some d) :
    atSlot lookup t ((filed lookup t).length - i - 1) = some d := by
  have inside : i < (filed lookup t).length := (List.getElem?_eq_some_iff.1 found).1
  rw [atSlot, List.getElem?_reverse (by omega)]
  rw [show (filed lookup t).length - 1 - ((filed lookup t).length - i - 1) = i by omega]
  exact found

end Dependencies

end FluffyCore.Di
