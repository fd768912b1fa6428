import FluffyCore.Di.Construction
import FluffyCore.Di.ResolverStacks

/-!
# Keys of nested call sites

Scoped services are kept under keys. For a call site that the factory makes from registrations
without circular dependencies, no scoped service needs a service with its own key, at any depth:
from the key one could go back to the descriptor, and around in a circle.
-/

namespace FluffyCore.Di

open Library Relation

/-- No scoped service in a call site needs a service with the same key. -/
def KeysNest (origin : CallSite) : Prop :=
  ∀ cs part key, (cs = origin ∨ Below cs origin) → Below part cs → cs.cache = .scope key →
    part.cache ≠ .scope key

section Origins

variable (lookup : ServiceType → DescriptorCacheItem)

/-- Where a call site comes from: it is one of the container's own, it was made from a descriptor
for requests of a type, or for the slice of a type. -/
inductive OriginOf (t : ServiceType) (cs : CallSite) : Prop where
  | builtIn (same : ∃ own, builtInCallSite t = some own ∧ cs.shape = own.shape)
  | descriptor (d : Descriptor) (slot depth : Nat) (found : atSlot lookup t slot = some d)
      (planned : planExact (plan lookup depth) d slot = some cs.shape)
  | slice (elem : ServiceType) (depth : Nat) (isSlice : t = .slice elem)
      (unregistered : (lookup t).all = [])
      (planned : planSlice lookup (plan lookup depth) elem = some cs.shape)

variable {lookup} {t : ServiceType} {cs part : CallSite}

/-- A call site with the shape that a type unfolds to has an origin in the registrations. -/
theorem originOf_plan {depth : Nat} (planned : plan lookup depth t = some cs.shape) :
    OriginOf lookup t cs := by
  cases depth with
  | zero => cases planned
  | succ depth =>
    unfold plan at planned
    split at planned
    case h_1 own builtIn => exact .builtIn ⟨own, builtIn, (Option.some.inj planned).symm⟩
    case h_2 =>
      split at planned
      case h_1 d last => exact .descriptor d 0 depth (atSlot_last last) planned
      case h_2 missing =>
        split at planned
        case h_2 => cases planned
        case h_1 elem isSlice =>
          rw [DescriptorCacheItem.last_eq, List.getLast?_eq_none_iff] at missing
          exact .slice elem depth (eq_slice_of_elem isSlice) missing planned

/-- A call site with the shape of a node has its site and parts of the node's shapes. -/
theorem shape_eq_node {site : Site} {parts : List Shape} (same : cs.shape = .node site parts) :
    cs.site = site ∧ cs.callSites.map (·.shape) = parts := by
  obtain ⟨address, own, callSites⟩ := cs
  rw [shape_node] at same
  exact ⟨(Shape.node.inj same).1, (Shape.node.inj same).2⟩

/-- The parts of a call site that was made from a descriptor are made for what it needs. -/
theorem originOf_parameter {d : Descriptor} {slot depth : Nat}
    (planned : planExact (plan lookup depth) d slot = some cs.shape)
    (inside : part ∈ cs.callSites) : ∃ u ∈ d.needs, OriginOf lookup u part := by
  unfold planExact at planned
  dsimp only at planned
  split at planned
  case h_1 | h_2 =>
    obtain ⟨_, none⟩ := shape_eq_node (Option.some.inj planned).symm
    simp [List.map_eq_nil_iff.1 none] at inside
  case h_3 ctor isRegistered isFactory isCtor =>
    obtain ⟨shapes, parameters, same⟩ := Option.map_eq_some_iff.1 planned
    obtain ⟨_, rfl⟩ := shape_eq_node same.symm
    rw [Traversals.mapM_eq_some_iff, List.forall₂_map_right_iff] at parameters
    obtain ⟨i, bound, rfl⟩ := List.getElem_of_mem inside
    have sameLength := parameters.length_eq
    refine ⟨ctor.inTypes.get ⟨i, sameLength ▸ bound⟩, ?_, ?_⟩
    · rw [Descriptor.needs, isRegistered, isFactory, isCtor]
      exact List.get_mem _ _
    · exact originOf_plan (parameters.get (sameLength ▸ bound) bound)
  case h_4 => cases planned

/-- The elements of a slice are made from the descriptors of its element type. -/
theorem originOf_element {elem : ServiceType} {depth : Nat}
    (unregistered : (lookup (.slice elem)).all = [])
    (planned : planSlice lookup (plan lookup depth) elem = some cs.shape)
    (inside : part ∈ cs.callSites) :
    ∃ d slot, atSlot lookup (.slice elem) slot = some d ∧
      planExact (plan lookup depth) d slot = some part.shape := by
  unfold planSlice at planned
  obtain ⟨shapes, elements, same⟩ := Option.map_eq_some_iff.1 planned
  obtain ⟨_, rfl⟩ := shape_eq_node same.symm
  rw [Traversals.mapM_eq_some_iff, List.forall₂_map_right_iff] at elements
  obtain ⟨i, bound, rfl⟩ := List.getElem_of_mem inside
  have within : i < (lookup elem).all.zipIdx.length := elements.length_eq ▸ bound
  have isPlanned := elements.get within bound
  simp only [List.get_eq_getElem, List.getElem_zipIdx, Nat.zero_add] at isPlanned
  refine ⟨_, _, ?_, isPlanned⟩
  rw [List.length_zipIdx] at within
  have isFiled := filed_slice unregistered
  have found : (filed lookup (.slice elem))[i]? = some (lookup elem).all[i] := by
    rw [isFiled, List.getElem?_eq_getElem within]
  simpa [isFiled, DescriptorCacheItem.num_eq] using atSlot_of_getElem? found

/-- The container's own call sites have no parts. -/
theorem callSites_of_builtIn (same : ∃ own, builtInCallSite t = some own ∧ cs.shape = own.shape) :
    cs.callSites = [] := by
  obtain ⟨⟨address, site, callSites⟩, builtIn, same⟩ := same
  have none : callSites = [] := by
    cases t <;> simp only [builtInCallSite, Option.some.injEq, reduceCtorEq] at builtIn
    all_goals
      cases builtIn
      rfl
  rw [shape_node, none] at same
  exact List.map_eq_nil_iff.1 (shape_eq_node same).2

/-- The parts of a call site come from the types that its type uses, or from the same type if it
is a slice. -/
theorem OriginOf.of_part (origin : OriginOf lookup t cs) (inside : part ∈ cs.callSites) :
    ∃ u, ReflTransGen (Uses lookup) t u ∧ OriginOf lookup u part := by
  cases origin with
  | builtIn same => simp [callSites_of_builtIn same] at inside
  | descriptor d slot depth found planned =>
    obtain ⟨u, needed, made⟩ := originOf_parameter planned inside
    exact ⟨u, .single ⟨d, mem_filed_of_atSlot found, needed⟩, made⟩
  | slice elem depth isSlice unregistered planned =>
    subst isSlice
    obtain ⟨d, slot, found, isPlanned⟩ := originOf_element unregistered planned inside
    exact ⟨_, .refl, .descriptor d slot depth found isPlanned⟩

/-- The same for parts at any depth. -/
theorem OriginOf.of_below (origin : OriginOf lookup t cs)
    (below : ReflTransGen (fun part whole => part ∈ whole.callSites) part cs) :
    ∃ u, ReflTransGen (Uses lookup) t u ∧ OriginOf lookup u part := by
  induction below using ReflTransGen.head_induction_on with
  | refl => exact ⟨t, .refl, origin⟩
  | head inside _ inductionHypothesis =>
    obtain ⟨u, path, whole⟩ := inductionHypothesis
    obtain ⟨v, next, made⟩ := whole.of_part inside
    exact ⟨v, path.trans next, made⟩

/-- A call site that was made from a descriptor has the key of the descriptor. -/
theorem key_of_planExact {d : Descriptor} {slot depth : Nat} {key : ServiceCacheKey}
    (planned : planExact (plan lookup depth) d slot = some cs.shape)
    (inScope : cs.cache = .scope key) : key = ⟨d.serviceType, slot⟩ := by
  have cached (cache : ResultCache)
      (same : cache = newResultCacheWithLifetime d.lifetime d.serviceType slot)
      (isCache : cache = .scope key) : key = ⟨d.serviceType, slot⟩ := by
    subst same
    cases lifetime : d.lifetime <;> rw [lifetime] at isCache <;> cases isCache
    rfl
  unfold planExact at planned
  unfold CallSite.cache at inScope
  dsimp only at planned
  split at planned
  case h_1 =>
    rw [(shape_eq_node (Option.some.inj planned).symm).1] at inScope
    cases inScope
  case h_2 =>
    rw [(shape_eq_node (Option.some.inj planned).symm).1] at inScope
    exact cached _ rfl inScope
  case h_3 =>
    obtain ⟨_, _, same⟩ := Option.map_eq_some_iff.1 planned
    rw [(shape_eq_node same.symm).1] at inScope
    exact cached _ rfl inScope
  case h_4 => cases planned

/-- The slice of a type is kept under that slice type, if it is kept in a scope. -/
theorem key_of_planSlice {elem : ServiceType} {depth : Nat} {key : ServiceCacheKey}
    (planned : planSlice lookup (plan lookup depth) elem = some cs.shape)
    (inScope : cs.cache = .scope key) : key = ⟨.slice elem, 0⟩ := by
  unfold planSlice at planned
  obtain ⟨_, _, same⟩ := Option.map_eq_some_iff.1 planned
  rw [CallSite.cache, (shape_eq_node same.symm).1, Site.cache, sliceCache] at inScope
  split at inScope <;> cases inScope
  rfl

/-- The container's own call sites are not kept in scopes. -/
theorem not_inScope_of_builtIn (same : ∃ own, builtInCallSite t = some own ∧ cs.shape = own.shape)
    (key : ServiceCacheKey) : cs.cache ≠ .scope key := by
  obtain ⟨own, builtIn, same⟩ := same
  rw [CallSite.cache, ← site_shape, same, site_shape]
  cases t <;> simp only [builtInCallSite, Option.some.injEq, reduceCtorEq] at builtIn
  all_goals
    subst builtIn
    simp [CallSite.site, Site.cache]

variable [OwnTypes lookup]

/-- A key that is one of a slice that is not registered is not one of a descriptor. -/
theorem serviceType_ne_slice {elem : ServiceType}
    (unregistered : (lookup (.slice elem)).all = []) {slot : Nat} {d : Descriptor}
    (found : atSlot lookup t slot = some d) : d.serviceType ≠ .slice elem := by
  intro same
  have own := mem_own (mem_filed_of_atSlot found)
  rw [same, unregistered] at own
  cases own

variable {key : ServiceCacheKey}

/-- What a scoped service that was made from a descriptor needs has another key. -/
theorem OriginOf.parameter_key_ne (consistent : Consistent lookup) (acyclic : Acyclic lookup)
    {d : Descriptor} {slot : Nat} (found : atSlot lookup t slot = some d)
    (isKey : key = ⟨d.serviceType, slot⟩) {u v : ServiceType} (needed : u ∈ d.needs)
    (path : ReflTransGen (Uses lookup) u v) (made : OriginOf lookup v part) :
    part.cache ≠ .scope key := by
  intro inScope
  cases made with
  | builtIn same => exact not_inScope_of_builtIn same key inScope
  | descriptor d' slot' depth found' planned =>
    have same := isKey.symm.trans (key_of_planExact planned inScope)
    obtain ⟨sameType, rfl⟩ := ServiceCacheKey.mk.inj same
    obtain rfl := consistent.unambiguous _ _ _ _ _ found found' sameType
    -- the same descriptor again, under a type that it led to
    exact acyclic u (TransGen.tail' path ⟨d, mem_filed_of_atSlot found', needed⟩)
  | slice elem depth isSlice unregistered planned =>
    subst isSlice
    have same := isKey.symm.trans (key_of_planSlice planned inScope)
    exact serviceType_ne_slice unregistered found (ServiceCacheKey.mk.inj same).1

/-- Call sites that come from registrations without circular dependencies have nested keys. -/
theorem OriginOf.keysNest (consistent : Consistent lookup) (acyclic : Acyclic lookup)
    (origin : OriginOf lookup t cs) : KeysNest cs := by
  intro whole part key inside below inScope
  have upwards : ReflTransGen (fun part whole => part ∈ whole.callSites) whole cs := by
    rcases inside with rfl | inside
    · exact .refl
    · exact inside.to_reflTransGen
  obtain ⟨w, _, made⟩ := origin.of_below upwards
  obtain ⟨child, path, isPart⟩ := TransGen.tail'_iff.1 below
  cases made with
  | builtIn same => exact absurd inScope (not_inScope_of_builtIn same key)
  | descriptor d slot depth found planned =>
    obtain ⟨u, needed, childMade⟩ := originOf_parameter planned isPart
    obtain ⟨v, leads, partMade⟩ := childMade.of_below path
    exact partMade.parameter_key_ne consistent acyclic found (key_of_planExact planned inScope)
      needed leads
  | slice elem depth isSlice unregistered planned =>
    subst isSlice
    obtain rfl := key_of_planSlice planned inScope
    obtain ⟨d, slot, found, childPlanned⟩ := originOf_element unregistered planned isPart
    intro partInScope
    rcases ReflTransGen.cases_tail path with rfl | ⟨grandchild, further, isChildPart⟩
    · have same := key_of_planExact childPlanned partInScope
      exact serviceType_ne_slice unregistered found (ServiceCacheKey.mk.inj same).1.symm
    · obtain ⟨u, needed, grandchildMade⟩ := originOf_parameter childPlanned isChildPart
      obtain ⟨v, leads, partMade⟩ := grandchildMade.of_below further
      cases partMade with
      | builtIn same => exact not_inScope_of_builtIn same _ partInScope
      | descriptor d' slot' depth' found' planned' =>
        have same := key_of_planExact planned' partInScope
        exact serviceType_ne_slice unregistered found' (ServiceCacheKey.mk.inj same).1.symm
      | slice elem' depth' isSlice' unregistered' planned' =>
        have same := key_of_planSlice planned' partInScope
        obtain rfl : elem = elem' := ServiceType.slice.inj (ServiceCacheKey.mk.inj same).1
        subst isSlice'
        exact acyclic u (TransGen.tail' leads ⟨d, mem_filed_of_atSlot found, needed⟩)

end Origins

end FluffyCore.Di
