import FluffyCore.Di.Unfolding
import Mathlib.Data.List.Perm.Subperm

/-!
# The factory makes the call sites that the descriptors say

The factory answers a request from its cache, fills the cache on the way and leaves it filled
when it fails. Nevertheless its answers are those of the unfolding, whatever was requested
before: it returns a call site of the shape that the type unfolds to, or an error when the type
does not unfold. This holds for registrations without circular dependencies, in which no two
descriptors compete for a place in the cache. It then never reports a circular dependency and
never waits for its own mutexes.

Call sites are shared: wherever a registered type occurs, as a request or as a parameter of a
constructor, it has the call site that the cache keeps for its last descriptor.
-/

namespace FluffyCore.Di

open Library Relation

/-- Registrations in which a place in the cache belongs to one descriptor. Nothing is filed under
the types that the container serves itself, the last descriptor filed under a registered type is
one of that type, and two descriptors of one type never have the same slot. -/
structure Consistent (lookup : ServiceType → DescriptorCacheItem) : Prop where
  reserved : ∀ t d, d ∈ (lookup t).all → builtInCallSite t = none
  latest : ∀ d l, d ∈ (lookup d.serviceType).all → (lookup d.serviceType).last = some l →
    l.serviceType = d.serviceType
  unambiguous : ∀ t t' slot d d', atSlot lookup t slot = some d → atSlot lookup t' slot = some d' →
    d.serviceType = d'.serviceType → d = d'

/-- All types that constructors need are known. -/
def Closed (lookup : ServiceType → DescriptorCacheItem) (known : List ServiceType) : Prop :=
  ∀ d u, d ∈ (lookup d.serviceType).all → u ∈ d.needs → u ∈ known

/-- Tables in which every descriptor is filed under its own type. -/
class OwnTypes (lookup : ServiceType → DescriptorCacheItem) : Prop where
  own : ∀ t d, d ∈ (lookup t).all → d ∈ (lookup d.serviceType).all

/-- The table of the factory is one of them. -/
instance (descriptors : List Descriptor) : OwnTypes (descriptorLookup descriptors) where
  own _ d inside := (mem_lookup_iff _ d).2 ⟨((mem_lookup_iff _ d).1 inside).1, List.mem_cons_self⟩

/-- What a request for a type leads to is filed under its own type. -/
theorem mem_own {lookup : ServiceType → DescriptorCacheItem} [OwnTypes lookup] {t : ServiceType}
    {d : Descriptor} (inside : d ∈ filed lookup t) : d ∈ (lookup d.serviceType).all := by
  unfold filed at inside
  split at inside
  case isFalse => exact OwnTypes.own t d inside
  case isTrue =>
    cases isSlice : t.elem with
    | none => simp [isSlice] at inside
    | some elem =>
      simp only [isSlice] at inside
      exact OwnTypes.own elem d inside

/-- The type of a descriptor uses what the descriptor needs. -/
theorem uses_own {lookup : ServiceType → DescriptorCacheItem} [OwnTypes lookup]
    {t u : ServiceType} {d : Descriptor} (inside : d ∈ filed lookup t) (needed : u ∈ d.needs) :
    Uses lookup d.serviceType u := by
  have member := mem_own inside
  refine ⟨d, ?_, needed⟩
  rw [filed_eq (List.ne_nil_of_mem member)]
  exact member

section Soundness

variable (lookup : ServiceType → DescriptorCacheItem)

/-- What a call site in the cache was made from. -/
inductive Made (key : ServiceCacheKey) (cs : CallSite) : Prop where
  | builtIn (slot : key.slot = 0) (same : builtInCallSite key.serviceType = some cs)
  | descriptor (t : ServiceType) (d : Descriptor) (depth : Nat)
      (filed : atSlot lookup t key.slot = some d) (own : d.serviceType = key.serviceType)
      (planned : planExact (plan lookup depth) d key.slot = some cs.shape)

/-- The call site that a cache has for a type. That of a slice that is not registered is not
kept itself, but its elements are. -/
inductive Answers (cache : ServiceCacheKey → Option CallSite) (t : ServiceType) (cs : CallSite) :
    Prop where
  | builtIn (same : builtInCallSite t = some cs) (kept : cache ⟨t, 0⟩ = some cs)
  | registered (d : Descriptor) (last : (lookup t).last = some d)
      (kept : cache ⟨d.serviceType, 0⟩ = some cs)
  | slice (elem : ServiceType) (isSlice : t = .slice elem) (unregistered : (lookup t).last = none)
      (elements : List.Forall₂
        (fun entry part => cache ⟨entry.1.serviceType, (lookup elem).num - entry.2 - 1⟩ = some part)
        (lookup elem).all.zipIdx cs.callSites)

/-- What holds of the cache after every request. -/
structure Sound (c : Construction) : Prop where
  made : ∀ key cs, c.callSiteCache key = some cs → Made lookup key cs
  shared : ∀ key cs, c.callSiteCache key = some cs → ∀ cache t ctor,
    cs.site = .constructor cache t ctor →
      List.Forall₂ (Answers lookup c.callSiteCache) ctor.inTypes cs.callSites
  builtIn : ∀ t cs, builtInCallSite t = some cs → c.callSiteCache ⟨t, 0⟩ = some cs

/-- What a program of the factory does to the state: it releases the mutexes it took, it takes
its entries off the chain, and it adds call sites of some descriptors to the cache. -/
structure Progress (within : ServiceType → Prop) (s s' : Construction) : Prop where
  lockers : s'.lockers = s.lockers
  chain : ∀ t ∈ s'.chain, t ∈ s.chain
  grows : ∀ key cs, s.callSiteCache key = some cs → s'.callSiteCache key = some cs
  fresh : ∀ key, s.callSiteCache key = none → s'.callSiteCache key ≠ none →
    ∃ t d, within t ∧ atSlot lookup t key.slot = some d ∧ d.serviceType = key.serviceType

variable {lookup}

/-- Doing nothing is progress. -/
theorem Progress.refl (within : ServiceType → Prop) (s : Construction) :
    Progress lookup within s s :=
  ⟨rfl, fun _ member => member, fun _ _ kept => kept, fun _ absent present =>
    absurd absent present⟩

/-- The progress of two programs one after the other. -/
theorem Progress.trans {within : ServiceType → Prop} {s s' s'' : Construction}
    (first : Progress lookup within s s') (second : Progress lookup within s' s'') :
    Progress lookup within s s'' := by
  refine ⟨second.lockers.trans first.lockers, fun t member => first.chain t (second.chain t member),
    fun key cs kept => second.grows key cs (first.grows key cs kept), ?_⟩
  intro key absent present
  by_cases between : s'.callSiteCache key = none
  · exact second.fresh key between present
  · exact first.fresh key absent between

/-- A program that stays within some types stays within more of them. -/
theorem Progress.imp {within wider : ServiceType → Prop} {s s' : Construction}
    (progress : Progress lookup within s s') (widens : ∀ t, within t → wider t) :
    Progress lookup wider s s' := by
  refine ⟨progress.lockers, progress.chain, progress.grows, ?_⟩
  intro key absent present
  obtain ⟨t, d, inside, found, own⟩ := progress.fresh key absent present
  exact ⟨t, d, widens t inside, found, own⟩

/-- A step that takes no mutex, adds nothing to the chain and leaves the cache alone is
progress. -/
theorem Progress.of_same {within : ServiceType → Prop} {s s' : Construction}
    (lockers : s'.lockers = s.lockers) (chain : ∀ t ∈ s'.chain, t ∈ s.chain)
    (cache : s'.callSiteCache = s.callSiteCache) : Progress lookup within s s' := by
  refine ⟨lockers, chain, fun key cs kept => cache ▸ kept, fun key absent present => ?_⟩
  rw [cache] at present
  exact absurd absent present

/-- Soundness is a property of the cache only. -/
theorem Sound.of_same {s s' : Construction} (sound : Sound lookup s)
    (cache : s'.callSiteCache = s.callSiteCache) : Sound lookup s' := by
  obtain ⟨made, shared, builtIn⟩ := sound
  exact ⟨cache ▸ made, cache ▸ shared, cache ▸ builtIn⟩

/-- A call site that a cache has for a type is the one a larger cache has. -/
theorem Answers.mono {cache cache' : ServiceCacheKey → Option CallSite}
    (grows : ∀ key cs, cache key = some cs → cache' key = some cs) {t : ServiceType}
    {cs : CallSite} (answers : Answers lookup cache t cs) : Answers lookup cache' t cs := by
  cases answers with
  | builtIn same kept => exact .builtIn same (grows _ _ kept)
  | registered d last kept => exact .registered d last (grows _ _ kept)
  | slice elem isSlice unregistered elements =>
    exact .slice elem isSlice unregistered (elements.imp fun _ _ kept => grows _ _ kept)

end Soundness

section Requests

variable {lookup : ServiceType → DescriptorCacheItem}

/-- The state in which a type is requested. The types on the chain and those whose mutexes are
held belong to requests that led to this one. The mutexes are those of different types among
the known ones, so the fuel that is left suffices for the types that are left. -/
structure Led (known : List ServiceType) (fuel : Nat) (path : ServiceType → ServiceType → Prop)
    (t : ServiceType) (s : Construction) : Prop where
  chain : ∀ c ∈ s.chain, path c t
  lockers : ∀ c ∈ s.lockers, path c t
  nodup : s.lockers.Nodup
  inside : ∀ c ∈ s.lockers, c ∈ known
  room : known.length < fuel + s.lockers.length

variable {known : List ServiceType} {fuel : Nat}

/-- Progress leaves the fuel and the mutexes that a request needs. -/
theorem Led.progress {path : ServiceType → ServiceType → Prop} {t : ServiceType}
    {within : ServiceType → Prop} {s s' : Construction} (led : Led known fuel path t s)
    (progress : Progress lookup within s s') : Led known fuel path t s' := by
  obtain ⟨chain, lockers, nodup, inside, room⟩ := led
  rw [← progress.lockers] at lockers nodup inside room
  exact ⟨fun c member => chain c (progress.chain c member), lockers, nodup, inside, room⟩

/-- A request that follows from the present one. -/
theorem Led.imp {path path' : ServiceType → ServiceType → Prop} {t u : ServiceType}
    {s : Construction} (led : Led known fuel path t s) (onward : ∀ c, path c t → path' c u) :
    Led known fuel path' u s :=
  ⟨fun c member => onward c (led.chain c member), fun c member => onward c (led.lockers c member),
    led.nodup, led.inside, led.room⟩

/-- A type that leads to the requested one may join the chain. -/
theorem Led.chainAdd {path : ServiceType → ServiceType → Prop} {t c : ServiceType}
    {s : Construction} (led : Led known fuel path t s) (added : path c t) :
    Led known fuel path t (s.chainAdd c) := by
  refine ⟨?_, led.lockers, led.nodup, led.inside, led.room⟩
  intro other member
  rcases List.mem_cons.1 member with rfl | earlier
  · exact added
  · exact led.chain other (List.mem_filter.1 earlier).1

/-- Taking the mutex of another known type uses up one unit of fuel. -/
theorem Led.lock {path : ServiceType → ServiceType → Prop} {t : ServiceType} {s : Construction}
    (led : Led known (fuel + 1) path t s) (free : t ∉ s.lockers) (isKnown : t ∈ known)
    (added : path t t) : Led known fuel path t (s.lock t) := by
  obtain ⟨chain, lockers, nodup, inside, room⟩ := led
  refine ⟨chain, ?_, List.nodup_cons.2 ⟨free, nodup⟩, ?_, ?_⟩
  · intro c member
    rcases List.mem_cons.1 member with rfl | earlier
    · exact added
    · exact lockers c earlier
  · intro c member
    rcases List.mem_cons.1 member with rfl | earlier
    · exact isKnown
    · exact inside c earlier
  · simp only [Construction.lock, List.length_cons]
    omega

/-- The fuel is not used up while a request is made. -/
theorem Led.fuel_ne_zero {path : ServiceType → ServiceType → Prop} {t : ServiceType}
    {s : Construction} (led : Led known fuel path t s) : fuel ≠ 0 := by
  rintro rfl
  have bound := (List.subperm_of_subset led.nodup led.inside).length_le
  have room := led.room
  omega

/-- Taking a type off the chain leaves no more on it than was there before it was added. -/
theorem Progress.chainRemove {within : ServiceType → Prop} {t : ServiceType}
    {s s' : Construction} (progress : Progress lookup within (s.chainAdd t) s') :
    Progress lookup within s (s'.chainRemove t) := by
  refine ⟨progress.lockers, ?_, progress.grows, progress.fresh⟩
  intro c member
  obtain ⟨inside, other⟩ := List.mem_filter.1 member
  rcases List.mem_cons.1 (progress.chain c inside) with rfl | earlier
  · simp at other
  · exact (List.mem_filter.1 earlier).1

/-- How a program of the factory stops: with an error that is not a circular dependency, for a
reason, but never for a mutex or for lack of fuel. -/
def Stops (reason : Prop) : Stop → Prop
  | .error err => (∀ t, err ≠ .circularDependency t) ∧ reason
  | .blocked => False
  | .outOfFuel => False

/-- An error for a reason is one for a weaker reason. -/
theorem Stops.imp {reason weaker : Prop} (weakens : reason → weaker) {stop : Stop}
    (stops : Stops reason stop) : Stops weaker stop := by
  cases stop with
  | error err => exact ⟨stops.1, weakens stops.2⟩
  | blocked => exact stops
  | outOfFuel => exact stops

/-- How a program of the factory ends: it makes progress and keeps the cache sound. -/
def Ends {α : Type} (lookup : ServiceType → DescriptorCacheItem) (within : ServiceType → Prop)
    (right : α → Construction → Prop) (reason : Prop) (s : Construction) (r : Except Stop α)
    (s' : Construction) : Prop :=
  Progress lookup within s s' ∧ Sound lookup s' ∧
    match r with
    | .ok result => right result s'
    | .error stop => Stops reason stop

/-- The types that a type leads to. -/
abbrev Within (lookup : ServiceType → DescriptorCacheItem) (t : ServiceType) :
    ServiceType → Prop :=
  ReflTransGen (Uses lookup) t

/-- The specification of a request: the answer has the shape that the type unfolds to. -/
def Requests (lookup : ServiceType → DescriptorCacheItem) (known : List ServiceType) (fuel : Nat)
    (get : ServiceType → Construct CallSite) : Prop :=
  ∀ t s, t ∈ known → Sound lookup s → Led known fuel (TransGen (Uses lookup)) t s →
    (get t).wp (Ends lookup (Within lookup t)
      (fun cs s' => Answers lookup s'.callSiteCache t cs ∧
        ∃ depth, plan lookup depth t = some cs.shape)
      (∀ depth, plan lookup depth t = none) s) s

end Requests

section Steps

variable {lookup : ServiceType → DescriptorCacheItem} {known : List ServiceType} {fuel : Nat}
  {get : ServiceType → Construct CallSite}

/-- The rule for a loop of the factory. What is right of a result stays so while the cache
grows. -/
theorem each_ends {α : Type} {f : α → Construct CallSite} {xs : List α}
    {within : ServiceType → Prop}
    (right : α → CallSite → (ServiceCacheKey → Option CallSite) → Prop) {reason : α → Prop}
    {s : Construction} (sound : Sound lookup s)
    (mono : ∀ x cs cache cache', (∀ key cs, cache key = some cs → cache' key = some cs) →
      right x cs cache → right x cs cache')
    (one : ∀ x ∈ xs, ∀ s', Progress lookup within s s' → Sound lookup s' →
      (f x).wp (Ends lookup within (fun cs s'' => right x cs s''.callSiteCache) (reason x) s') s') :
    (Program.each f xs).wp (Ends lookup within
      (fun css s' => List.Forall₂ (fun x cs => right x cs s'.callSiteCache) xs css)
      (∃ x ∈ xs, reason x) s) s := by
  refine Program.wp_mono (Program.wp_each
    (fun results rest s' => Progress lookup within s s' ∧ Sound lookup s' ∧ ∃ done,
      xs = done ++ rest ∧ List.Forall₂ (fun x cs => right x cs s'.callSiteCache) done results)
    (fun stop s' => Progress lookup within s s' ∧ Sound lookup s' ∧
      Stops (∃ x ∈ xs, reason x) stop)
    ⟨Progress.refl _ s, sound, [], rfl, .nil⟩ ?_) ?_
  · rintro results x rest s' inside ⟨progress, soundHere, done, rfl, earlier⟩
    refine Program.wp_mono (one x inside s' progress soundHere) ?_
    rintro r s'' ⟨further, soundLater, ending⟩
    cases r with
    | ok cs =>
      have kept := earlier.imp fun x cs isRight => mono x cs _ _ further.grows isRight
      exact ⟨progress.trans further, soundLater, done ++ [x], by simp,
        List.rel_append kept (.cons ending .nil)⟩
    | error stop =>
      exact ⟨progress.trans further, soundLater, ending.imp fun why => ⟨x, inside, why⟩⟩
  · intro r s' ending
    cases r with
    | ok results =>
      obtain ⟨progress, soundHere, done, isDone, all⟩ := ending
      rw [List.append_nil] at isDone
      subst isDone
      exact ⟨progress, soundHere, all⟩
    | error stop => exact ending

/-- The parameters of a constructor are requested one after the other. -/
theorem each_parameters (requests : Requests lookup known fuel get) {types : List ServiceType}
    {s : Construction} (sound : Sound lookup s)
    (led : ∀ u ∈ types, u ∈ known ∧ Led known fuel (TransGen (Uses lookup)) u s) :
    (Program.each get types).wp (Ends lookup (fun v => ∃ u ∈ types, Within lookup u v)
      (fun parameters s' => List.Forall₂
        (fun u cs => Answers lookup s'.callSiteCache u cs ∧
          ∃ depth, plan lookup depth u = some cs.shape) types parameters)
      (∃ u ∈ types, ∀ depth, plan lookup depth u = none) s) s := by
  refine each_ends
    (fun u cs cache => Answers lookup cache u cs ∧ ∃ depth, plan lookup depth u = some cs.shape)
    sound (fun u cs _ _ grows isRight => ⟨isRight.1.mono grows, isRight.2⟩) ?_
  intro u inside s' progress soundHere
  obtain ⟨isKnown, led⟩ := led u inside
  refine Program.wp_mono (requests u s' isKnown soundHere (led.progress progress)) ?_
  rintro r s'' ⟨further, soundLater, ending⟩
  exact ⟨further.imp fun v reached => ⟨u, inside, reached⟩, soundLater, ending⟩

/-- A new call site changes neither the cache nor the chain. -/
theorem newCallSite_wp {site : Site} {parts : List CallSite} {s : Construction}
    {post : Except Stop CallSite → Construction → Prop}
    (holds : post (.ok (.node s.nextAddress site parts))
      { s with nextAddress := s.nextAddress + 1 }) :
    (newCallSite site parts).wp post s :=
  Program.wp_reading (Program.wp_update_bind (Program.wp_pure _ holds))

/-- Taking a new address is progress. -/
theorem Progress.allocate (within : ServiceType → Prop) (s : Construction) :
    Progress lookup within s { s with nextAddress := s.nextAddress + 1 } :=
  .of_same rfl (fun _ member => member) rfl

/-- The call site of a constructor. While its parameters are requested its type is on the
chain. -/
theorem createConstructorCallSite_ends (requests : Requests lookup known fuel get)
    {cache : ResultCache} {t : ServiceType} {ctor : ConstructorInfo} {s : Construction}
    (sound : Sound lookup s)
    (led : ∀ u ∈ ctor.inTypes, u ∈ known ∧ TransGen (Uses lookup) t u ∧
      Led known fuel (TransGen (Uses lookup)) u s) :
    (createConstructorCallSite get cache t ctor).wp
      (Ends lookup (fun v => ∃ u ∈ ctor.inTypes, Within lookup u v)
        (fun cs s' => cs.site = .constructor cache t ctor ∧
          List.Forall₂ (fun u part => Answers lookup s'.callSiteCache u part ∧
            ∃ depth, plan lookup depth u = some part.shape) ctor.inTypes cs.callSites)
        (∃ u ∈ ctor.inTypes, ∀ depth, plan lookup depth u = none) s) s := by
  have onChain : ∀ u ∈ ctor.inTypes, u ∈ known ∧
      Led known fuel (TransGen (Uses lookup)) u (s.chainAdd t) := by
    intro u needed
    obtain ⟨isKnown, uses, led⟩ := led u needed
    exact ⟨isKnown, led.chainAdd uses⟩
  refine Program.wp_ensuring (Program.wp_update_bind ?_)
  refine Program.wp_bind (each_parameters requests (sound.of_same rfl) onChain) ?_ ?_
  · rintro parameters s' ⟨progress, soundHere, made⟩
    exact newCallSite_wp ⟨(progress.trans (.allocate _ s')).chainRemove, soundHere.of_same rfl, rfl,
      made⟩
  · rintro stop s' ⟨progress, soundHere, stops⟩
    exact ⟨progress.chainRemove, soundHere.of_same rfl, stops⟩

/-- The right call site for a descriptor: its parameters are shared, and it has the shape that
the descriptor unfolds to. -/
def RightFor (lookup : ServiceType → DescriptorCacheItem) (d : Descriptor) (slot : Nat)
    (cs : CallSite) (s : Construction) : Prop :=
  (∀ cache t ctor, cs.site = .constructor cache t ctor →
    List.Forall₂ (Answers lookup s.callSiteCache) ctor.inTypes cs.callSites) ∧
  ∃ depth, planExact (plan lookup depth) d slot = some cs.shape

/-- Creating the call site of a descriptor ends with the right one, once its parameters can be
requested. -/
theorem createExact_ends (requests : Requests lookup known fuel get) {d : Descriptor} {slot : Nat}
    {s : Construction} (sound : Sound lookup s)
    (led : ∀ u ∈ d.needs, u ∈ known ∧ TransGen (Uses lookup) d.serviceType u ∧
      Led known fuel (TransGen (Uses lookup)) u s) :
    (createExact get d slot).wp (Ends lookup (fun v => ∃ u ∈ d.needs, Within lookup u v)
      (RightFor lookup d slot) (∀ depth, planExact (plan lookup depth) d slot = none) s) s := by
  unfold createExact
  cases registered : d.registered with
  | some value =>
    refine newCallSite_wp ⟨.allocate _ s, sound.of_same rfl, ?_, 0, ?_⟩
    · intro cache t ctor isConstructor
      cases isConstructor
    · simp [planExact, registered, shape_node]
  | none =>
    cases factory : d.factory with
    | some made =>
      refine newCallSite_wp ⟨.allocate _ s, sound.of_same rfl, ?_, 0, ?_⟩
      · intro cache t ctor isConstructor
        cases isConstructor
      · simp [planExact, registered, factory, shape_node]
    | none =>
      cases ctor : d.ctor with
      | none =>
        refine Program.wp_stop _ ⟨.refl _ s, sound, fun t => by simp, fun depth => ?_⟩
        simp [planExact, registered, factory, ctor]
      | some info =>
        have needs : d.needs = info.inTypes := by
          simp [Descriptor.needs, registered, factory, ctor]
        rw [needs] at led ⊢
        refine Program.wp_mono (createConstructorCallSite_ends requests sound led) ?_
        rintro r s' ⟨progress, soundHere, ending⟩
        refine ⟨progress, soundHere, ?_⟩
        cases r with
        | ok cs =>
          obtain ⟨isSite, made⟩ := ending
          refine ⟨?_, ?_⟩
          · intro cache t other isConstructor
            rw [isSite] at isConstructor
            cases isConstructor
            exact made.imp fun _ _ both => both.1
          · obtain ⟨depth, found⟩ :=
              exists_common_depth (plan lookup) plan_mono (made.imp fun _ _ both => both.2)
            obtain ⟨address, site, parts⟩ := cs
            refine ⟨depth, ?_⟩
            simp only [CallSite.site] at isSite
            simp only [CallSite.callSites] at found
            simp [planExact, registered, factory, ctor, found, shape_node, isSite]
        | error stop =>
          refine ending.imp ?_
          rintro ⟨u, needed, missing⟩ depth
          simp [planExact, registered, factory, ctor,
            Traversals.mapM_eq_none _ needed (missing depth)]

/-- Storing the call site of a descriptor adds to the cache. -/
theorem Progress.store {t : ServiceType} {d : Descriptor} {slot : Nat} {cs : CallSite}
    {s s' : Construction}
    (progress : Progress lookup (fun v => ∃ u ∈ d.needs, Within lookup u v) s s')
    (absent : s.callSiteCache ⟨d.serviceType, slot⟩ = none)
    (filedHere : atSlot lookup t slot = some d) (inside : d ∈ filed lookup t) :
    Progress lookup (Within lookup t) s (s'.store ⟨d.serviceType, slot⟩ cs) := by
  refine ⟨progress.lockers, progress.chain, ?_, ?_⟩
  · intro key other kept
    have different : key ≠ ⟨d.serviceType, slot⟩ := by
      rintro rfl
      rw [absent] at kept
      cases kept
    rw [Construction.store_of_ne different]
    exact progress.grows key other kept
  · intro key missing present
    by_cases same : key = ⟨d.serviceType, slot⟩
    · subst same
      exact ⟨t, d, .refl, filedHere, rfl⟩
    · rw [Construction.store_of_ne same] at present
      obtain ⟨v, d', ⟨u, needed, reached⟩, filedThere, own⟩ := progress.fresh key missing present
      exact ⟨v, d', .head ⟨d, inside, needed⟩ reached, filedThere, own⟩

/-- Storing the call site that is right for a descriptor keeps the cache sound. -/
theorem Sound.store {t : ServiceType} {d : Descriptor} {slot depth : Nat} {cs : CallSite}
    {s : Construction} (sound : Sound lookup s)
    (absent : s.callSiteCache ⟨d.serviceType, slot⟩ = none)
    (filedHere : atSlot lookup t slot = some d)
    (shared : ∀ cache t ctor, cs.site = .constructor cache t ctor →
      List.Forall₂ (Answers lookup s.callSiteCache) ctor.inTypes cs.callSites)
    (planned : planExact (plan lookup depth) d slot = some cs.shape) :
    Sound lookup (s.store ⟨d.serviceType, slot⟩ cs) := by
  have grows : ∀ key other, s.callSiteCache key = some other →
      (s.store ⟨d.serviceType, slot⟩ cs).callSiteCache key = some other := by
    intro key other kept
    exact Construction.store_keeps absent kept
  refine ⟨?_, ?_, fun t other same => grows _ _ (sound.builtIn t other same)⟩
  · intro key other kept
    by_cases same : key = ⟨d.serviceType, slot⟩
    · subst same
      obtain rfl := Option.some.inj ((Construction.store_self _ cs s).symm.trans kept)
      exact .descriptor t d depth filedHere rfl planned
    · rw [Construction.store_of_ne same] at kept
      exact sound.made key other kept
  · intro key other kept cache t' ctor isConstructor
    by_cases same : key = ⟨d.serviceType, slot⟩
    · subst same
      obtain rfl := Option.some.inj ((Construction.store_self _ cs s).symm.trans kept)
      exact (shared cache t' ctor isConstructor).imp fun _ _ answer => answer.mono grows
    · rw [Construction.store_of_ne same] at kept
      exact (sound.shared key other kept cache t' ctor isConstructor).imp
        fun _ _ answer => answer.mono grows

variable [OwnTypes lookup]

/-- The call site of a descriptor is taken from the cache, or made and stored there. It cannot
have been stored meanwhile, because the descriptor would then need itself. -/
theorem tryCreateExact_ends (consistent : Consistent lookup) (acyclic : Acyclic lookup)
    (closed : Closed lookup known)
    (requests : Requests lookup known fuel get) {t : ServiceType} {d : Descriptor} {slot : Nat}
    {s : Construction} (filedHere : atSlot lookup t slot = some d) (sound : Sound lookup s)
    (led : Led known fuel (ReflTransGen (Uses lookup)) t s) :
    (tryCreateExact get d slot).wp (Ends lookup (Within lookup t)
      (fun cs s' => s'.callSiteCache ⟨d.serviceType, slot⟩ = some cs ∧
        ∃ depth, planExact (plan lookup depth) d slot = some cs.shape)
      (∀ depth, planExact (plan lookup depth) d slot = none) s) s := by
  have inside := mem_filed_of_atSlot filedHere
  refine Program.wp_reading ?_
  cases found : s.callSiteCache ⟨d.serviceType, slot⟩ with
  | some cs =>
    refine Program.wp_pure cs ⟨.refl _ s, sound, found, ?_⟩
    cases sound.made _ cs found with
    | builtIn _ same =>
      rw [consistent.reserved _ d (mem_own inside)] at same
      cases same
    | descriptor other d' depth filedThere own planned =>
      rw [consistent.unambiguous _ _ _ _ _ filedHere filedThere own.symm]
      exact ⟨depth, planned⟩
  | none =>
    have led : ∀ u ∈ d.needs, u ∈ known ∧ TransGen (Uses lookup) d.serviceType u ∧
        Led known fuel (TransGen (Uses lookup)) u s := by
      intro u needed
      have uses : Uses lookup t u := ⟨d, inside, needed⟩
      exact ⟨closed d u (mem_own inside) needed,
        .single (uses_own inside needed), led.imp fun c reached => .tail' reached uses⟩
    refine Program.wp_bind (createExact_ends requests sound led) ?_ ?_
    · rintro cs s' ⟨progress, soundHere, shared, depth, planned⟩
      have absent : s'.callSiteCache ⟨d.serviceType, slot⟩ = none := by
        by_contra present
        obtain ⟨v, d', ⟨u, needed, reached⟩, filedThere, own⟩ := progress.fresh _ found present
        obtain rfl := consistent.unambiguous _ _ _ _ _ filedThere filedHere own
        exact acyclic u (.tail' reached ⟨d', mem_filed_of_atSlot filedThere, needed⟩)
      refine Program.wp_update_bind (Program.wp_pure cs ?_)
      refine ⟨progress.store found filedHere inside,
        soundHere.store absent filedHere shared planned,
        Construction.store_self _ cs s', depth, planned⟩
    · rintro stop s' ⟨progress, soundHere, stops⟩
      refine ⟨progress.imp ?_, soundHere, stops⟩
      rintro v ⟨u, needed, reached⟩
      exact .head ⟨d, inside, needed⟩ reached

/-- The call sites of the elements of a slice that is not registered. -/
theorem each_elements (consistent : Consistent lookup) (acyclic : Acyclic lookup)
    (closed : Closed lookup known)
    (requests : Requests lookup known fuel get) {elem : ServiceType} {s : Construction}
    (empty : (lookup (.slice elem)).all = []) (sound : Sound lookup s)
    (led : Led known fuel (ReflTransGen (Uses lookup)) (.slice elem) s) :
    (Program.each (fun (d, i) => tryCreateExact get d ((lookup elem).num - i - 1))
      (lookup elem).all.zipIdx).wp (Ends lookup (Within lookup (.slice elem))
        (fun elements s' => List.Forall₂
          (fun entry cs =>
            s'.callSiteCache ⟨entry.1.serviceType, (lookup elem).num - entry.2 - 1⟩ = some cs ∧
            ∃ depth, planExact (plan lookup depth) entry.1 ((lookup elem).num - entry.2 - 1) =
              some cs.shape) (lookup elem).all.zipIdx elements)
        (∃ entry ∈ (lookup elem).all.zipIdx, ∀ depth,
          planExact (plan lookup depth) entry.1 ((lookup elem).num - entry.2 - 1) = none) s) s := by
  refine each_ends
    (fun (entry : Descriptor × Nat) cs cache =>
      cache ⟨entry.1.serviceType, (lookup elem).num - entry.2 - 1⟩ = some cs ∧
      ∃ depth, planExact (plan lookup depth) entry.1 ((lookup elem).num - entry.2 - 1) =
        some cs.shape)
    sound (fun _ cs _ _ grows isRight => ⟨grows _ cs isRight.1, isRight.2⟩) ?_
  rintro ⟨d, i⟩ inside s' progress soundHere
  have position : (filed lookup (.slice elem))[i]? = some d := by
    rw [filed_slice empty]
    exact List.mem_zipIdx_iff_getElem?.1 inside
  have filedHere := atSlot_of_getElem? position
  rw [filed_slice empty, ← DescriptorCacheItem.num_eq] at filedHere
  exact tryCreateExact_ends consistent acyclic closed requests filedHere soundHere
    (led.progress progress)

/-- The call site of a slice that is not registered has one element for each descriptor of the
element type. -/
theorem createSlice_ends (consistent : Consistent lookup) (acyclic : Acyclic lookup)
    (closed : Closed lookup known)
    (requests : Requests lookup known fuel get) {elem : ServiceType} {s : Construction}
    (unregistered : (lookup (.slice elem)).last = none) (sound : Sound lookup s)
    (led : Led known fuel (ReflTransGen (Uses lookup)) (.slice elem) s) :
    (createSlice lookup get elem).wp (Ends lookup (Within lookup (.slice elem))
      (fun cs s' => Answers lookup s'.callSiteCache (.slice elem) cs ∧
        ∃ depth, planSlice lookup (plan lookup depth) elem = some cs.shape)
      (∀ depth, planSlice lookup (plan lookup depth) elem = none) s) s := by
  have empty : (lookup (.slice elem)).all = [] := by
    simpa [DescriptorCacheItem.last_eq] using unregistered
  refine Program.wp_reading ?_
  cases found : s.callSiteCache ⟨.slice elem, 0⟩ with
  | some cs =>
    cases sound.made _ cs found with
    | builtIn _ same => cases same
    | descriptor other d depth filedThere own _ =>
      have member := mem_own (mem_filed_of_atSlot filedThere)
      rw [own, empty] at member
      cases member
  | none =>
    have onChain : Led known fuel (ReflTransGen (Uses lookup)) (.slice elem)
        (s.chainAdd (.slice elem)) :=
      led.chainAdd .refl
    refine Program.wp_ensuring (Program.wp_update_bind (Program.wp_bind
      (each_elements consistent acyclic closed requests empty (sound.of_same rfl) onChain) ?_ ?_))
    · rintro elements s' ⟨progress, soundHere, made⟩
      refine newCallSite_wp ⟨(progress.trans (.allocate _ s')).chainRemove, soundHere.of_same rfl,
        ?_, ?_⟩
      · exact .slice elem rfl unregistered (made.imp fun _ _ both => both.1)
      · obtain ⟨depth, found⟩ := exists_common_depth
          (fun depth (entry : Descriptor × Nat) =>
            planExact (plan lookup depth) entry.1 ((lookup elem).num - entry.2 - 1))
          planExact_deeper (made.imp fun _ _ both => both.2)
        refine ⟨depth, ?_⟩
        simp [planSlice, found, shape_node, CallSite.cache, site_shape, Function.comp_def]
    · rintro stop s' ⟨progress, soundHere, stops⟩
      refine ⟨progress.chainRemove, soundHere.of_same rfl, stops.imp ?_⟩
      rintro ⟨entry, inside, missing⟩ depth
      have fails := Traversals.mapM_eq_none
        (fun entry => planExact (plan lookup depth) entry.1 ((lookup elem).num - entry.2 - 1))
        inside (missing depth)
      simp [planSlice, fails]

/-- A request that the cache does not answer. -/
theorem createCallSite_ends (consistent : Consistent lookup) (acyclic : Acyclic lookup)
    (closed : Closed lookup known)
    (requests : Requests lookup known fuel get) {t : ServiceType} {s : Construction}
    (isKnown : t ∈ known) (notBuiltIn : builtInCallSite t = none) (sound : Sound lookup s)
    (led : Led known (fuel + 1) (TransGen (Uses lookup)) t s) :
    (createCallSite lookup get t).wp (Ends lookup (Within lookup t)
      (fun cs s' => Answers lookup s'.callSiteCache t cs ∧
        ∃ depth, plan lookup depth t = some cs.shape)
      (∀ depth, plan lookup depth t = none) s) s := by
  have notOnChain : t ∉ s.chain := fun member => acyclic t (led.chain t member)
  have notLocked : t ∉ s.lockers := fun member => acyclic t (led.lockers t member)
  have locked : Led known fuel (ReflTransGen (Uses lookup)) t (s.lock t) :=
    (led.imp fun c reached => reached.to_reflTransGen).lock notLocked isKnown .refl
  have unlocked {s' : Construction}
      (progress : Progress lookup (Within lookup t) (s.lock t) s') :
      Progress lookup (Within lookup t) s (s'.unlock t) := by
    refine ⟨?_, progress.chain, progress.grows, progress.fresh⟩
    simp [Construction.unlock, progress.lockers, Construction.lock]
  refine Program.wp_reading ?_
  rw [if_neg notOnChain, if_neg notLocked]
  refine Program.wp_ensuring (Program.wp_update_bind ?_)
  cases last : (lookup t).last with
  | some d =>
    refine Program.wp_mono (tryCreateExact_ends consistent acyclic closed requests
      (atSlot_last last) (sound.of_same rfl) locked) ?_
    rintro r s' ⟨progress, soundHere, ending⟩
    refine ⟨unlocked progress, soundHere.of_same rfl, ?_⟩
    cases r with
    | ok cs =>
      obtain ⟨kept, depth, planned⟩ := ending
      exact ⟨.registered d last kept, depth + 1, by simp [plan, notBuiltIn, last, planned]⟩
    | error stop =>
      refine ending.imp fun missing depth => ?_
      cases depth with
      | zero => rfl
      | succ depth => simp [plan, notBuiltIn, last, missing depth]
  | none =>
    cases isSlice : t.elem with
    | none =>
      refine Program.wp_stop _ ⟨unlocked (.refl _ _), sound.of_same rfl, fun _ => by simp, ?_⟩
      intro depth
      cases depth with
      | zero => rfl
      | succ depth => simp [plan, notBuiltIn, last, isSlice]
    | some elem =>
      obtain rfl := eq_slice_of_elem isSlice
      refine Program.wp_mono (createSlice_ends consistent acyclic closed requests last
        (sound.of_same rfl) locked) ?_
      rintro r s' ⟨progress, soundHere, ending⟩
      refine ⟨unlocked progress, soundHere.of_same rfl, ?_⟩
      cases r with
      | ok cs =>
        obtain ⟨answers, depth, planned⟩ := ending
        exact ⟨answers, depth + 1, by simp [plan, notBuiltIn, last, isSlice, planned]⟩
      | error stop =>
        refine ending.imp fun missing depth => ?_
        cases depth with
        | zero => rfl
        | succ depth => simp [plan, notBuiltIn, last, isSlice, missing depth]

/-- Every request meets its specification. -/
theorem getCallSite_requests (consistent : Consistent lookup) (acyclic : Acyclic lookup)
    (closed : Closed lookup known) (fuel : Nat) :
    Requests lookup known fuel (getCallSite lookup fuel) := by
  induction fuel with
  | zero =>
    intro t s _ _ led
    exact absurd rfl led.fuel_ne_zero
  | succ fuel inductionHypothesis =>
    intro t s isKnown sound led
    refine Program.wp_reading ?_
    cases found : s.callSiteCache ⟨t, 0⟩ with
    | some cs =>
      refine Program.wp_pure cs ⟨.refl _ s, sound, ?_⟩
      cases sound.made _ cs found with
      | builtIn _ same => exact ⟨.builtIn same found, 1, by simp [plan, same]⟩
      | descriptor other d depth filedThere own planned =>
        have member := mem_own (mem_filed_of_atSlot filedThere)
        have notBuiltIn := consistent.reserved _ d member
        obtain ⟨l, last⟩ : ∃ l, (lookup d.serviceType).last = some l := by
          rw [DescriptorCacheItem.last_eq]
          exact Option.isSome_iff_exists.1 (by simp [List.ne_nil_of_mem member])
        have isLast := consistent.latest d l member last
        obtain rfl := consistent.unambiguous _ _ _ _ _ (atSlot_last last) filedThere isLast
        subst own
        exact ⟨.registered l last found, depth + 1, by simp [plan, notBuiltIn, last, planned]⟩
    | none =>
      have notBuiltIn : builtInCallSite t = none := by
        rw [Option.eq_none_iff_forall_ne_some]
        intro cs same
        rw [sound.builtIn t cs same] at found
        cases found
      exact createCallSite_ends consistent acyclic closed inductionHypothesis isKnown notBuiltIn
        sound led

end Steps

end FluffyCore.Di
