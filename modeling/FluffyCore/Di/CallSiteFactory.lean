import FluffyCore.Di.Descriptors
import FluffyCore.Library.Programs

/-!
# Call sites and their factory

A call site says how a service is made: by which means, from which other call sites, and where
the result is kept. Call sites are shared pointers, so each has an address. The factory makes
the call site of a type on the first request and keeps it under the type and the slot of the
descriptor it was made from.

While the factory makes a call site it holds a mutex for the requested type, and it notes the
types whose constructors it is working on in a chain, to detect circular dependencies. This is
the factory as one goroutine runs it: the mutexes are not reentrant, so a request for a type
whose mutex the goroutine already holds is never answered.
-/

namespace FluffyCore.Di

open Library

/-- Where a result is kept: with the container, with a scope, nowhere but for its disposal, or
not at all. The order is that of the source. -/
inductive CacheLocation where
  | root
  | scope
  | dispose
  | none
deriving DecidableEq

def CacheLocation.rank : CacheLocation → Nat
  | .root => 0
  | .scope => 1
  | .dispose => 2
  | .none => 3

structure ServiceCacheKey where
  serviceType : ServiceType
  slot : Nat
deriving DecidableEq

/-- The location of a result and its key. `NoneResultCache` has a key that is never used; here
it has none. -/
inductive ResultCache where
  | root (key : ServiceCacheKey)
  | scope (key : ServiceCacheKey)
  | dispose (key : ServiceCacheKey)
  | none
deriving DecidableEq

def ResultCache.location : ResultCache → CacheLocation
  | .root _ => .root
  | .scope _ => .scope
  | .dispose _ => .dispose
  | .none => .none

def newResultCacheWithLifetime (lifetime : Lifetime) (t : ServiceType) (slot : Nat) :
    ResultCache :=
  match lifetime with
  | .singleton => .root ⟨t, slot⟩
  | .scoped => .scope ⟨t, slot⟩
  | .transient => .dispose ⟨t, slot⟩

/-- The value of a constant call site: a registered instance, the root scope, which is the scope
factory, or the call-site factory, which answers `IsService`. -/
inductive Constant where
  | registered (value : Instance)
  | rootScope
  | callSiteFactory
deriving DecidableEq

/-- The kinds of call sites with the fields of each. -/
inductive Site where
  | constant (serviceType : ServiceType) (defaultValue : Constant)
  | factory (cache : ResultCache) (serviceType : ServiceType) (factory : Nat)
  | constructor (cache : ResultCache) (serviceType : ServiceType) (ctor : ConstructorInfo)
  | slice (cache : ResultCache) (elem : ServiceType)
  | container
deriving DecidableEq

def Site.serviceType : Site → ServiceType
  | .constant t _ => t
  | .factory _ t _ => t
  | .constructor _ t _ => t
  | .slice _ elem => .slice elem
  | .container => .container

def Site.cache : Site → ResultCache
  | .constant _ _ => .none
  | .factory cache _ _ => cache
  | .constructor cache _ _ => cache
  | .slice cache _ => cache
  | .container => .none

/-- A call site with its address. The call sites under it are the parameters of a constructor
or the elements of a slice. -/
inductive CallSite where
  | node (address : Nat) (site : Site) (callSites : List CallSite)

namespace CallSite

def site : CallSite → Site
  | .node _ site _ => site

def callSites : CallSite → List CallSite
  | .node _ _ callSites => callSites

def serviceType (cs : CallSite) : ServiceType := cs.site.serviceType

def cache (cs : CallSite) : ResultCache := cs.site.cache

/-- The call sites under a call site are smaller. -/
theorem sizeOf_lt {cs part : CallSite} (inside : part ∈ cs.callSites) :
    sizeOf part < sizeOf cs := by
  obtain ⟨address, site, callSites⟩ := cs
  have smaller := List.sizeOf_lt_of_mem inside
  simp only [CallSite.callSites] at smaller
  simp only [CallSite.node.sizeOf_spec]
  omega

end CallSite

/-- The errors of the factory. -/
inductive DiError where
  | circularDependency (t : ServiceType)
  | serviceNotFound (t : ServiceType)
  | invalidDescriptor (t : ServiceType)
  | descriptorNotFound (t : ServiceType)
  | lookupKeyNotFound (key : String)
deriving DecidableEq

/-- Why the factory has no call site to return: it returns an error, it waits for a mutex that
its own goroutine holds, or the bound on the nesting of requests is used up. -/
inductive Stop where
  | error (err : DiError)
  | blocked
  | outOfFuel
deriving DecidableEq

/-- What changes while call sites are made: the cache, the next free address, the types on the
chain and the types whose mutexes are held. -/
structure Construction where
  callSiteCache : ServiceCacheKey → Option CallSite
  nextAddress : Nat
  chain : List ServiceType := []
  lockers : List ServiceType := []

abbrev Construct := Program Construction Stop

namespace Construction

def store (key : ServiceCacheKey) (cs : CallSite) (c : Construction) : Construction :=
  { c with callSiteCache := Function.update c.callSiteCache key (some cs) }

def chainAdd (t : ServiceType) (c : Construction) : Construction :=
  { c with chain := t :: c.chain.filter (· ≠ t) }

def chainRemove (t : ServiceType) (c : Construction) : Construction :=
  { c with chain := c.chain.filter (· ≠ t) }

def lock (t : ServiceType) (c : Construction) : Construction :=
  { c with lockers := t :: c.lockers }

def unlock (t : ServiceType) (c : Construction) : Construction :=
  { c with lockers := c.lockers.erase t }

/-- What is stored under a key is found there. -/
@[simp] theorem store_self (key : ServiceCacheKey) (cs : CallSite) (c : Construction) :
    (c.store key cs).callSiteCache key = some cs :=
  Function.update_self ..

/-- Storing under one key leaves the others alone. -/
theorem store_of_ne {key other : ServiceCacheKey} (different : other ≠ key) (cs : CallSite)
    (c : Construction) : (c.store key cs).callSiteCache other = c.callSiteCache other :=
  Function.update_of_ne different ..

/-- Storing under a free key keeps what is in the cache. -/
theorem store_keeps {key other : ServiceCacheKey} {cs old : CallSite} {c : Construction}
    (absent : c.callSiteCache key = none) (kept : c.callSiteCache other = some old) :
    (c.store key cs).callSiteCache other = some old := by
  have different : other ≠ key := by
    rintro rfl
    rw [absent] at kept
    cases kept
  rw [store_of_ne different, kept]

end Construction

section Factory

/-- A new call site at a free address. -/
def newCallSite (site : Site) (callSites : List CallSite) : Construct CallSite :=
  Program.reading fun c => do
    Program.update fun c => { c with nextAddress := c.nextAddress + 1 }
    pure (.node c.nextAddress site callSites)

variable (lookup : ServiceType → DescriptorCacheItem) (get : ServiceType → Construct CallSite)

/-- The type is on the chain while the call sites of the parameters are looked up. -/
def createConstructorCallSite (cache : ResultCache) (t : ServiceType) (ctor : ConstructorInfo) :
    Construct CallSite :=
  Program.ensuring (do
    Program.update (Construction.chainAdd t)
    let parameters ← Program.each get ctor.inTypes
    newCallSite (.constructor cache t ctor) parameters) (Construction.chainRemove t)

/-- The call site of a descriptor, as the kind of descriptor has it. -/
def createExact (d : Descriptor) (slot : Nat) : Construct CallSite :=
  let cache := newResultCacheWithLifetime d.lifetime d.serviceType slot
  match d.registered, d.factory, d.ctor with
  | some value, _, _ => newCallSite (.constant d.serviceType (.registered value)) []
  | none, some factory, _ => newCallSite (.factory cache d.serviceType factory) []
  | none, none, some ctor => createConstructorCallSite get cache d.serviceType ctor
  | none, none, none => Program.stop (.error (.invalidDescriptor d.serviceType))

def tryCreateExact (d : Descriptor) (slot : Nat) : Construct CallSite :=
  Program.reading fun c =>
    match c.callSiteCache ⟨d.serviceType, slot⟩ with
    | some cs => pure cs
    | none => do
        let cs ← createExact get d slot
        Program.update (Construction.store ⟨d.serviceType, slot⟩ cs)
        pure cs

/-- The common location of the elements of a slice is the highest one. -/
def getCommonCacheLocation (a b : CacheLocation) : CacheLocation :=
  if b.rank < a.rank then a else b

/-- The location of a slice. It is kept only if each of its elements is. -/
def sliceCache (t : ServiceType) (locations : List CacheLocation) : ResultCache :=
  match locations.foldl getCommonCacheLocation .root with
  | .scope => .scope ⟨t, 0⟩
  | .root => .root ⟨t, 0⟩
  | _ => .none

/-- The slice type is on the chain while the call sites of its elements are made. The call site
of a slice is not stored. -/
def createSlice (elem : ServiceType) : Construct CallSite :=
  Program.reading fun c =>
    match c.callSiteCache ⟨.slice elem, 0⟩ with
    | some cs => pure cs
    | none =>
        Program.ensuring (do
          Program.update (Construction.chainAdd (.slice elem))
          let item := lookup elem
          let elements ← Program.each
            (fun (d, i) => tryCreateExact get d (item.num - i - 1)) item.all.zipIdx
          newCallSite (.slice (sliceCache (.slice elem) (elements.map (·.cache.location))) elem)
            elements) (Construction.chainRemove (.slice elem))

def createCallSite (t : ServiceType) : Construct CallSite :=
  Program.reading fun c =>
    if t ∈ c.chain then Program.stop (.error (.circularDependency t))
    else if t ∈ c.lockers then Program.stop .blocked
    else
      Program.ensuring (do
        Program.update (Construction.lock t)
        match (lookup t).last with
        | some d => tryCreateExact get d 0
        | none =>
            match t.elem with
            | some elem => createSlice lookup get elem
            | none => Program.stop (.error (.serviceNotFound t))) (Construction.unlock t)

/-- The call site of a type. The fuel bounds how deep requests nest. -/
def getCallSite : Nat → ServiceType → Construct CallSite
  | 0, _ => Program.stop .outOfFuel
  | fuel + 1, t =>
      Program.reading fun c =>
        match c.callSiteCache ⟨t, 0⟩ with
        | some cs => pure cs
        | none => createCallSite lookup (getCallSite fuel) t

/-- The call site of a descriptor. The slot is the one it has under its own type. -/
def getCallSiteByDescriptor (fuel : Nat) (d : Descriptor) : Construct CallSite :=
  match (lookup d.serviceType).getSlot d with
  | some slot => tryCreateExact (getCallSite lookup fuel) d slot
  | none => Program.stop (.error (.descriptorNotFound d.serviceType))

end Factory

section Container

variable (descriptors : List Descriptor)

/-- Where requests for a type find its descriptors. -/
def descriptorLookup : ServiceType → DescriptorCacheItem :=
  populate Descriptor.types descriptors

/-- Where requests by a lookup key find the descriptors that have it. -/
def descriptorKeyLookup : String → DescriptorCacheItem :=
  populate Descriptor.lookupKeys descriptors

variable {descriptors} in
/-- Under a type stand the registered descriptors that have it. -/
theorem mem_lookup_iff (t : ServiceType) (d : Descriptor) :
    d ∈ (descriptorLookup descriptors t).all ↔ d ∈ descriptors ∧ t ∈ d.types :=
  mem_populate_iff Descriptor.types descriptors t d

/-- Whatever was added to a builder and removed again, the last descriptor in the table of the
factory under a type is the last one added under it that no later call removed through any of its
types. The builder contains the type exactly when there is one. -/
theorem descriptorLookup_last (calls : List Registration) (t : ServiceType) :
    (descriptorLookup (register calls).descriptors t).last =
        ((surviving calls).filter (t ∈ ·.types)).getLast? ∧
      ((register calls).contains t = true ↔
        ∃ d, (descriptorLookup (register calls).descriptors t).last = some d) := by
  have found : (descriptorLookup (register calls).descriptors t).last =
      ((surviving calls).filter (t ∈ ·.types)).getLast? := by
    rw [DescriptorCacheItem.last_eq, descriptorLookup, all_populate, getLast?_occurrences,
      register_descriptors]
  refine ⟨found, ?_⟩
  rw [contains_iff, found, register_descriptors, ← Option.isSome_iff_exists, List.getLast?_isSome,
    Ne, List.filter_eq_nil_iff]
  simp

/-- What the container asks of the factory: the call site of a type, that of one of the
registered descriptors when it validates them, and that of a lookup key. -/
inductive Request where
  | callSite (t : ServiceType)
  | byDescriptor (index : Nat)
  | byLookupKey (key : String)

/-- All types that constructors need. -/
def neededTypes : List ServiceType :=
  descriptors.flatMap Descriptor.needs

/-- Fuel for every request: each nested request holds the mutex of another needed type. -/
def fuelFor : Nat := (neededTypes descriptors).length + 2

def Request.serve (request : Request) : Construct CallSite :=
  let lookup := descriptorLookup descriptors
  match request with
  | .callSite t => getCallSite lookup (fuelFor descriptors) t
  | .byDescriptor index =>
      match descriptors[index]? with
      | some d => getCallSiteByDescriptor lookup (fuelFor descriptors) d
      | none => Program.stop (.error (.descriptorNotFound .container))
  | .byLookupKey key =>
      match (descriptorKeyLookup descriptors key).last with
      | some d => getCallSiteByDescriptor lookup (fuelFor descriptors) d
      | none => Program.stop (.error (.lookupKeyNotFound key))

end Container

/-- The call sites that a new container has: one for each of its own interfaces. -/
def builtInCallSite : ServiceType → Option CallSite
  | .container => some (.node 0 .container [])
  | .scopeFactory => some (.node 1 (.constant .scopeFactory .rootScope) [])
  | .isService => some (.node 2 (.constant .isService .callSiteFactory) [])
  | _ => none

def builtInServices : Construction where
  callSiteCache key := if key.slot = 0 then builtInCallSite key.serviceType else none
  nextAddress := 3

/-- The state after a request, if it returns. Every request starts with a new chain. -/
def Request.step (descriptors : List Descriptor) (c : Construction) (request : Request) :
    Option Construction :=
  match request.serve descriptors { c with chain := [] } with
  | (.error .blocked, _) => none
  | (.error .outOfFuel, _) => none
  | (_, after) => some after

/-- The factory of a new container after a sequence of requests, if all of them returned. -/
def runRequests (descriptors : List Descriptor) (history : List Request) : Option Construction :=
  history.foldlM (Request.step descriptors) builtInServices

end FluffyCore.Di
