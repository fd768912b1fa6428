import FluffyCore.Library.Interleaving

/-!
# Filling one key of the memory cache

`GetOrInsertE` looks a key up and, if it misses, enters the flight of the key. The call that
starts a flight looks again, runs its adder and stores what the adder returned. The calls that
join meanwhile wait for the result of the flight.

Calls run interleaved. Each lookup, removal and write of the cache is one step, and so are
entering and ending a flight. In between, the cleaner of the cache evicts what has expired.
The flights, the runs of adders and the writes are recorded.
-/

namespace FluffyCore.Cache

open Library.Interleaving

variable {Value Err : Type}

/-- An item of the cache. Its data may be nil. -/
structure Item (Value : Type) where
  data : Option Value
  expired : Bool
deriving DecidableEq

/-- What the cache has for a key: the item in its table, and whether its expiry queue still
has an older item of the key. -/
structure Slot (Value : Type) where
  item : Option (Item Value)
  stale : Bool
deriving DecidableEq

/-- A lookup takes an expired item for absent. -/
def Slot.get (slot : Slot Value) : Option (Option Value) :=
  match slot.item with
  | some ⟨data, false⟩ => some data
  | _ => none

/-- The item leaves the table and the queue. -/
def Slot.remove (slot : Slot Value) : Slot Value := { slot with item := none }

/-- An item that has not expired is overwritten. In place of an expired one there is a new
item, and the old one stays in the queue. -/
def Slot.setWithTTL (slot : Slot Value) (obj : Value) : Slot Value where
  item := some ⟨some obj, false⟩
  stale := match slot.item with
    | some ⟨_, true⟩ => true
    | _ => slot.stale

/-- The cleaner evicts by key, so that an old item takes a new one with it. -/
def Slot.clean (slot : Slot Value) : Slot Value where
  item := if slot.stale then none else slot.item.filter fun item => !item.expired
  stale := false

/-- The value a call returns without more ado: one that is there and not nil. -/
def Slot.value (slot : Slot Value) : Option Value := slot.get.join

/-- A run of a function under `singleflight`, with the call that runs it. -/
structure Flight (Value Err : Type) where
  leader : Nat
  result : Option (Except Err Value)

/-- A run of an adder. -/
structure Invocation (Value Err : Type) where
  call : Nat
  flight : Nat
  outcome : Except Err Value

/-- The cache and the flights of one key. What was returned by an adder and has yet to be
stored is held by its flight. -/
structure MemoryCache (Value Err : Type) where
  slot : Slot Value
  flights : List (Flight Value Err) := []
  current : Option Nat := none
  holding : Option Value := none
  invocations : List (Invocation Value Err) := []
  stores : List (Nat × Value) := []

/-- Where a call of `GetOrInsertE` is. -/
inductive Phase (Value Err : Type) where
  | get
  | enter
  | wait (flight : Nat)
  | recheck (flight : Nat)
  | adder (flight : Nat)
  | dropExpired (flight : Nat) (obj : Value)
  | remove (flight : Nat) (obj : Value)
  | setWithTTL (flight : Nat) (obj : Value)
  | finish (flight : Nat) (result : Except Err Value)
  | done (result : Except Err Value)

/-- A call with what its adder does, and the flight it shares. -/
structure Call (Value Err : Type) where
  adder : Except Err Value
  phase : Phase Value Err := .get
  flight : Option Nat := none

/-- One step of a call. -/
def Call.move (id : Nat) (s : MemoryCache Value Err) (c : Call Value Err) :
    Option (MemoryCache Value Err × Call Value Err) :=
  match c.phase with
  | .get =>
    match s.slot.get with
    | some (some result) => some (s, { c with phase := .done (.ok result) })
    | _ => some (s, { c with phase := .enter })
  | .enter =>
    match s.current with
    | some flight => some (s, { c with phase := .wait flight, flight := some flight })
    | none =>
      let flight := s.flights.length
      some ({ s with flights := s.flights ++ [⟨id, none⟩], current := some flight },
        { c with phase := .recheck flight, flight := some flight })
  | .wait flight =>
    match s.flights[flight]? with
    | some ⟨_, some result⟩ => some (s, { c with phase := .done result })
    | _ => none
  | .recheck flight =>
    match s.slot.get with
    | some (some result) => some (s, { c with phase := .finish flight (.ok result) })
    | _ => some (s, { c with phase := .adder flight })
  | .adder flight =>
    let invocations := s.invocations ++ [⟨id, flight, c.adder⟩]
    match c.adder with
    | .error err => some ({ s with invocations }, { c with phase := .finish flight (.error err) })
    | .ok obj =>
      some ({ s with invocations, holding := some obj },
        { c with phase := .dropExpired flight obj })
  | .dropExpired flight obj =>
    match s.slot.get with
    | some _ => some (s, { c with phase := .setWithTTL flight obj })
    | none => some (s, { c with phase := .remove flight obj })
  | .remove flight obj =>
    some ({ s with slot := s.slot.remove }, { c with phase := .setWithTTL flight obj })
  | .setWithTTL flight obj =>
    some ({ s with
        slot := s.slot.setWithTTL obj
        holding := none
        stores := s.stores ++ [(flight, obj)] },
      { c with phase := .finish flight (.ok obj) })
  | .finish flight result =>
    some ({ s with
        flights := s.flights.modify flight fun f => { f with result := some result }
        current := none },
      { c with phase := .done result })
  | .done _ => none

/-- Any number of calls, each with an adder of its own, on a key that has something to begin
with. The only other thing that happens to the key is the cleaner. -/
def getOrInsertE (slot : Slot Value) :
    System (MemoryCache Value Err) (Call Value Err) (Except Err Value) Unit Unit where
  initial := { slot }
  begin adder := { adder }
  move _ := Call.move
  event _ s := some { s with slot := s.slot.clean }

end FluffyCore.Cache
