import FluffyCore.Library.Interleaving
import FluffyCore.Status
import Mathlib.Data.Finset.Basic

/-!
# The rate limit of forced key set refreshes

A request whose key is not in the cached key set of its issuer forces a refresh. A gate per
URL limits these: it holds the instant of the last attempt, written just before the refresh
and under a lock that is kept until the refresh has returned. The first load of a key set
goes through the same gate.

Calls run interleaved, the clock advances between any two steps, and the cached set changes
at any time. The log of the calls to `Refresh` has, for each of them, the instant written to
the gate and the instant it started.
-/

namespace FluffyCore.Auth

open Library.Interleaving

/-- A key set, as the names of its keys. -/
abbrev KeySet : Type := Finset String

/-- A call to the cache's `Refresh`. -/
structure Refresh where
  recorded : Int
  started : Int
deriving DecidableEq

/-- The gate and the cache entry of one URL. The zero time, which no clock shows, is `none`;
a lookup without a cached set is an error. -/
structure JwksRefreshGate where
  clock : Int := 0
  holder : Option Nat := none
  last : Option Int := none
  cached : Option KeySet := none
  refreshes : List Refresh := []

/-- Why a call refreshes. -/
inductive RefreshReason where
  | firstLoad
  | unknownKid
deriving DecidableEq

inductive KeySetResult where
  | returned (set : Option KeySet) (ok : Bool)
  | failed (err : GoError)
deriving DecidableEq

/-- Where a call of `keySetForKid` is. The phases from `lookupResource` to `ready` are those
of `loadKeySet` before it takes the gate for good; the sections under the gate of the two
functions are the same up to their results. -/
inductive Phase where
  | lookup
  | lookupResource
  | peek
  | peeking
  | recentlyFailed
  | isBusy
  | ready
  | lock (reason : RefreshReason)
  | relookup (reason : RefreshReason)
  | check (reason : RefreshReason) (set : Option KeySet)
  | record (reason : RefreshReason)
  | start (reason : RefreshReason) (recorded : Int)
  | fetch (reason : RefreshReason)
  | find (set : KeySet)
  | done (result : KeySetResult)
deriving DecidableEq

/-- A call, with what its first lookup found and the number of refreshes it made. -/
structure KeySetCall where
  kid : String
  phase : Phase := .lookup
  firstLookup : Option (Option KeySet) := none
  refreshes : Nat := 0

/-- What the cache answers in a step. -/
structure CacheAnswer where
  resource : Except GoError Unit := .ok ()
  busy : Bool := false
  ready : Bool := false
  lookupError : GoError := .plain ""
  fetched : Except GoError KeySet := .ok ∅

/-- What happens to the gate's surroundings. -/
inductive CacheEvent where
  | tick (elapsed : Nat)
  | update (set : Option KeySet)

section Program

variable (jwksURL : String) (minRefreshInterval : Int)

/-- The test that the last attempt was less than the interval ago. -/
def JwksRefreshGate.recent (s : JwksRefreshGate) : Bool :=
  match s.last with
  | none => false
  | some last => s.clock - last < minRefreshInterval

def notAvailable : GoError :=
  .plain ("the keys at " ++ jwksURL ++ " are not available (the last attempt to fetch them failed)")

def JwksRefreshGate.acquire (s : JwksRefreshGate) (id : Nat) : Option JwksRefreshGate :=
  if s.holder = none then some { s with holder := some id } else none

def JwksRefreshGate.release (s : JwksRefreshGate) : JwksRefreshGate := { s with holder := none }

/-- One step of a call. -/
def KeySetCall.move (answer : CacheAnswer) (id : Nat) (s : JwksRefreshGate) (c : KeySetCall) :
    Option (JwksRefreshGate × KeySetCall) :=
  match c.phase with
  | .lookup =>
    match s.cached with
    | some set => some (s, { c with phase := .find set, firstLookup := some s.cached })
    | none => some (s, { c with phase := .lookupResource, firstLookup := some s.cached })
  | .lookupResource =>
    match answer.resource with
    | .error err => some (s, { c with phase := .done (.failed err) })
    | .ok () => some (s, { c with phase := .peek })
  | .peek => (s.acquire id).map fun s => (s, { c with phase := .peeking })
  | .peeking =>
    some (s.release,
      { c with phase := if s.recent minRefreshInterval then .recentlyFailed else .isBusy })
  | .recentlyFailed =>
    match s.cached with
    | some set => some (s, { c with phase := .find set })
    | none => some (s, { c with phase := .done (.failed (notAvailable jwksURL)) })
  | .isBusy =>
    some (s, { c with phase := if answer.busy ∧ answer.ready then .ready else .lock .firstLoad })
  | .ready =>
    match s.cached with
    | some set => some (s, { c with phase := .find set })
    | none => some (s, { c with phase := .done (.failed answer.lookupError) })
  | .lock reason => (s.acquire id).map fun s => (s, { c with phase := .relookup reason })
  | .relookup .firstLoad =>
    match s.cached with
    | some set => some (s.release, { c with phase := .find set })
    | none => some (s, { c with phase := .check .firstLoad none })
  | .relookup .unknownKid =>
    if s.cached.any (c.kid ∈ ·) then
      some (s.release, { c with phase := .done (.returned s.cached true) })
    else some (s, { c with phase := .check .unknownKid s.cached })
  | .check reason set =>
    if s.recent minRefreshInterval then
      some (s.release, { c with phase :=
        match reason with
        | .firstLoad => .done (.failed (notAvailable jwksURL))
        | .unknownKid => .done (.returned set false) })
    else some (s, { c with phase := .record reason })
  | .record reason =>
    some ({ s with last := some s.clock }, { c with phase := .start reason s.clock })
  | .start reason recorded =>
    some ({ s with refreshes := ⟨recorded, s.clock⟩ :: s.refreshes },
      { c with phase := .fetch reason, refreshes := c.refreshes + 1 })
  | .fetch reason =>
    some (s.release, { c with phase :=
      match answer.fetched, reason with
      | .error err, _ => .done (.failed err)
      | .ok set, .firstLoad => .find set
      | .ok set, .unknownKid => .done (.returned (some set) (decide (c.kid ∈ set))) })
  | .find set =>
    if c.kid ∈ set then some (s, { c with phase := .done (.returned (some set) true) })
    else some (s, { c with phase := .lock .unknownKid })
  | .done _ => none

/-- The clock never runs backwards; the cached set changes in any way. -/
def JwksRefreshGate.event (s : JwksRefreshGate) : CacheEvent → Option JwksRefreshGate
  | .tick elapsed => some { s with clock := s.clock + elapsed }
  | .update set => some { s with cached := set }

/-- Calls of `keySetForKid` for one URL; the argument of a call is its kid. -/
def jwksSystem : System JwksRefreshGate KeySetCall String CacheAnswer CacheEvent where
  initial := {}
  begin kid := { kid }
  move answer id s c := c.move jwksURL minRefreshInterval answer id s
  event event s := s.event event

/-- The phases in which a call holds the gate. -/
def Phase.holding : Phase → Bool
  | .peeking | .relookup _ | .check _ _ | .record _ | .start _ _ | .fetch _ => true
  | _ => false

/-- What holds of the gate: the recorded instants of the refreshes are an interval apart, none
is after the last attempt, and each refresh started after its instant was recorded. -/
structure Spaced (s : JwksRefreshGate) : Prop where
  unused : s.last = none → s.refreshes = []
  newest : ∀ last, s.last = some last → last ≤ s.clock ∧ ∀ r ∈ s.refreshes, r.recorded ≤ last
  spaced : s.refreshes.Pairwise fun newer older =>
    older.recorded + minRefreshInterval ≤ newer.recorded
  started : ∀ r ∈ s.refreshes, r.recorded ≤ r.started ∧ r.started ≤ s.clock

/-- What holds of a call. Once it has passed the check, an interval has passed since the last
attempt; once it has recorded its own, that instant is an interval after every refresh. A
call that found its key at the first lookup refreshes nothing. -/
structure Conforms (id : Nat) (s : JwksRefreshGate) (c : KeySetCall) : Prop where
  holds : c.phase.holding = true → s.holder = some id
  passed : ∀ reason, c.phase = .record reason →
    ∀ last, s.last = some last → last + minRefreshInterval ≤ s.clock
  recorded : ∀ reason recorded, c.phase = .start reason recorded → s.last = some recorded ∧
    ∀ r ∈ s.refreshes, r.recorded + minRefreshInterval ≤ recorded
  fresh : c.phase = .lookup → c.refreshes = 0 ∧ c.firstLookup = none
  hit : ∀ set, c.firstLookup = some (some set) → c.kid ∈ set →
    c.refreshes = 0 ∧ (c.phase = .find set ∨ ∃ result, c.phase = .done result)

/-- What a move of a call can do: it takes or gives back the gate, or it moves on with or
without it. Only under the gate does it record an attempt and start a refresh. -/
inductive Moves (id : Nat) (s : JwksRefreshGate) (c : KeySetCall) :
    JwksRefreshGate → KeySetCall → Prop
  | lookup (next : Phase) (first : c.phase = .lookup) (notHolding : next.holding = false)
      (later : next ≠ .lookup) (found : ∀ set, s.cached = some set → next = .find set) :
      Moves id s c s { c with phase := next, firstLookup := some s.cached }
  | free (next : Phase) (notDone : ∀ result, c.phase ≠ .done result)
      (notHolding : next.holding = false) (later : next ≠ .lookup)
      (settled : ∀ set, c.phase = .find set → c.kid ∈ set → ∃ result, next = .done result) :
      Moves id s c s { c with phase := next }
  | acquire (next : Phase) (notDone : ∀ result, c.phase ≠ .done result)
      (notFind : ∀ set, c.phase ≠ .find set) (unheld : s.holder = none)
      (entered : next = .peeking ∨ ∃ reason, next = .relookup reason) :
      Moves id s c { s with holder := some id } { c with phase := next }
  | look (reason : RefreshReason) (set : Option KeySet) (phase : c.phase = .relookup reason) :
      Moves id s c s { c with phase := .check reason set }
  | pass (reason : RefreshReason) (set : Option KeySet) (phase : c.phase = .check reason set)
      (waited : s.recent minRefreshInterval = false) :
      Moves id s c s { c with phase := .record reason }
  | record (reason : RefreshReason) (phase : c.phase = .record reason) :
      Moves id s c { s with last := some s.clock } { c with phase := .start reason s.clock }
  | start (reason : RefreshReason) (recorded : Int) (phase : c.phase = .start reason recorded) :
      Moves id s c { s with refreshes := ⟨recorded, s.clock⟩ :: s.refreshes }
        { c with phase := .fetch reason, refreshes := c.refreshes + 1 }
  | release (next : Phase) (holding : c.phase.holding = true) (notHolding : next.holding = false)
      (later : next ≠ .lookup) : Moves id s c s.release { c with phase := next }

/-- Acquiring the gate is one of the moves of a call. -/
theorem acquire_moves {next : Phase} {id : Nat} {s s' : JwksRefreshGate} {c c' : KeySetCall}
    (notDone : ∀ result, c.phase ≠ .done result) (notFind : ∀ set, c.phase ≠ .find set)
    (entered : next = .peeking ∨ ∃ reason, next = .relookup reason)
    (moved : ((s.acquire id).map fun s => (s, { c with phase := next })) = some (s', c')) :
    Moves minRefreshInterval id s c s' c' := by
  obtain ⟨held, acquired, isMove⟩ := Option.map_eq_some_iff.1 moved
  obtain ⟨rfl, rfl⟩ := Prod.mk.inj isMove
  unfold JwksRefreshGate.acquire at acquired
  split_ifs at acquired with unheld
  obtain rfl := Option.some.inj acquired
  exact .acquire next notDone notFind unheld entered

/-- Every step of the program is one of these moves. -/
theorem move_moves (answer : CacheAnswer) (id : Nat) (s s' : JwksRefreshGate) (c c' : KeySetCall)
    (moved : c.move jwksURL minRefreshInterval answer id s = some (s', c')) :
    Moves minRefreshInterval id s c s' c' := by
  have free (next : Phase) (notDone : ∀ result, c.phase ≠ .done result)
      (notFind : ∀ set, c.phase ≠ .find set) (notHolding : next.holding = false)
      (later : next ≠ .lookup) (isMove : some (s, { c with phase := next }) = some (s', c')) :
      Moves minRefreshInterval id s c s' c' := by
    obtain ⟨rfl, rfl⟩ := Prod.mk.inj (Option.some.inj isMove)
    exact .free next notDone notHolding later fun set isFind => absurd isFind (notFind set)
  have release (next : Phase) (holding : c.phase.holding = true)
      (notHolding : next.holding = false) (later : next ≠ .lookup)
      (isMove : some (s.release, { c with phase := next }) = some (s', c')) :
      Moves minRefreshInterval id s c s' c' := by
    obtain ⟨rfl, rfl⟩ := Prod.mk.inj (Option.some.inj isMove)
    exact .release next holding notHolding later
  unfold KeySetCall.move at moved
  cases phase : c.phase with
  | lookup =>
    simp only [phase] at moved
    split at moved <;> obtain ⟨rfl, rfl⟩ := Prod.mk.inj (Option.some.inj moved)
    · next set isCached => exact .lookup _ phase rfl (by simp) (by simp [isCached])
    · next isCached => exact .lookup _ phase rfl (by simp) (by simp [isCached])
  | lookupResource =>
    simp only [phase] at moved
    split at moved <;> exact free _ (by simp [phase]) (by simp [phase]) rfl (by simp) moved
  | peek =>
    simp only [phase] at moved
    exact acquire_moves minRefreshInterval (by simp [phase]) (by simp [phase]) (Or.inl rfl) moved
  | peeking =>
    simp only [phase] at moved
    split_ifs at moved <;> exact release _ (by simp [phase, Phase.holding]) rfl (by simp) moved
  | recentlyFailed =>
    simp only [phase] at moved
    split at moved <;> exact free _ (by simp [phase]) (by simp [phase]) rfl (by simp) moved
  | isBusy =>
    simp only [phase] at moved
    split_ifs at moved <;> exact free _ (by simp [phase]) (by simp [phase]) rfl (by simp) moved
  | ready =>
    simp only [phase] at moved
    split at moved <;> exact free _ (by simp [phase]) (by simp [phase]) rfl (by simp) moved
  | lock reason =>
    simp only [phase] at moved
    exact acquire_moves minRefreshInterval (by simp [phase]) (by simp [phase])
      (Or.inr ⟨reason, rfl⟩) moved
  | relookup reason =>
    cases reason with
    | firstLoad =>
      simp only [phase] at moved
      split at moved
      · exact release _ (by simp [phase, Phase.holding]) rfl (by simp) moved
      · obtain ⟨rfl, rfl⟩ := Prod.mk.inj (Option.some.inj moved)
        exact .look .firstLoad none phase
    | unknownKid =>
      simp only [phase] at moved
      split_ifs at moved
      · exact release _ (by simp [phase, Phase.holding]) rfl (by simp) moved
      · obtain ⟨rfl, rfl⟩ := Prod.mk.inj (Option.some.inj moved)
        exact .look .unknownKid s.cached phase
  | check reason set =>
    simp only [phase] at moved
    split_ifs at moved with isRecent
    · cases reason <;> exact release _ (by simp [phase, Phase.holding]) rfl (by simp) moved
    · obtain ⟨rfl, rfl⟩ := Prod.mk.inj (Option.some.inj moved)
      exact .pass reason set phase (by simpa using isRecent)
  | record reason =>
    simp only [phase] at moved
    obtain ⟨rfl, rfl⟩ := Prod.mk.inj (Option.some.inj moved)
    exact .record reason phase
  | start reason recorded =>
    simp only [phase] at moved
    obtain ⟨rfl, rfl⟩ := Prod.mk.inj (Option.some.inj moved)
    exact .start reason recorded phase
  | fetch reason =>
    simp only [phase] at moved
    split at moved <;> exact release _ (by simp [phase, Phase.holding]) rfl (by simp) moved
  | find set =>
    simp only [phase] at moved
    split_ifs at moved with inside <;> obtain ⟨rfl, rfl⟩ := Prod.mk.inj (Option.some.inj moved)
    · exact .free _ (by simp [phase]) rfl (by simp) fun _ _ _ => ⟨_, rfl⟩
    · refine .free _ (by simp [phase]) rfl (by simp) fun other isFind isInside => ?_
      obtain rfl := Phase.find.inj (phase.symm.trans isFind)
      exact absurd isInside inside
  | done result =>
    simp only [phase] at moved
    cases moved

/-- A call that found its key at the first lookup never comes to hold the gate. -/
theorem Conforms.not_holding_of_hit {id : Nat} {s : JwksRefreshGate} {c : KeySetCall}
    (conforms : Conforms minRefreshInterval id s c) (set : KeySet)
    (found : c.firstLookup = some (some set)) (inside : c.kid ∈ set) :
    c.phase.holding = false := by
  obtain ⟨-, isFind | ⟨result, isDone⟩⟩ := conforms.hit set found inside
  · rw [isFind]; rfl
  · rw [isDone]; rfl

/-- A move of a call leaves the gate alone while another holds it. -/
theorem Moves.gate_of_other {id other : Nat} {s s' : JwksRefreshGate} {c c' : KeySetCall}
    (moves : Moves minRefreshInterval id s c s' c')
    (conforms : Conforms minRefreshInterval id s c) (different : other ≠ id)
    (held : s.holder = some other) : s' = s := by
  have notHolding : ¬ c.phase.holding = true := fun holding =>
    different (Option.some.inj (held.symm.trans (conforms.holds holding)))
  cases moves with
  | acquire next notDone notFind unheld entered => simp [held] at unheld
  | record reason phase => simp [phase, Phase.holding] at notHolding
  | start reason recorded phase => simp [phase, Phase.holding] at notHolding
  | release next holding _ later => exact absurd holding notHolding
  | _ => rfl

/-- A move of a call keeps the refreshes apart. -/
theorem Moves.spaced {id : Nat} {s s' : JwksRefreshGate} {c c' : KeySetCall}
    (moves : Moves minRefreshInterval id s c s' c') (spaced : Spaced minRefreshInterval s)
    (conforms : Conforms minRefreshInterval id s c) : Spaced minRefreshInterval s' := by
  cases moves with
  | record reason phase =>
    refine ⟨fun none => by simp at none, fun last isLast => ?_, spaced.spaced, spaced.started⟩
    obtain rfl := Option.some.inj isLast
    refine ⟨le_rfl, fun r inside => ?_⟩
    obtain ⟨started, past⟩ := spaced.started r inside
    exact started.trans past
  | start reason recorded phase =>
    obtain ⟨isLast, apart⟩ := conforms.recorded reason recorded phase
    obtain ⟨past, notAfter⟩ := spaced.newest recorded isLast
    refine ⟨fun none => by simp [isLast] at none, fun last found => ?_,
      List.pairwise_cons.2 ⟨apart, spaced.spaced⟩, fun r inside => ?_⟩
    · obtain rfl := Option.some.inj (isLast.symm.trans found)
      refine ⟨past, fun r inside => ?_⟩
      rcases List.mem_cons.1 inside with rfl | earlier
      · exact le_rfl
      · exact notAfter r earlier
    · rcases List.mem_cons.1 inside with rfl | earlier
      · exact ⟨past, le_rfl⟩
      · exact spaced.started r earlier
  | acquire => exact ⟨spaced.unused, spaced.newest, spaced.spaced, spaced.started⟩
  | release => exact ⟨spaced.unused, spaced.newest, spaced.spaced, spaced.started⟩
  | _ => exact spaced

/-- A phase outside the gate claims nothing of it. -/
theorem Conforms.of_not_holding {id : Nat} {s : JwksRefreshGate} {c : KeySetCall}
    (notHolding : c.phase.holding = false)
    (fresh : c.phase = .lookup → c.refreshes = 0 ∧ c.firstLookup = none)
    (hit : ∀ set, c.firstLookup = some (some set) → c.kid ∈ set →
      c.refreshes = 0 ∧ (c.phase = .find set ∨ ∃ result, c.phase = .done result)) :
    Conforms minRefreshInterval id s c := by
  refine ⟨fun holding => ?_, fun reason phase => ?_, fun reason recorded phase => ?_, fresh, hit⟩
  · simp [notHolding] at holding
  · simp [phase, Phase.holding] at notHolding
  · simp [phase, Phase.holding] at notHolding

/-- A move of a call keeps what holds of it. -/
theorem Moves.conforms {id : Nat} {s s' : JwksRefreshGate} {c c' : KeySetCall}
    (moves : Moves minRefreshInterval id s c s' c') (spaced : Spaced minRefreshInterval s)
    (conforms : Conforms minRefreshInterval id s c) : Conforms minRefreshInterval id s' c' := by
  have notHit (holding : c.phase.holding = true) (set : KeySet)
      (found : c.firstLookup = some (some set)) (inside : c.kid ∈ set) : False := by
    simp [conforms.not_holding_of_hit minRefreshInterval set found inside] at holding
  cases moves with
  | lookup next first notHolding later found =>
    refine .of_not_holding minRefreshInterval notHolding (fun first => absurd first later)
      fun set isCached inside => ?_
    exact ⟨(conforms.fresh first).1, Or.inl (found set (Option.some.inj isCached))⟩
  | free next notDone notHolding later settled =>
    refine .of_not_holding minRefreshInterval notHolding (fun first => absurd first later)
      fun set found inside => ?_
    obtain ⟨unused, isFind | ⟨result, isDone⟩⟩ := conforms.hit set found inside
    · exact ⟨unused, Or.inr (settled set isFind inside)⟩
    · exact absurd isDone (notDone result)
  | acquire next notDone notFind unheld entered =>
    refine ⟨fun _ => rfl, ?_, ?_, ?_, fun set found inside => ?_⟩
    · rcases entered with rfl | ⟨reason, rfl⟩ <;> simp
    · rcases entered with rfl | ⟨reason, rfl⟩ <;> simp
    · rcases entered with rfl | ⟨reason, rfl⟩ <;> simp
    · obtain ⟨-, isFind | ⟨result, isDone⟩⟩ := conforms.hit set found inside
      · exact absurd isFind (notFind set)
      · exact absurd isDone (notDone result)
  | look reason set phase =>
    have holding : c.phase.holding = true := by rw [phase]; rfl
    exact ⟨fun _ => conforms.holds holding, by simp, by simp, by simp,
      fun set found inside => (notHit holding set found inside).elim⟩
  | pass reason set phase waited =>
    have holding : c.phase.holding = true := by rw [phase]; rfl
    refine ⟨fun _ => conforms.holds holding, fun _ _ last isLast => ?_, by simp, by simp,
      fun set found inside => (notHit holding set found inside).elim⟩
    simp [JwksRefreshGate.recent, isLast] at waited
    omega
  | record reason phase =>
    have holding : c.phase.holding = true := by rw [phase]; rfl
    refine ⟨fun _ => conforms.holds holding, by simp, fun other recorded same => ?_, by simp,
      fun set found inside => (notHit holding set found inside).elim⟩
    obtain ⟨rfl, rfl⟩ := Phase.start.inj same
    refine ⟨rfl, fun r inside => ?_⟩
    cases isLast : s.last with
    | none => simp [spaced.unused isLast] at inside
    | some last =>
      have notAfter := (spaced.newest last isLast).2 r inside
      have waited := conforms.passed reason phase last isLast
      exact (Int.add_le_add_right notAfter _).trans waited
  | start reason recorded phase =>
    have holding : c.phase.holding = true := by rw [phase]; rfl
    exact ⟨fun _ => conforms.holds holding, by simp, by simp, by simp,
      fun set found inside => (notHit holding set found inside).elim⟩
  | release next holding notHolding later =>
    exact .of_not_holding minRefreshInterval notHolding (fun first => absurd first later)
      fun set found inside => (notHit holding set found inside).elim

/-- A call of the gate is not disturbed by the moves of others. -/
theorem Moves.undisturbed {id other : Nat} {s s' : JwksRefreshGate} {c c' bystander : KeySetCall}
    (moves : Moves minRefreshInterval id s c s' c') (different : other ≠ id)
    (conforms : Conforms minRefreshInterval id s c)
    (otherConforms : Conforms minRefreshInterval other s bystander) :
    Conforms minRefreshInterval other s' bystander := by
  cases holding : bystander.phase.holding with
  | true =>
    rw [moves.gate_of_other minRefreshInterval conforms different (otherConforms.holds holding)]
    exact otherConforms
  | false =>
    exact .of_not_holding minRefreshInterval holding otherConforms.fresh otherConforms.hit

/-- The invariant of the gate and its calls. -/
theorem jwks_invariant :
    (jwksSystem jwksURL minRefreshInterval).Invariant (fun _ => Spaced minRefreshInterval)
      (Conforms minRefreshInterval) where
  initially := by constructor <;> simp [jwksSystem]
  begins kid count s spaced := ⟨spaced, by constructor <;> simp [jwksSystem, Phase.holding]⟩
  moves answer _ id s c s' c' _ spaced conforms moved := by
    have moves := move_moves jwksURL minRefreshInterval answer id s s' c c' moved
    exact ⟨moves.spaced minRefreshInterval spaced conforms,
      moves.conforms minRefreshInterval spaced conforms⟩
  interferes answer _ id s c s' c' other bystander different _ conforms otherConforms moved :=
    (move_moves jwksURL minRefreshInterval answer id s s' c c' moved).undisturbed
      minRefreshInterval different conforms otherConforms
  events event _ s s' spaced happened := by
    cases event with
    | tick elapsed =>
      obtain rfl := Option.some.inj happened
      refine ⟨⟨spaced.unused, fun last isLast => ?_, spaced.spaced, fun r inside => ?_⟩,
        fun id c conforms => ⟨conforms.holds, fun reason phase last isLast => ?_,
          conforms.recorded, conforms.fresh, conforms.hit⟩⟩
      · obtain ⟨past, notAfter⟩ := spaced.newest last isLast
        exact ⟨by dsimp only; omega, notAfter⟩
      · obtain ⟨started, past⟩ := spaced.started r inside
        exact ⟨started, by dsimp only; omega⟩
      · have waited := conforms.passed reason phase last isLast
        dsimp only
        omega
    | update set =>
      obtain rfl := Option.some.inj happened
      exact ⟨⟨spaced.unused, spaced.newest, spaced.spaced, spaced.started⟩, fun id c conforms =>
        ⟨conforms.holds, conforms.passed, conforms.recorded, conforms.fresh, conforms.hit⟩⟩

/-- Forced refreshes are rate-limited. In every schedule each refresh starts at least the
minimum interval after the instant that any earlier one recorded, as do the recorded
instants themselves; so where no time passes between recording and starting, the starts are
that far apart. A call that found its key at the first lookup makes no refresh. -/
theorem refreshes_rate_limited (schedule : List (Action String CacheAnswer CacheEvent))
    (config : Config JwksRefreshGate KeySetCall)
    (ran : (jwksSystem jwksURL minRefreshInterval).run schedule = some config) :
    config.shared.refreshes.Pairwise (fun newer older =>
      older.recorded + minRefreshInterval ≤ newer.recorded ∧
        older.recorded + minRefreshInterval ≤ newer.started) ∧
    (∀ r ∈ config.shared.refreshes, r.recorded ≤ r.started ∧ r.started ≤ config.shared.clock) ∧
    ((∀ r ∈ config.shared.refreshes, r.started = r.recorded) →
      config.shared.refreshes.Pairwise fun newer older =>
        older.started + minRefreshInterval ≤ newer.started) ∧
    ∀ (id : Nat) (call : KeySetCall) (set : KeySet), config.calls[id]? = some call →
      call.firstLookup = some (some set) → call.kid ∈ set → call.refreshes = 0 := by
  obtain ⟨spaced, conforms⟩ :=
    (jwks_invariant jwksURL minRefreshInterval).run schedule config ran
  refine ⟨?_, spaced.started, fun immediate => ?_, fun id call set found first inside => ?_⟩
  · refine spaced.spaced.imp_of_mem ?_
    intro newer older newerIn _ apart
    exact ⟨apart, apart.trans (spaced.started _ newerIn).1⟩
  · refine spaced.spaced.imp_of_mem ?_
    intro newer older newerIn olderIn apart
    rw [immediate _ newerIn, immediate _ olderIn]
    exact apart
  · exact ((conforms id call found).hit set first inside).1

end Program

/-- A call that goes through the gate to a refresh, from its first lookup in an empty set to
the instant it has recorded. -/
def toRecorded (id : Nat) : List (Action String CacheAnswer CacheEvent) :=
  [.call "kid", .move id {}, .move id {}, .move id {}, .move id {}, .move id {}, .move id {}]

/-- A call records its attempt at 0 and is held up until 25 before it starts its refresh. The
next one finds the interval over at 30 and refreshes at once. -/
def heldUp : List (Action String CacheAnswer CacheEvent) :=
  .event (.update (some ∅)) :: toRecorded 0 ++ [.event (.tick 25), .move 0 {}, .move 0 {},
    .event (.tick 5)] ++ toRecorded 1 ++ [.move 1 {}]

/-- Both refreshes are an interval after what was recorded before them. -/
theorem refreshes_rate_limited_heldUp :
    ∃ config, (jwksSystem "url" 30).run heldUp = some config ∧
      config.shared.refreshes.Pairwise (fun newer older =>
        older.recorded + 30 ≤ newer.recorded ∧ older.recorded + 30 ≤ newer.started) :=
  ⟨_, rfl, (refreshes_rate_limited "url" 30 heldUp _ rfl).1⟩

/-- The starts of two refreshes can be less than the interval apart: here they are at 25 and
at 30. -/
theorem starts_closer_than_interval :
    ∃ config, (jwksSystem "url" 30).run heldUp = some config ∧
      ¬ config.shared.refreshes.Pairwise fun newer older => older.started + 30 ≤ newer.started :=
  ⟨_, rfl, by decide⟩

end FluffyCore.Auth
