import FluffyCore.Cache.MemoryCache
import Mathlib.Data.List.Nodup

/-!
# An adder fills a key once

A flight is led by one call, and only that call changes the cache while the flight lasts. Since
the leader looks the key up again, it runs its adder only while nothing is stored, and nothing
is stored until it does so itself. The first adder that succeeds is therefore the last one that
runs.
-/

namespace FluffyCore.Cache

open Library.Interleaving

variable {Value Err : Type}

section Slots

variable {slot : Slot Value}

/-- The item has expired and is still in the table. -/
def Slot.expired (slot : Slot Value) : Bool := slot.item.any Item.expired

/-- The value of a slot is what a lookup finds. -/
theorem value_eq_some_iff {value : Value} :
    slot.value = some value ↔ slot.get = some (some value) := by
  rw [Slot.value, Option.join_eq_some_iff]

/-- A lookup that gives no value finds nothing stored. -/
theorem value_eq_none_iff : slot.value = none ↔ ∀ value, slot.get ≠ some (some value) := by
  rw [Option.eq_none_iff_forall_ne_some]
  exact forall_congr' fun value => not_congr value_eq_some_iff

/-- What is stored is found. -/
theorem value_setWithTTL (slot : Slot Value) (obj : Value) :
    (slot.setWithTTL obj).value = some obj := rfl

/-- A write over an item that has not expired leaves nothing stale behind. -/
theorem stale_setWithTTL (unexpired : slot.expired = false) (obj : Value) :
    (slot.setWithTTL obj).stale = slot.stale := by
  rcases slot with ⟨_ | ⟨data, expired⟩, stale⟩
  · rfl
  · obtain rfl : expired = false := by simpa [Slot.expired] using unexpired
    rfl

/-- What a lookup finds has not expired. -/
theorem expired_of_get {data : Option Value} (found : slot.get = some data) :
    slot.expired = false := by
  rcases slot with ⟨_ | ⟨_, _ | _⟩, stale⟩
  · rfl
  · rfl
  · cases found

/-- Unless something stale is queued, the cleaner changes nothing a lookup sees. -/
theorem value_clean (fresh : slot.stale = false) : slot.clean.value = slot.value := by
  rcases slot with ⟨_ | ⟨_, _ | _⟩, stale⟩
  all_goals
    obtain rfl : stale = false := fresh
    rfl

/-- The cleaner leaves nothing expired in the table. -/
theorem expired_clean (slot : Slot Value) : slot.clean.expired = false := by
  rcases slot with ⟨_ | ⟨_, _ | _⟩, _ | _⟩ <;> rfl

end Slots

/-- A call leads a flight that has not ended. -/
def Leading (s : MemoryCache Value Err) (id flight : Nat) : Prop :=
  s.current = some flight ∧ s.flights[flight]? = some ⟨id, none⟩

/-- What the result of a flight says about the cache and the adders. -/
def Explained (s : MemoryCache Value Err) (flight : Nat) : Except Err Value → Prop
  | .ok value => s.slot.value = some value ∧
      ∀ invocation ∈ s.invocations, invocation.flight = flight → invocation.outcome = .ok value
  | .error err => ∃ call, ⟨call, flight, .error err⟩ ∈ s.invocations

/-- No adder has run in a flight. -/
def Unused (s : MemoryCache Value Err) (flight : Nat) : Prop :=
  ∀ invocation ∈ s.invocations, invocation.flight ≠ flight

/-- A flight's adder has returned a value that is not stored yet. -/
structure Filling (s : MemoryCache Value Err) (id flight : Nat) (obj : Value) : Prop where
  leading : Leading s id flight
  holding : s.holding = some obj
  empty : s.slot.value = none
  invoked : ⟨id, flight, .ok obj⟩ ∈ s.invocations

/-- What holds of the cache in every schedule. -/
structure Sound (slot : Slot Value) (s : MemoryCache Value Err) : Prop where
  running : ∀ flight, s.current = some flight → ∃ leader, s.flights[flight]? = some ⟨leader, none⟩
  ended : ∀ flight leader, s.flights[flight]? = some ⟨leader, none⟩ → s.current = some flight
  idle : s.current = none → s.holding = none
  fresh : s.slot.stale = false
  kept : ∀ value, slot.value = some value → s.slot.value = some value ∧ s.invocations = []
  source : ∀ value, s.slot.value = some value → slot.value = some value ∨
    ∃ invocation ∈ s.invocations, invocation.outcome = .ok value
  successes : ∀ invocation ∈ s.invocations, ∀ value, invocation.outcome = .ok value →
    s.slot.value = some value ∨ s.holding = some value
  unique : (s.invocations.filter fun invocation => invocation.outcome.isOk).length ≤ 1
  once : (s.invocations.map Invocation.flight).Nodup
  known : ∀ invocation ∈ s.invocations, invocation.flight < s.flights.length
  results : ∀ flight leader result, s.flights[flight]? = some ⟨leader, some result⟩ →
    Explained s flight result
  stored : ∀ store ∈ s.stores, s.slot.value = some store.2 ∧
    ∃ call, ⟨call, store.1, .ok store.2⟩ ∈ s.invocations

/-- What holds of a call in every schedule. -/
def Own (id : Nat) (s : MemoryCache Value Err) (c : Call Value Err) : Prop :=
  match c.phase with
  | .get | .enter => c.flight = none
  | .wait flight => c.flight = some flight ∧ flight < s.flights.length
  | .recheck flight => c.flight = some flight ∧ Leading s id flight ∧ s.holding = none ∧
      Unused s flight
  | .adder flight => c.flight = some flight ∧ Leading s id flight ∧ s.holding = none ∧
      Unused s flight ∧ s.slot.value = none
  | .dropExpired flight obj | .remove flight obj =>
      c.flight = some flight ∧ Filling s id flight obj
  | .setWithTTL flight obj => c.flight = some flight ∧ Filling s id flight obj ∧
      s.slot.expired = false
  | .finish flight result => c.flight = some flight ∧ Leading s id flight ∧ s.holding = none ∧
      Explained s flight result
  | .done result => (c.flight = none ∧ ∃ value, result = .ok value ∧ s.slot.value = some value) ∨
      ∃ flight leader, c.flight = some flight ∧
        s.flights[flight]? = some ⟨leader, some result⟩

/-- The flight a call leads, if it does. -/
def Phase.leads : Phase Value Err → Option Nat
  | .recheck flight | .adder flight | .dropExpired flight _ | .remove flight _
  | .setWithTTL flight _ | .finish flight _ => some flight
  | _ => none

/-- A call in a phase of a flight's leader leads that flight. -/
theorem Own.leading {id flight : Nat} {s : MemoryCache Value Err} {c : Call Value Err}
    (own : Own id s c) (leads : c.phase.leads = some flight) : Leading s id flight := by
  unfold Own at own
  cases phase : c.phase <;> rw [phase] at own leads <;> cases leads
  · exact own.2.1
  · exact own.2.1
  · exact own.2.leading
  · exact own.2.leading
  · exact own.2.1.leading
  · exact own.2.1

/-- What a later state of the cache keeps for calls that lead no flight. -/
structure Grows (s after : MemoryCache Value Err) : Prop where
  flights : s.flights.length ≤ after.flights.length
  results : ∀ (flight : Nat) leader result, s.flights[flight]? = some ⟨leader, some result⟩ →
    after.flights[flight]? = some ⟨leader, some result⟩
  value : ∀ value, s.slot.value = some value → after.slot.value = some value

/-- A call that leads no flight keeps its invariant while the cache grows. -/
theorem Own.grows {id : Nat} {s after : MemoryCache Value Err} {c : Call Value Err}
    (own : Own id s c) (grows : Grows s after) (led : c.phase.leads = none) : Own id after c := by
  unfold Own at own ⊢
  cases phase : c.phase <;> rw [phase] at own led
  case get => exact own
  case enter => exact own
  case wait flight => exact ⟨own.1, Nat.lt_of_lt_of_le own.2 grows.flights⟩
  case done result =>
    rcases own with ⟨alone, value, isOk, found⟩ | ⟨flight, leader, shared, ended⟩
    · exact Or.inl ⟨alone, value, isOk, grows.value value found⟩
    · exact Or.inr ⟨flight, leader, shared, grows.results flight leader result ended⟩
  all_goals cases led

section Steps

variable {slot : Slot Value} {s : MemoryCache Value Err} {id flight : Nat}

/-- A flight that is led has begun. -/
theorem Leading.inside (leading : Leading s id flight) : flight < s.flights.length :=
  (List.getElem?_eq_some_iff.1 leading.2).1

/-- A result stays explained while neither the value nor the invocations change. -/
theorem Explained.of_same {after : MemoryCache Value Err} {result : Except Err Value}
    (explained : Explained s flight result) (sameValue : after.slot.value = s.slot.value)
    (sameRuns : after.invocations = s.invocations) : Explained after flight result := by
  cases result with
  | ok value =>
    rw [Explained, sameValue, sameRuns]
    exact explained
  | error err =>
    rw [Explained, sameRuns]
    exact explained

/-- A slot without a value does not hold one. -/
theorem value_ne_of_empty (empty : s.slot.value = none) (value : Value) :
    s.slot.value ≠ some value := by
  rw [empty]
  exact (Option.some_ne_none value).symm

/-- While nothing is stored, no flight has ended with a value, and what was reported stays
explained by the runs of adders there were. -/
theorem Explained.of_empty {after : MemoryCache Value Err} {result : Except Err Value}
    (explained : Explained s flight result) (empty : s.slot.value = none)
    (runs : s.invocations ⊆ after.invocations) : Explained after flight result := by
  cases result with
  | ok value => exact absurd explained.1 (value_ne_of_empty empty value)
  | error err =>
    obtain ⟨call, inside⟩ := explained
    exact ⟨call, runs inside⟩

/-- A flight is started by the call that leads it. -/
theorem Sound.launch (sound : Sound slot s) (idle : s.current = none) (id : Nat) :
    Sound slot { s with
      flights := s.flights ++ [⟨id, none⟩], current := some s.flights.length } where
  running := by
    rintro flight ⟨⟩
    exact ⟨id, List.getElem?_concat_length⟩
  ended := by
    intro flight leader found
    rcases Nat.lt_trichotomy flight s.flights.length with earlier | isNew | beyond
    · rw [List.getElem?_append_left earlier] at found
      have busy := sound.ended flight leader found
      rw [idle] at busy
      cases busy
    · exact congrArg some isNew.symm
    · rw [List.getElem?_eq_none (by simp; omega)] at found
      cases found
  idle := by
    intro impossible
    cases impossible
  fresh := sound.fresh
  kept := sound.kept
  source := sound.source
  successes := sound.successes
  unique := sound.unique
  once := sound.once
  known invocation inside := by
    rw [List.length_append]
    exact Nat.lt_add_right _ (sound.known invocation inside)
  results := by
    intro flight leader result found
    have earlier : flight < s.flights.length := by
      by_contra beyond
      rcases Nat.lt_or_eq_of_le (Nat.not_lt.1 beyond) with later | isNew
      · rw [List.getElem?_eq_none (by simp; omega)] at found
        cases found
      · rw [← isNew, List.getElem?_concat_length] at found
        cases found
    rw [List.getElem?_append_left earlier] at found
    exact (sound.results flight leader result found).of_same rfl rfl
  stored := sound.stored

/-- While nothing is stored or held, no adder has succeeded. -/
theorem Sound.no_success (sound : Sound slot s) (empty : s.slot.value = none)
    (idle : s.holding = none) (invocation : Invocation Value Err)
    (inside : invocation ∈ s.invocations) (value : Value) : invocation.outcome ≠ .ok value := by
  intro isOk
  rcases sound.successes invocation inside value isOk with found | held
  · exact absurd found (value_ne_of_empty empty value)
  · rw [idle] at held
    cases held

/-- A flight runs one adder at most. -/
theorem Sound.same_run (sound : Sound slot s) {first second : Invocation Value Err}
    (firstInside : first ∈ s.invocations) (secondInside : second ∈ s.invocations)
    (same : first.flight = second.flight) : first = second :=
  List.inj_on_of_nodup_map sound.once firstInside secondInside same

/-- An adder runs, which none has done before with success. What it returns is held. -/
theorem Sound.invoke (sound : Sound slot s) (leading : Leading s id flight)
    (unused : Unused s flight) (empty : s.slot.value = none) (idle : s.holding = none)
    (outcome : Except Err Value) :
    Sound slot { s with
      invocations := s.invocations ++ [⟨id, flight, outcome⟩]
      holding := outcome.toOption } where
  running := sound.running
  ended := sound.ended
  idle none := by
    have busy := leading.1.symm.trans none
    cases busy
  fresh := sound.fresh
  kept value initially := by
    exact absurd (sound.kept value initially).1 (value_ne_of_empty empty value)
  source value found := absurd found (value_ne_of_empty empty value)
  successes invocation inside value isOk := by
    rcases List.mem_append.1 inside with earlier | isNew
    · exact absurd isOk (sound.no_success empty idle invocation earlier value)
    · rw [List.mem_singleton.1 isNew] at isOk
      exact Or.inr (congrArg Except.toOption isOk)
  unique := by
    have none_before : s.invocations.filter (fun invocation => invocation.outcome.isOk) = [] := by
      rw [List.filter_eq_nil_iff]
      intro invocation inside
      cases outcome : invocation.outcome with
      | ok value => exact absurd outcome (sound.no_success empty idle invocation inside value)
      | error err => simp [Except.isOk, Except.toBool]
    rw [List.filter_append, none_before, List.nil_append]
    exact List.length_filter_le _ _
  once := by
    rw [List.map_append, List.nodup_append]
    refine ⟨sound.once, by simp, ?_⟩
    intro first earlier second isNew same
    obtain ⟨invocation, inside, rfl⟩ := List.mem_map.1 earlier
    rw [List.map_singleton, List.mem_singleton] at isNew
    exact unused invocation inside (same.trans isNew)
  known invocation inside := by
    rcases List.mem_append.1 inside with earlier | isNew
    · exact sound.known invocation earlier
    · rw [List.mem_singleton.1 isNew]
      exact leading.inside
  results other leader result found :=
    (sound.results other leader result found).of_empty empty (List.subset_append_left _ _)
  stored store inside := by
    obtain ⟨found, call, invoked⟩ := sound.stored store inside
    exact ⟨found, call, List.mem_append_left _ invoked⟩

/-- An expired item, or an item without a value, is removed. -/
theorem Sound.remove (sound : Sound slot s) (empty : s.slot.value = none) :
    Sound slot { s with slot := s.slot.remove } where
  running := sound.running
  ended := sound.ended
  idle := sound.idle
  fresh := sound.fresh
  kept value initially := by
    exact absurd (sound.kept value initially).1 (value_ne_of_empty empty value)
  source value found := by cases found
  successes invocation inside value isOk := by
    rcases sound.successes invocation inside value isOk with found | held
    · exact absurd found (value_ne_of_empty empty value)
    · exact Or.inr held
  unique := sound.unique
  once := sound.once
  known := sound.known
  results other leader result found :=
    (sound.results other leader result found).of_empty empty (List.Subset.refl _)
  stored store inside := by
    exact absurd (sound.stored store inside).1 (value_ne_of_empty empty store.2)

/-- The value of the flight is stored. -/
theorem Sound.store (sound : Sound slot s) {obj : Value} (filling : Filling s id flight obj)
    (unexpired : s.slot.expired = false) :
    Sound slot { s with
      slot := s.slot.setWithTTL obj
      holding := none
      stores := s.stores ++ [(flight, obj)] } where
  running := sound.running
  ended := sound.ended
  idle _ := rfl
  fresh := (stale_setWithTTL unexpired obj).trans sound.fresh
  kept value initially := by
    exact absurd (sound.kept value initially).1 (value_ne_of_empty filling.empty value)
  source value found := by
    rw [value_setWithTTL, Option.some.injEq] at found
    subst found
    exact Or.inr ⟨_, filling.invoked, rfl⟩
  successes invocation inside value isOk := by
    rcases sound.successes invocation inside value isOk with found | held
    · exact absurd found (value_ne_of_empty filling.empty value)
    · rw [filling.holding, Option.some.injEq] at held
      subst held
      exact Or.inl (value_setWithTTL s.slot obj)
  unique := sound.unique
  once := sound.once
  known := sound.known
  results other leader result found :=
    (sound.results other leader result found).of_empty filling.empty (List.Subset.refl _)
  stored store inside := by
    rcases List.mem_append.1 inside with earlier | isNew
    · exact absurd (sound.stored store earlier).1 (value_ne_of_empty filling.empty store.2)
    · rw [List.mem_singleton.1 isNew]
      exact ⟨value_setWithTTL s.slot obj, id, filling.invoked⟩

/-- Ending a flight changes no other flight. -/
theorem getElem?_ended (flights : List (Flight Value Err))
    (leading : flights[flight]? = some ⟨id, none⟩) (result : Except Err Value) (other : Nat) :
    (flights.modify flight fun f => { f with result := some result })[other]? =
      if flight = other then some ⟨id, some result⟩ else flights[other]? := by
  by_cases same : flight = other
  · subst same
    rw [if_pos rfl, List.getElem?_modify_eq, leading]
    rfl
  · rw [if_neg same, List.getElem?_modify_ne _ _ same]

/-- The flight ends and leaves its result to the calls that share it. -/
theorem Sound.finish (sound : Sound slot s) (leading : Leading s id flight)
    (idle : s.holding = none) {result : Except Err Value} (explained : Explained s flight result) :
    Sound slot { s with
      flights := s.flights.modify flight fun f => { f with result := some result }
      current := none } where
  running other impossible := by cases impossible
  ended other leader found := by
    dsimp only at found
    rw [getElem?_ended s.flights leading.2] at found
    split_ifs at found with same
    · cases found
    · have busy := leading.1.symm.trans (sound.ended other leader found)
      exact absurd (Option.some.inj busy) same
  idle _ := idle
  fresh := sound.fresh
  kept := sound.kept
  source := sound.source
  successes := sound.successes
  unique := sound.unique
  once := sound.once
  known invocation inside := by
    rw [List.length_modify]
    exact sound.known invocation inside
  results other leader otherResult found := by
    dsimp only at found
    rw [getElem?_ended s.flights leading.2] at found
    split_ifs at found with same
    · subst same
      cases found
      exact explained.of_same rfl rfl
    · exact (sound.results other leader otherResult found).of_same rfl rfl
  stored := sound.stored

/-- The cleaner evicts nothing that a lookup would find. -/
theorem Sound.clean (sound : Sound slot s) : Sound slot { s with slot := s.slot.clean } where
  running := sound.running
  ended := sound.ended
  idle := sound.idle
  fresh := rfl
  kept value initially := by
    rw [value_clean sound.fresh]
    exact sound.kept value initially
  source value found := by
    rw [value_clean sound.fresh] at found
    exact sound.source value found
  successes invocation inside value isOk := by
    rw [value_clean sound.fresh]
    exact sound.successes invocation inside value isOk
  unique := sound.unique
  once := sound.once
  known := sound.known
  results other leader result found :=
    (sound.results other leader result found).of_same (value_clean sound.fresh) rfl
  stored store inside := by
    rw [value_clean sound.fresh]
    exact sound.stored store inside

/-- A cache that does not change grows. -/
theorem Grows.refl (s : MemoryCache Value Err) : Grows s s :=
  ⟨Nat.le_refl _, fun _ _ _ found => found, fun _ found => found⟩

/-- Nothing is lost where nothing was stored. -/
theorem Grows.of_empty {after : MemoryCache Value Err} (empty : s.slot.value = none)
    (sameFlights : after.flights = s.flights) : Grows s after := by
  constructor
  · exact Nat.le_of_eq (congrArg List.length sameFlights.symm)
  · intro flight leader result found
    rw [sameFlights]
    exact found
  · exact fun value found => absurd found (value_ne_of_empty empty value)

/-- A flight that begins is a new one. -/
theorem Grows.launch (s : MemoryCache Value Err) (id : Nat) :
    Grows s { s with flights := s.flights ++ [⟨id, none⟩], current := some s.flights.length } := by
  refine ⟨?_, ?_, fun _ found => found⟩
  · rw [List.length_append]
    exact Nat.le_add_right _ _
  · intro flight leader result found
    rw [List.getElem?_append_left (List.getElem?_eq_some_iff.1 found).1]
    exact found

/-- A flight that ends had no result before. -/
theorem Grows.finish {flight : Nat} (leading : Leading s id flight) (result : Except Err Value) :
    Grows s { s with
      flights := s.flights.modify flight fun f => { f with result := some result }
      current := none } := by
  refine ⟨Nat.le_of_eq (List.length_modify _ _ _).symm, ?_, fun _ found => found⟩
  intro other leader otherResult found
  dsimp only
  rw [getElem?_ended s.flights leading.2, if_neg]
  · exact found
  · rintro rfl
    rw [leading.2] at found
    cases found

variable {c next : Call Value Err} {after : MemoryCache Value Err}

/-- What one step of a call does. -/
theorem Sound.move (sound : Sound slot s) (own : Own id s c)
    (moved : c.move id s = some (after, next)) :
    Sound slot after ∧ Own id after next ∧ Grows s after := by
  unfold Call.move at moved
  unfold Own at own
  cases phase : c.phase <;> rw [phase] at moved own
  case get =>
    dsimp only at moved
    split at moved
    · next value found =>
      cases moved
      exact ⟨sound, Or.inl ⟨own, value, rfl, value_eq_some_iff.2 found⟩, Grows.refl s⟩
    · cases moved
      exact ⟨sound, own, Grows.refl s⟩
  case enter =>
    dsimp only at moved
    split at moved
    · next flight busy =>
      cases moved
      obtain ⟨leader, running⟩ := sound.running flight busy
      exact ⟨sound, ⟨rfl, (List.getElem?_eq_some_iff.1 running).1⟩, Grows.refl s⟩
    · next idle =>
      cases moved
      refine ⟨sound.launch idle id, ⟨rfl, ⟨rfl, List.getElem?_concat_length⟩, sound.idle idle, ?_⟩,
        Grows.launch s id⟩
      intro invocation inside same
      exact Nat.lt_irrefl _ (same ▸ sound.known invocation inside)
  case wait flight =>
    dsimp only at moved
    split at moved
    · next leader result ended =>
      cases moved
      exact ⟨sound, Or.inr ⟨flight, leader, own.1, ended⟩, Grows.refl s⟩
    · cases moved
  case recheck flight =>
    obtain ⟨shared, leading, idle, unused⟩ := own
    dsimp only at moved
    split at moved
    · next value found =>
      cases moved
      refine ⟨sound, ⟨shared, leading, idle, value_eq_some_iff.2 found, ?_⟩, Grows.refl s⟩
      intro invocation inside same
      exact absurd same (unused invocation inside)
    · next missed =>
      cases moved
      exact ⟨sound, ⟨shared, leading, idle, unused, value_eq_none_iff.2 missed⟩, Grows.refl s⟩
  case adder flight =>
    obtain ⟨shared, leading, idle, unused, empty⟩ := own
    have invoked := sound.invoke leading unused empty idle c.adder
    dsimp only at moved
    split at moved
    · next err outcome =>
      cases moved
      rw [outcome] at invoked
      have same : ({ s with
          invocations := s.invocations ++ [⟨id, flight, c.adder⟩] } : MemoryCache Value Err) =
          { s with
            invocations := s.invocations ++ [⟨id, flight, .error err⟩], holding := none } := by
        rw [outcome, ← idle]
      rw [same]
      refine ⟨invoked, ⟨shared, leading, rfl, id, ?_⟩, Grows.of_empty empty rfl⟩
      exact List.mem_append_right _ (List.mem_singleton.2 rfl)
    · next obj outcome =>
      cases moved
      rw [outcome] at invoked
      rw [outcome]
      refine ⟨invoked, ⟨shared, leading, rfl, empty, ?_⟩, Grows.of_empty empty rfl⟩
      exact List.mem_append_right _ (List.mem_singleton.2 rfl)
  case dropExpired flight obj =>
    obtain ⟨shared, filling⟩ := own
    dsimp only at moved
    split at moved
    · next data found =>
      cases moved
      exact ⟨sound, ⟨shared, filling, expired_of_get found⟩, Grows.refl s⟩
    · cases moved
      exact ⟨sound, ⟨shared, filling⟩, Grows.refl s⟩
  case remove flight obj =>
    obtain ⟨shared, filling⟩ := own
    cases moved
    refine ⟨sound.remove filling.empty, ⟨shared, ⟨filling.leading, filling.holding, rfl,
      filling.invoked⟩, rfl⟩, Grows.of_empty filling.empty rfl⟩
  case setWithTTL flight obj =>
    obtain ⟨shared, filling, unexpired⟩ := own
    cases moved
    refine ⟨sound.store filling unexpired, ⟨shared, filling.leading, rfl,
      value_setWithTTL s.slot obj, ?_⟩, Grows.of_empty filling.empty rfl⟩
    intro invocation inside same
    -- There is one run per flight, and it is the one whose value is stored.
    rw [sound.same_run inside filling.invoked same]
  case finish flight result =>
    obtain ⟨shared, leading, idle, explained⟩ := own
    cases moved
    refine ⟨sound.finish leading idle explained, Or.inr ⟨flight, id, shared, ?_⟩,
      Grows.finish leading result⟩
    dsimp only
    rw [getElem?_ended s.flights leading.2, if_pos rfl]
  case done result => cases moved

/-- Two calls do not lead at once, and only the leader changes anything during a flight. -/
theorem Sound.interferes (sound : Sound slot s) (own : Own id s c) {other : Nat}
    {bystander : Call Value Err} (differ : other ≠ id) (ownOther : Own other s bystander)
    (moved : c.move id s = some (after, next)) : Own other after bystander := by
  cases leadsOther : bystander.phase.leads with
  | none => exact ownOther.grows (sound.move own moved).2.2 leadsOther
  | some flight =>
    have leadingOther := ownOther.leading leadsOther
    have follows : c.phase.leads = none := by
      rw [Option.eq_none_iff_forall_ne_some]
      intro mine leads
      have leading := own.leading leads
      have same : mine = flight := Option.some.inj (leading.1.symm.trans leadingOther.1)
      rw [same] at leading
      have both := leading.2.symm.trans leadingOther.2
      cases both
      exact differ rfl
    have unchanged : after = s := by
      unfold Call.move at moved
      cases phase : c.phase <;> rw [phase] at moved follows
      case get =>
        dsimp only at moved
        split at moved <;> cases moved <;> rfl
      case enter =>
        dsimp only at moved
        rw [leadingOther.1] at moved
        cases moved
        rfl
      case wait joined =>
        dsimp only at moved
        split at moved <;> cases moved
        rfl
      case done result => cases moved
      all_goals cases follows
    rw [unchanged]
    exact ownOther

/-- The cleaner disturbs no call. -/
theorem Sound.own_clean (sound : Sound slot s) (own : Own id s c) :
    Own id { s with slot := s.slot.clean } c := by
  have same := value_clean sound.fresh
  unfold Own at own ⊢
  cases phase : c.phase <;> rw [phase] at own
  case get => exact own
  case enter => exact own
  case wait flight => exact own
  case recheck flight => exact own
  case adder flight =>
    obtain ⟨shared, leading, idle, unused, empty⟩ := own
    exact ⟨shared, leading, idle, unused, same.trans empty⟩
  case dropExpired flight obj =>
    obtain ⟨shared, filling⟩ := own
    exact ⟨shared, filling.leading, filling.holding, same.trans filling.empty, filling.invoked⟩
  case remove flight obj =>
    obtain ⟨shared, filling⟩ := own
    exact ⟨shared, filling.leading, filling.holding, same.trans filling.empty, filling.invoked⟩
  case setWithTTL flight obj =>
    obtain ⟨shared, filling, _⟩ := own
    exact ⟨shared, ⟨filling.leading, filling.holding, same.trans filling.empty,
      filling.invoked⟩, expired_clean s.slot⟩
  case finish flight result =>
    obtain ⟨shared, leading, idle, explained⟩ := own
    exact ⟨shared, leading, idle, explained.of_same same rfl⟩
  case done result =>
    rcases own with ⟨alone, value, isOk, found⟩ | ended
    · exact Or.inl ⟨alone, value, isOk, same.trans found⟩
    · exact Or.inr ended

/-- A call runs no adder but its own. -/
theorem Call.move_invocations (moved : c.move id s = some (after, next)) :
    ∀ invocation ∈ after.invocations, invocation ∈ s.invocations ∨ invocation.call = id := by
  have added : ∀ outcome : Except Err Value, ∀ flight : Nat,
      ∀ invocation ∈ s.invocations ++ [⟨id, flight, outcome⟩],
        invocation ∈ s.invocations ∨ invocation.call = id := by
    intro outcome flight invocation inside
    rcases List.mem_append.1 inside with earlier | isNew
    · exact Or.inl earlier
    · exact Or.inr (congrArg Invocation.call (List.mem_singleton.1 isNew))
  unfold Call.move at moved
  cases phase : c.phase <;> rw [phase] at moved <;> dsimp only at moved
  case adder flight => split at moved <;> cases moved <;> exact added c.adder flight
  case done result => cases moved
  all_goals
    first
    | cases moved; exact fun _ => Or.inl
    | split at moved <;> cases moved <;> exact fun _ => Or.inl

/-- The adders that have run are those of calls. -/
def Called (count : Nat) (s : MemoryCache Value Err) : Prop :=
  ∀ invocation ∈ s.invocations, invocation.call < count

/-- The invariant of all schedules. -/
theorem invariant (slot : Slot Value) (fresh : slot.stale = false) :
    (getOrInsertE slot : System (MemoryCache Value Err) _ _ _ _).Invariant
      (fun count s => Sound slot s ∧ Called count s) Own where
  initially := by
    refine ⟨?_, fun _ impossible => by cases impossible⟩
    exact
      { running := fun _ impossible => by cases impossible
        ended := fun _ _ impossible => by cases impossible
        idle := fun _ => rfl
        fresh := fresh
        kept := fun _ found => ⟨found, rfl⟩
        source := fun _ found => Or.inl found
        successes := fun _ impossible => by cases impossible
        unique := Nat.zero_le _
        once := List.nodup_nil
        known := fun _ impossible => by cases impossible
        results := fun _ _ _ impossible => by cases impossible
        stored := fun _ impossible => by cases impossible }
  begins _ _ _ holds :=
    ⟨⟨holds.1, fun invocation inside => Nat.lt_succ_of_lt (holds.2 invocation inside)⟩, rfl⟩
  moves _ _ _ _ _ _ _ inside holds own moved := by
    obtain ⟨sound, mine, _⟩ := holds.1.move own moved
    refine ⟨⟨sound, fun invocation ran => ?_⟩, mine⟩
    rcases Call.move_invocations moved invocation ran with earlier | isMine
    · exact holds.2 invocation earlier
    · rw [isMine]
      exact inside
  interferes _ _ _ _ _ _ _ _ _ differ holds own ownOther moved :=
    holds.1.interferes own differ ownOther moved
  events _ _ s after holds changed := by
    cases changed
    exact ⟨⟨holds.1.clean, holds.2⟩, fun _ _ own => holds.1.own_clean own⟩

end Steps

end FluffyCore.Cache
