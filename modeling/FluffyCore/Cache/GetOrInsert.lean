import FluffyCore.Cache.SingleFill

/-!
# What callers of `GetOrInsertE` see

Over all schedules of calls on one key: one adder at most succeeds, its value is what every
call returns that does not fail, and a failure concerns the calls of its flight only.
-/

namespace FluffyCore.Cache

open Library.Interleaving

variable {Value Err : Type} {slot : Slot Value}

/-- The invariant of a configuration. -/
abbrev Holds (slot : Slot Value) (config : Config (MemoryCache Value Err) (Call Value Err)) :
    Prop :=
  config.Satisfies (fun count s => Sound slot s ∧ Called count s) Own

section Returned

variable {config : Config (MemoryCache Value Err) (Call Value Err)} {id : Nat}
  {c : Call Value Err}

/-- A call that has returned found a value with its first lookup, or has the result of its
flight. -/
theorem Holds.finished (holds : Holds slot config) (isCall : config.calls[id]? = some c)
    {result : Except Err Value} (finished : c.phase = .done result) :
    (c.flight = none ∧ ∃ value, result = .ok value ∧ config.shared.slot.value = some value) ∨
      ∃ flight leader, c.flight = some flight ∧
        config.shared.flights[flight]? = some ⟨leader, some result⟩ := by
  have own := holds.2 id c isCall
  rw [Own, finished] at own
  exact own

/-- A value that was returned is stored. -/
theorem Holds.returned (holds : Holds slot config) (isCall : config.calls[id]? = some c)
    {value : Value} (finished : c.phase = .done (.ok value)) :
    config.shared.slot.value = some value := by
  rcases holds.finished isCall finished with ⟨_, _, same, found⟩ | ⟨flight, leader, _, ended⟩
  · cases same
    exact found
  · exact (holds.1.1.results flight leader _ ended).1

/-- The result of a flight is that of the adder that ran in it. -/
theorem Sound.outcome_eq {s : MemoryCache Value Err} (sound : Sound slot s)
    {invocation : Invocation Value Err} (inside : invocation ∈ s.invocations) {leader : Nat}
    {result : Except Err Value}
    (ended : s.flights[invocation.flight]? = some ⟨leader, some result⟩) :
    invocation.outcome = result := by
  have explained := sound.results invocation.flight leader result ended
  cases result with
  | ok value => exact explained.2 invocation inside rfl
  | error err =>
    obtain ⟨call, invoked⟩ := explained
    rw [sound.same_run inside invoked rfl]

/-- While all adders have failed, nothing is stored that was not there from the start. -/
theorem Sound.value_eq_none {s : MemoryCache Value Err} (sound : Sound slot s)
    (absent : slot.value = none)
    (failures : ∀ invocation ∈ s.invocations, ∃ err, invocation.outcome = .error err) :
    s.slot.value = none := by
  rw [Option.eq_none_iff_forall_ne_some]
  intro value found
  rcases sound.source value found with initially | ⟨invocation, inside, succeeded⟩
  · rw [absent] at initially
    cases initially
  · obtain ⟨err, failed⟩ := failures invocation inside
    rw [failed] at succeeded
    cases succeeded

end Returned

section Later

variable {value : Value} {count : Nat}

/-- Calls from a given one on find a value with their first lookup. -/
structure Late (slot : Slot Value) (value : Value) (count : Nat)
    (config : Config (MemoryCache Value Err) (Call Value Err)) : Prop where
  holds : Holds slot config
  found : config.shared.slot.value = some value
  begun : count ≤ config.calls.length
  phases : ∀ (id : Nat) c, count ≤ id → config.calls[id]? = some c →
    c.phase = .get ∨ c.phase = .done (.ok value)
  invocations : ∀ invocation ∈ config.shared.invocations, invocation.call < count

/-- A call that begins while a value is there returns it. -/
theorem move_get {s : MemoryCache Value Err} {c : Call Value Err} {id : Nat}
    (found : s.slot.value = some value) (atGet : c.phase = .get) :
    c.move id s = some (s, { c with phase := .done (.ok value) }) := by
  simp only [Call.move, atGet, value_eq_some_iff.1 found]

/-- The only step of a later call is its lookup. -/
theorem Late.moved {config : Config (MemoryCache Value Err) (Call Value Err)} {id : Nat}
    {c next : Call Value Err} {s : MemoryCache Value Err} (late : Late slot value count config)
    (later : count ≤ id) (isCall : config.calls[id]? = some c)
    (isMove : c.move id config.shared = some (s, next)) :
    s = config.shared ∧ next.phase = .done (.ok value) := by
  rcases late.phases id c later isCall with atGet | finished
  · rw [move_get late.found atGet] at isMove
    cases isMove
    exact ⟨rfl, rfl⟩
  · rw [Call.move, finished] at isMove
    cases isMove

/-- Once a value is there, no later call runs its adder, whatever step is taken. -/
theorem Late.step (fresh : slot.stale = false)
    {config after : Config (MemoryCache Value Err) (Call Value Err)}
    (action : Action (Except Err Value) Unit Unit) (late : Late slot value count config)
    (taken : (getOrInsertE slot).step config action = some after) :
    Late slot value count after := by
  have holds := (invariant slot fresh).step config after action late.holds taken
  cases action with
  | call adder =>
    obtain rfl := Option.some.inj taken
    refine ⟨holds, late.found, by simpa using Nat.le_succ_of_le late.begun, ?_, late.invocations⟩
    intro id c later present
    rcases Nat.lt_trichotomy id config.calls.length with earlier | isNew | beyond
    · rw [List.getElem?_append_left earlier] at present
      exact late.phases id c later present
    · subst isNew
      rw [List.getElem?_concat_length] at present
      cases present
      exact Or.inl rfl
    · rw [List.getElem?_eq_none (by simp; omega)] at present
      cases present
  | move id choice =>
    obtain ⟨c, isCall, moved⟩ := Option.bind_eq_some_iff.1 taken
    obtain ⟨⟨s, next⟩, isMove, rfl⟩ := Option.map_eq_some_iff.1 moved
    have inside : id < config.calls.length := (List.getElem?_eq_some_iff.1 isCall).1
    have own := late.holds.2 id c isCall
    have grows := (late.holds.1.1.move own isMove).2.2
    refine ⟨holds, grows.value value late.found, ?_, ?_, ?_⟩
    · rw [List.length_set]
      exact late.begun
    · intro other bystander later present
      by_cases same : id = other
      · subst same
        rw [List.getElem?_set_self inside] at present
        cases present
        exact Or.inr (late.moved later isCall isMove).2
      · rw [List.getElem?_set_ne same] at present
        exact late.phases other bystander later present
    · intro invocation ran
      rcases Call.move_invocations isMove invocation ran with earlier | isMine
      · exact late.invocations invocation earlier
      · rw [isMine]
        by_contra later
        obtain ⟨rfl, _⟩ := late.moved (Nat.not_lt.1 later) isCall isMove
        exact later (isMine ▸ late.invocations invocation ran)
  | event event =>
    obtain rfl := Option.some.inj taken
    refine ⟨holds, ?_, late.begun, late.phases, late.invocations⟩
    rw [value_clean late.holds.1.1.fresh]
    exact late.found

/-- No call has begun since a value was found. -/
theorem Holds.late {config : Config (MemoryCache Value Err) (Call Value Err)}
    (holds : Holds slot config) (found : config.shared.slot.value = some value) :
    Late slot value config.calls.length config := by
  refine ⟨holds, found, Nat.le_refl _, ?_, holds.1.2⟩
  intro id c beyond present
  rw [List.getElem?_eq_none beyond] at present
  cases present

end Later

section Again

variable {s : MemoryCache Value Err}

/-- A call that runs alone while nothing is stored runs its adder and returns what that does. -/
theorem alone_runs_adder (slot : Slot Value) (empty : s.slot.value = none)
    (idle : s.current = none) (id : Nat) (adder : Except Err Value) :
    ∃ choices after, (getOrInsertE slot).alone id choices (s, { adder }) = some after ∧
      after.1.invocations = s.invocations ++ [⟨id, s.flights.length, adder⟩] ∧
      after.2.phase = .done adder := by
  have missed : s.slot.get = none ∨ s.slot.get = some none := by
    cases found : s.slot.get with
    | none => exact Or.inl rfl
    | some data =>
      cases data with
      | none => exact Or.inr rfl
      | some value =>
        rw [value_eq_some_iff.2 found] at empty
        cases empty
  cases adder with
  | error err =>
    refine ⟨List.replicate 5 (), ?_⟩
    rcases missed with missed | missed
    all_goals
      simp [System.alone, getOrInsertE, Call.move, missed, idle, List.replicate]
  | ok obj =>
    rcases missed with missed | missed
    · refine ⟨List.replicate 8 (), ?_⟩
      simp [System.alone, getOrInsertE, Call.move, missed, idle, List.replicate]
    · refine ⟨List.replicate 7 (), ?_⟩
      simp [System.alone, getOrInsertE, Call.move, missed, idle, List.replicate]

end Again

/-- **`GetOrInsertE` fills a key once.** For every schedule of calls on a key, with any adders:
one run of an adder at most succeeds, and a call that does not fail returns its value, or the
one that was there from the start, in which case no adder runs. What is stored stays, and
calls that begin later return it with their first lookup and run no adder. A failed adder
stores nothing. Its error is returned to the calls that shared its flight and to no others,
and a later call runs its adder again. -/
theorem getOrInsertE_fills_once (slot : Slot Value) (fresh : slot.stale = false)
    (schedule : List (Action (Except Err Value) Unit Unit))
    (config : Config (MemoryCache Value Err) (Call Value Err))
    (ran : (getOrInsertE slot).run schedule = some config) :
    (config.shared.invocations.filter fun invocation => invocation.outcome.isOk).length ≤ 1 ∧
    (∀ (id : Nat) c value, config.calls[id]? = some c → c.phase = .done (.ok value) →
      slot.value = some value ∨
        ∃ invocation ∈ config.shared.invocations, invocation.outcome = .ok value) ∧
    (∀ value, slot.value = some value → config.shared.invocations = []) ∧
    (∀ store ∈ config.shared.stores, config.shared.slot.value = some store.2) ∧
    (∀ value, config.shared.slot.value = some value →
      ∀ later after, (getOrInsertE slot).run (schedule ++ later) = some after →
        after.shared.slot.value = some value ∧
        ∀ (id : Nat) c, config.calls.length ≤ id → after.calls[id]? = some c →
          (∀ invocation ∈ after.shared.invocations, invocation.call ≠ id) ∧
          (c.phase = .done (.ok value) ∨
            c.phase = .get ∧ c.move id after.shared =
              some (after.shared, { c with phase := .done (.ok value) }))) ∧
    (∀ invocation ∈ config.shared.invocations, ∀ err, invocation.outcome = .error err →
      (∀ store ∈ config.shared.stores, store.1 ≠ invocation.flight) ∧
      ∀ (id : Nat) c result, config.calls[id]? = some c → c.phase = .done result →
        c.flight = some invocation.flight → result = .error err) ∧
    (∀ (id : Nat) c err, config.calls[id]? = some c → c.phase = .done (.error err) →
      ∃ invocation ∈ config.shared.invocations, invocation.outcome = .error err ∧
        c.flight = some invocation.flight) ∧
    (slot.value = none → config.shared.current = none →
      (∀ invocation ∈ config.shared.invocations, ∃ err, invocation.outcome = .error err) →
      ∀ adder, ∃ choices after, (getOrInsertE slot).runCall config adder choices = some after ∧
        after.shared.invocations = config.shared.invocations ++
          [⟨config.calls.length, config.shared.flights.length, adder⟩] ∧
        ∃ c, after.calls[config.calls.length]? = some c ∧ c.phase = .done adder) := by
  have holds : Holds slot config := (invariant slot fresh).run schedule config ran
  have sound := holds.1.1
  refine ⟨sound.unique, ?_, fun value there => (sound.kept value there).2,
    fun store inside => (sound.stored store inside).1, ?_, ?_, ?_, ?_⟩
  · intro id c value isCall finished
    exact sound.source value (holds.returned isCall finished)
  · intro value found later after reached
    have lateAfter := (getOrInsertE slot).run_keeps (Late slot value config.calls.length)
      (fun _ _ action late taken => late.step fresh action taken) schedule later config after
      ran (holds.late found) reached
    refine ⟨lateAfter.found, fun id c beyond present => ⟨?_, ?_⟩⟩
    · intro invocation inside same
      exact Nat.not_lt.2 beyond (same ▸ lateAfter.invocations invocation inside)
    · rcases lateAfter.phases id c beyond present with atGet | finished
      · exact Or.inr ⟨atGet, move_get lateAfter.found atGet⟩
      · exact Or.inl finished
  · intro invocation inside err failed
    constructor
    · intro store stored same
      obtain ⟨_, call, invoked⟩ := sound.stored store stored
      rw [sound.same_run inside invoked same.symm] at failed
      cases failed
    · intro id c result isCall finished shared
      rcases holds.finished isCall finished with ⟨alone, _⟩ | ⟨flight, leader, joined, ended⟩
      · rw [alone] at shared
        cases shared
      · obtain rfl : flight = invocation.flight := Option.some.inj (joined.symm.trans shared)
        rw [← sound.outcome_eq inside ended]
        exact failed
  · intro id c err isCall finished
    rcases holds.finished isCall finished with
      ⟨_, value, impossible, _⟩ | ⟨flight, leader, joined, ended⟩
    · cases impossible
    · obtain ⟨call, invoked⟩ := sound.results flight leader _ ended
      exact ⟨_, invoked, rfl, joined⟩
  · intro absent idle failures adder
    have empty := sound.value_eq_none absent failures
    obtain ⟨choices, ⟨s, c⟩, alone, invoked, finished⟩ :=
      alone_runs_adder slot empty idle config.calls.length adder
    refine ⟨choices, ⟨s, config.calls ++ [c]⟩, ?_, invoked, c, List.getElem?_concat_length,
      finished⟩
    rw [System.runCall_eq]
    have begun : (getOrInsertE slot).alone config.calls.length choices
        (config.shared, (getOrInsertE slot).begin adder) = some (s, c) := alone
    rw [begun]
    rfl

/-- An item that has expired is still in the table. -/
def expiredSlot : Slot Nat := ⟨some ⟨some 3, true⟩, false⟩

/-- Two calls share a flight whose adder fails. A third one fills the key. -/
def refill : List (Action (Except Nat Nat) Unit Unit) :=
  [.call (.error 1), .call (.ok 9), .move 0 (), .move 1 (), .move 0 (), .move 1 (), .move 0 (),
    .move 0 (), .move 0 (), .move 1 (), .call (.ok 7)] ++ List.replicate 8 (.move 2 ()) ++
    [.event ()]

/-- After the failure of the first flight the second one fills the cache, and a later call does
not replace its value. -/
theorem getOrInsertE_fills_once_refill :
    ∃ config, (getOrInsertE expiredSlot).run refill = some config ∧
      config.shared.invocations.map (fun invocation => (invocation.call, invocation.flight)) =
        [(0, 0), (2, 1)] ∧
      (config.shared.invocations.filter fun invocation => invocation.outcome.isOk).length ≤ 1 ∧
      config.shared.slot.value = some 7 ∧
      ∀ after, (getOrInsertE expiredSlot).run (refill ++ [.call (.ok 8), .move 3 ()]) = some after →
        after.shared.slot.value = some 7 := by
  refine ⟨_, rfl, rfl, ?_, rfl, ?_⟩
  · exact (getOrInsertE_fills_once expiredSlot rfl refill _ rfl).1
  · intro after ran
    obtain ⟨_, _, _, _, later, _⟩ := getOrInsertE_fills_once expiredSlot rfl refill _ rfl
    exact (later 7 rfl _ after ran).1

end FluffyCore.Cache
