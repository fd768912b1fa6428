import FluffyCore.Library.LastWrites
import Mathlib.Data.List.Induction

/-!
# Interleaved calls on a shared state

Any number of calls run on one shared state. Each call has a local state of its own and
moves in atomic steps; a step that has to wait, for a lock say, is not possible yet. Between
the steps of calls the surroundings may change the shared state. A schedule lists who moves.

The invariant rule is that of Owicki and Gries: a property of the shared state and one of
each call hold in every schedule if each step keeps the first and the second of its own
call, and does not interfere with the second of any other call.
-/

namespace FluffyCore.Library.Interleaving

universe u₁ u₂ u₃ u₄ u₅

/-- A shared state with the program of its calls. A choice resolves what a step does not
determine, an event is a step of the surroundings. -/
structure System (Shared : Type u₁) (Local : Type u₂) (Argument : Type u₃) (Choice : Type u₄)
    (Event : Type u₅) where
  initial : Shared
  begin : Argument → Local
  move : Choice → Nat → Shared → Local → Option (Shared × Local)
  event : Event → Shared → Option Shared

/-- The shared state and the calls made so far, in the order they began. -/
structure Config (Shared : Type u₁) (Local : Type u₂) where
  shared : Shared
  calls : List Local

inductive Action (Argument : Type u₃) (Choice : Type u₄) (Event : Type u₅) where
  | call (argument : Argument)
  | move (id : Nat) (choice : Choice)
  | event (event : Event)

variable {Shared : Type u₁} {Local : Type u₂} {Argument : Type u₃} {Choice : Type u₄}
  {Event : Type u₅}

def System.step (system : System Shared Local Argument Choice Event)
    (config : Config Shared Local) : Action Argument Choice Event → Option (Config Shared Local)
  | .call argument => some ⟨config.shared, config.calls ++ [system.begin argument]⟩
  | .move id choice =>
      (config.calls[id]?).bind fun state =>
        (system.move choice id config.shared state).map fun moved =>
          ⟨moved.1, config.calls.set id moved.2⟩
  | .event event => (system.event event config.shared).map fun shared => ⟨shared, config.calls⟩

/-- The configuration after a schedule, if all its steps were possible. -/
def System.run (system : System Shared Local Argument Choice Event)
    (schedule : List (Action Argument Choice Event)) : Option (Config Shared Local) :=
  schedule.foldlM system.step ⟨system.initial, []⟩

/-- The last action of a schedule is taken in the state that the actions before it reach. -/
theorem System.run_append_singleton (system : System Shared Local Argument Choice Event)
    (schedule : List (Action Argument Choice Event)) (action : Action Argument Choice Event) :
    system.run (schedule ++ [action]) =
      (system.run schedule).bind fun config => system.step config action := by
  simp only [System.run, List.foldlM_append, List.foldlM_cons, List.foldlM_nil, bind_pure]
  rfl

/-- What is to be shown of the steps. The property of the shared state may mention the number
of calls made so far, which is the name of the next one. -/
structure System.Invariant (system : System Shared Local Argument Choice Event)
    (shared : Nat → Shared → Prop) (own : Nat → Shared → Local → Prop) : Prop where
  initially : shared 0 system.initial
  begins : ∀ argument count s, shared count s →
    shared (count + 1) s ∧ own count s (system.begin argument)
  moves : ∀ choice count id s state s' state', id < count → shared count s → own id s state →
    system.move choice id s state = some (s', state') → shared count s' ∧ own id s' state'
  interferes : ∀ choice count id s state s' state' other bystander, other ≠ id →
    shared count s → own id s state → own other s bystander →
    system.move choice id s state = some (s', state') → own other s' bystander
  events : ∀ event count s s', shared count s → system.event event s = some s' →
    shared count s' ∧ ∀ id state, own id s state → own id s' state

/-- The invariant of a configuration: the property of the shared state, and that of every
call. -/
def Config.Satisfies (shared : Nat → Shared → Prop) (own : Nat → Shared → Local → Prop)
    (config : Config Shared Local) : Prop :=
  shared config.calls.length config.shared ∧
    ∀ id state, config.calls[id]? = some state → own id config.shared state

/-- One step keeps the invariant. -/
theorem System.Invariant.step {system : System Shared Local Argument Choice Event}
    {shared : Nat → Shared → Prop} {own : Nat → Shared → Local → Prop}
    (invariant : system.Invariant shared own) (config after : Config Shared Local)
    (action : Action Argument Choice Event) (holds : config.Satisfies shared own)
    (taken : system.step config action = some after) : after.Satisfies shared own := by
  obtain ⟨sharedHolds, ownHolds⟩ := holds
  cases action with
  | call argument =>
    obtain rfl := Option.some.inj taken
    obtain ⟨sharedAfter, ownNew⟩ := invariant.begins argument _ _ sharedHolds
    refine ⟨by simpa using sharedAfter, fun id state found => ?_⟩
    rcases Nat.lt_trichotomy id config.calls.length with earlier | isNew | beyond
    · rw [List.getElem?_append_left earlier] at found
      exact ownHolds id state found
    · subst isNew
      obtain rfl : system.begin argument = state := by simpa using found
      exact ownNew
    · rw [List.getElem?_eq_none (by simp; omega)] at found
      cases found
  | move id choice =>
    obtain ⟨state, isState, moved⟩ := Option.bind_eq_some_iff.1 taken
    obtain ⟨⟨s', state'⟩, isMove, rfl⟩ := Option.map_eq_some_iff.1 moved
    have inside : id < config.calls.length := (List.getElem?_eq_some_iff.1 isState).1
    have mine := ownHolds id state isState
    obtain ⟨sharedAfter, ownAfter⟩ :=
      invariant.moves choice _ id _ state s' state' inside sharedHolds mine isMove
    refine ⟨by simpa using sharedAfter, fun other bystander found => ?_⟩
    by_cases same : other = id
    · subst other
      obtain rfl : state' = bystander := by
        simpa [List.getElem?_set_self inside] using found
      exact ownAfter
    · have unchanged : config.calls[other]? = some bystander := by
        simpa [List.getElem?_set_ne (Ne.symm same)] using found
      exact invariant.interferes choice _ id _ state s' state' other bystander same sharedHolds mine
        (ownHolds other bystander unchanged) isMove
  | event event =>
    obtain ⟨s', changed, rfl⟩ := Option.map_eq_some_iff.1 taken
    obtain ⟨sharedAfter, ownAfter⟩ := invariant.events event _ _ s' sharedHolds changed
    exact ⟨sharedAfter, fun id state found => ownAfter id state (ownHolds id state found)⟩

/-- Every schedule keeps the invariant. -/
theorem System.Invariant.run {system : System Shared Local Argument Choice Event}
    {shared : Nat → Shared → Prop} {own : Nat → Shared → Local → Prop}
    (invariant : system.Invariant shared own) (schedule : List (Action Argument Choice Event))
    (config : Config Shared Local) (ran : system.run schedule = some config) :
    config.Satisfies shared own := by
  induction schedule using List.reverseRecOn generalizing config with
  | nil =>
    obtain rfl := Option.some.inj ran
    exact ⟨invariant.initially, fun id state found => by simp at found⟩
  | append_singleton before action inductionHypothesis =>
    rw [System.run_append_singleton] at ran
    obtain ⟨reached, earlier, taken⟩ := Option.bind_eq_some_iff.1 ran
    exact invariant.step reached config action (inductionHypothesis reached earlier) taken

/-- What is to be shown of the steps if another invariant is known already. -/
structure System.InvariantGiven (system : System Shared Local Argument Choice Event)
    (known : Nat → Shared → Prop) (knownOwn : Nat → Shared → Local → Prop)
    (shared : Nat → Shared → Prop) (own : Nat → Shared → Local → Prop) : Prop where
  initially : shared 0 system.initial
  begins : ∀ argument count s, known count s → shared count s →
    shared (count + 1) s ∧ own count s (system.begin argument)
  moves : ∀ choice count id s state s' state', id < count → known count s → knownOwn id s state →
    shared count s → own id s state → system.move choice id s state = some (s', state') →
    shared count s' ∧ own id s' state'
  interferes : ∀ choice count id s state s' state' other bystander, other ≠ id →
    known count s → knownOwn id s state → knownOwn other s bystander →
    shared count s → own id s state → own other s bystander →
    system.move choice id s state = some (s', state') → own other s' bystander
  events : ∀ event count s s', known count s → shared count s → system.event event s = some s' →
    shared count s' ∧ ∀ id state, knownOwn id s state → own id s state → own id s' state

/-- An invariant and one that rests on it. -/
theorem System.Invariant.and {system : System Shared Local Argument Choice Event}
    {known shared : Nat → Shared → Prop} {knownOwn own : Nat → Shared → Local → Prop}
    (base : system.Invariant known knownOwn)
    (given : system.InvariantGiven known knownOwn shared own) :
    system.Invariant (fun count s => known count s ∧ shared count s)
      (fun id s state => knownOwn id s state ∧ own id s state) where
  initially := ⟨base.initially, given.initially⟩
  begins argument count s holds := by
    obtain ⟨knownAfter, knownNew⟩ := base.begins argument count s holds.1
    obtain ⟨sharedAfter, ownNew⟩ := given.begins argument count s holds.1 holds.2
    exact ⟨⟨knownAfter, sharedAfter⟩, knownNew, ownNew⟩
  moves choice count id s state s' state' made holds mine moved := by
    obtain ⟨knownAfter, knownOwnAfter⟩ :=
      base.moves choice count id s state s' state' made holds.1 mine.1 moved
    obtain ⟨sharedAfter, ownAfter⟩ :=
      given.moves choice count id s state s' state' made holds.1 mine.1 holds.2 mine.2 moved
    exact ⟨⟨knownAfter, sharedAfter⟩, knownOwnAfter, ownAfter⟩
  interferes choice count id s state s' state' other bystander different holds mine theirs moved :=
    ⟨base.interferes choice count id s state s' state' other bystander different holds.1 mine.1
        theirs.1 moved,
      given.interferes choice count id s state s' state' other bystander different holds.1 mine.1
        theirs.1 holds.2 mine.2 theirs.2 moved⟩
  events event count s s' holds changed := by
    obtain ⟨knownAfter, knownOwnAfter⟩ := base.events event count s s' holds.1 changed
    obtain ⟨sharedAfter, ownAfter⟩ := given.events event count s s' holds.1 holds.2 changed
    exact ⟨⟨knownAfter, sharedAfter⟩, fun id state mine =>
      ⟨knownOwnAfter id state mine.1, ownAfter id state mine.1 mine.2⟩⟩

/-- What every step keeps still holds later in a schedule. -/
theorem System.run_keeps (system : System Shared Local Argument Choice Event)
    (property : Config Shared Local → Prop)
    (kept : ∀ config after action, property config → system.step config action = some after →
      property after)
    (before later : List (Action Argument Choice Event)) (start config : Config Shared Local)
    (reached : system.run before = some start) (holds : property start)
    (ran : system.run (before ++ later) = some config) : property config := by
  induction later using List.reverseRecOn generalizing config with
  | nil =>
    rw [List.append_nil, reached] at ran
    obtain rfl := Option.some.inj ran
    exact holds
  | append_singleton later action inductionHypothesis =>
    rw [← List.append_assoc, System.run_append_singleton] at ran
    obtain ⟨previous, earlier, taken⟩ := Option.bind_eq_some_iff.1 ran
    exact kept previous config action (inductionHypothesis previous earlier) taken

section Guarded

variable (system : System Shared Local Argument Choice Event) (guard : Shared → Local → Bool)

/-- The system without the moves that a guard forbids. -/
def System.guarded : System Shared Local Argument Choice Event :=
  { system with
    move := fun choice id s state =>
      if guard s state then system.move choice id s state else none }

/-- The guard allows an action. -/
def Config.Meets (config : Config Shared Local) : Action Argument Choice Event → Prop
  | .move id _ => ∀ state, config.calls[id]? = some state → guard config.shared state = true
  | _ => True

/-- The guard allows every action of a schedule. -/
def System.AllMeet (schedule : List (Action Argument Choice Event)) : Prop :=
  ∀ before action after config, schedule = before ++ action :: after →
    system.run before = some config → config.Meets guard action

/-- The guard makes no difference to a step that it allows. -/
theorem System.step_guarded (config : Config Shared Local)
    (action : Action Argument Choice Event) (meets : config.Meets guard action) :
    (system.guarded guard).step config action = system.step config action := by
  cases action with
  | call argument => rfl
  | event event => rfl
  | move id choice =>
    simp only [System.step]
    cases found : config.calls[id]? with
    | none => rfl
    | some state => simp [System.guarded, meets state found]

/-- The guard makes no difference to a schedule that it allows. -/
theorem System.run_guarded (schedule : List (Action Argument Choice Event))
    (meets : system.AllMeet guard schedule) :
    (system.guarded guard).run schedule = system.run schedule := by
  induction schedule using List.reverseRecOn with
  | nil => rfl
  | append_singleton before action inductionHypothesis =>
    have earlier : system.AllMeet guard before := by
      rintro first next rest config rfl reached
      exact meets first next (rest ++ [action]) config (by simp) reached
    rw [System.run_append_singleton, System.run_append_singleton, inductionHypothesis earlier]
    cases reached : system.run before with
    | none => rfl
    | some config =>
      exact System.step_guarded system guard config action
        (meets before action [] config rfl reached)

/-- A schedule goes on to meet the guard when its last action does. -/
theorem System.allMeet_append_singleton (schedule : List (Action Argument Choice Event))
    (last : Action Argument Choice Event) (config : Config Shared Local)
    (ran : system.run schedule = some config) (meets : system.AllMeet guard schedule)
    (allowed : config.Meets guard last) : system.AllMeet guard (schedule ++ [last]) := by
  intro before action after reached isSchedule isReached
  rcases (LastWrites.append_singleton_eq_append_cons_iff _ _ _ _ _).1 isSchedule with
    ⟨rfl, rfl, rfl⟩ | ⟨between, rfl, rfl⟩
  · obtain rfl := Option.some.inj (ran.symm.trans isReached)
    exact allowed
  · exact meets before action between reached rfl isReached

/-- The guard allows every action of a schedule that is possible under it. -/
theorem System.allMeet_of_guarded (schedule : List (Action Argument Choice Event))
    (config : Config Shared Local) (ran : (system.guarded guard).run schedule = some config) :
    system.AllMeet guard schedule := by
  induction schedule using List.reverseRecOn generalizing config with
  | nil =>
    intro before action after _ isEmpty
    simp at isEmpty
  | append_singleton schedule last inductionHypothesis =>
    rw [System.run_append_singleton] at ran
    obtain ⟨reached, earlier, taken⟩ := Option.bind_eq_some_iff.1 ran
    have meets := inductionHypothesis reached earlier
    rw [System.run_guarded system guard schedule meets] at earlier
    refine System.allMeet_append_singleton system guard schedule last reached earlier meets ?_
    cases last with
    | call argument => trivial
    | event event => trivial
    | move id choice =>
      intro state found
      by_contra forbidden
      simp [System.step, System.guarded, found, forbidden] at taken

end Guarded

section Alone

variable (system : System Shared Local Argument Choice Event)

/-- The moves of one call, with nothing in between. -/
def System.alone (id : Nat) (choices : List Choice) (start : Shared × Local) :
    Option (Shared × Local) :=
  choices.foldlM (fun current choice => system.move choice id current.1 current.2) start

/-- A call that is made in a configuration and runs alone. -/
def System.runCall (config : Config Shared Local) (argument : Argument) (choices : List Choice) :
    Option (Config Shared Local) :=
  (Action.call argument :: choices.map (Action.move config.calls.length)).foldlM system.step config

/-- A call that runs alone changes the shared state and its own local state only. -/
theorem System.runCall_eq (config : Config Shared Local) (argument : Argument)
    (choices : List Choice) :
    system.runCall config argument choices =
      (system.alone config.calls.length choices (config.shared, system.begin argument)).map
        fun after => ⟨after.1, config.calls ++ [after.2]⟩ := by
  have moves (s : Shared) (state : Local) :
      (choices.map (Action.move config.calls.length)).foldlM system.step
          ⟨s, config.calls ++ [state]⟩ =
        (system.alone config.calls.length choices (s, state)).map
          fun after => ⟨after.1, config.calls ++ [after.2]⟩ := by
    induction choices generalizing s state with
    | nil => rfl
    | cons choice choices inductionHypothesis =>
      simp only [System.alone, List.map_cons, List.foldlM_cons, System.step]
      simp only [List.getElem?_concat_length, Option.bind_some]
      cases moved : system.move choice config.calls.length s state with
      | none => rfl
      | some after =>
        simpa [System.alone] using inductionHypothesis after.1 after.2
  exact moves config.shared (system.begin argument)

/-- What each move of a call keeps holds when it has run alone. -/
theorem System.alone_keeps (id : Nat) (property : Shared → Local → Prop)
    (kept : ∀ choice s state s' state', property s state →
      system.move choice id s state = some (s', state') → property s' state')
    (choices : List Choice) (start after : Shared × Local) (holds : property start.1 start.2)
    (ran : system.alone id choices start = some after) : property after.1 after.2 := by
  induction choices generalizing start with
  | nil =>
    obtain rfl := Option.some.inj ran
    exact holds
  | cons choice choices inductionHypothesis =>
    obtain ⟨next, moved, later⟩ := Option.bind_eq_some_iff.1 ran
    exact inductionHypothesis next (kept choice _ _ next.1 next.2 holds moved) later

/-- A call that can reach a state by its own moves. -/
def System.Reaches (id : Nat) (start : Shared × Local) (goal : Local → Prop) : Prop :=
  ∃ choices after, system.alone id choices start = some after ∧ goal after.2

/-- A call that is in a state of the goal has reached it. -/
theorem System.reaches_of_goal (id : Nat) (start : Shared × Local) (goal : Local → Prop)
    (reached : goal start.2) : system.Reaches id start goal :=
  ⟨[], start, rfl, reached⟩

/-- A call reaches what it reaches after one of its moves. -/
theorem System.Reaches.step {system : System Shared Local Argument Choice Event} {id : Nat}
    {start next : Shared × Local} {goal : Local → Prop} (choice : Choice)
    (moved : system.move choice id start.1 start.2 = some next)
    (reaches : system.Reaches id next goal) : system.Reaches id start goal := by
  obtain ⟨choices, after, ran, reached⟩ := reaches
  refine ⟨choice :: choices, after, ?_, reached⟩
  simpa [System.alone, moved] using ran

end Alone

end FluffyCore.Library.Interleaving
