import Mathlib.Data.Fintype.Card
import Mathlib.Data.Fintype.EquivFin
import Mathlib.Data.List.Nodup
import Mathlib.Logic.Function.Basic
import Mathlib.Logic.Relation
import Mathlib.Order.WellFounded

/-!
# Mutexes and their holders

Mutexes that are not reentrant, held by numbered calls. A call takes a free mutex and later
gives back the one it took last. The table of owners and what each call believes to hold then
agree in every schedule.

A call can also wait for a call that it has made itself. If all calls take mutexes in an order,
then as long as a call has not returned, some call can go on, or calls wait for each other in a
circle in which one of them waits for a call that it has made.
-/

namespace FluffyCore.Library.Mutexes

open Relation

universe u

variable {Mutex : Type u}

/-- What a call holds according to the table of owners. It holds no mutex twice. -/
structure Owns (lockers : Mutex → Option Nat) (id : Nat) (held : List Mutex) : Prop where
  iff : ∀ m, lockers m = some id ↔ m ∈ held
  nodup : held.Nodup

section Steps

variable [DecidableEq Mutex]

/-- What a step of a call does to the table and to what the call holds. -/
inductive Step (id : Nat) (lockers : Mutex → Option Nat) (held : List Mutex) :
    (Mutex → Option Nat) → List Mutex → Prop where
  | keep : Step id lockers held lockers held
  | acquire (m : Mutex) (free : lockers m = none) :
      Step id lockers held (Function.update lockers m (some id)) (m :: held)
  | release (m : Mutex) (rest : List Mutex) (top : held = m :: rest) :
      Step id lockers held (Function.update lockers m none) rest

variable {lockers lockers' : Mutex → Option Nat} {id : Nat} {held held' : List Mutex}

/-- The call that moves still owns what it holds. -/
theorem Owns.step (owns : Owns lockers id held) (step : Step id lockers held lockers' held') :
    Owns lockers' id held' := by
  cases step with
  | keep => exact owns
  | acquire m free =>
    have absent : m ∉ held := fun inside => by simp [(owns.iff m).2 inside] at free
    refine ⟨fun other => ?_, List.nodup_cons.2 ⟨absent, owns.nodup⟩⟩
    by_cases same : other = m
    · simp [same]
    · simp [same, owns.iff other]
  | release m _ top =>
    subst top
    obtain ⟨absent, nodup⟩ := List.nodup_cons.1 owns.nodup
    refine ⟨fun other => ?_, nodup⟩
    by_cases same : other = m
    · simp [same, absent]
    · simp [same, owns.iff other]

/-- The other calls are not concerned. -/
theorem Owns.bystander {other : Nat} {theirs : List Mutex} (owns : Owns lockers id held)
    (bystander : Owns lockers other theirs) (different : other ≠ id)
    (step : Step id lockers held lockers' held') : Owns lockers' other theirs := by
  cases step with
  | keep => exact bystander
  | acquire m free =>
    refine ⟨fun name => ?_, bystander.nodup⟩
    by_cases same : name = m
    · have absent : m ∉ theirs := fun inside => by simp [(bystander.iff m).2 inside] at free
      simp [same, absent, Ne.symm different]
    · simp [same, bystander.iff name]
  | release m _ top =>
    subst top
    refine ⟨fun name => ?_, bystander.nodup⟩
    by_cases same : name = m
    · have mine := (owns.iff m).2 List.mem_cons_self
      have absent : m ∉ theirs := fun inside => by
        rw [(bystander.iff m).2 inside] at mine
        exact different (Option.some.inj mine)
      simp [same, absent]
    · simp [same, bystander.iff name]

/-- An owner is one of the calls made so far. -/
theorem Step.owner {count : Nat} (made : id < count)
    (owners : ∀ m owner, lockers m = some owner → owner < count)
    (step : Step id lockers held lockers' held') (m : Mutex) (owner : Nat)
    (owned : lockers' m = some owner) : owner < count := by
  cases step with
  | keep => exact owners m owner owned
  | acquire name free =>
    by_cases same : m = name
    · obtain rfl : id = owner := by simpa [same] using owned
      exact made
    · rw [Function.update_of_ne same] at owned
      exact owners m owner owned
  | release name _ _ =>
    by_cases same : m = name
    · simp [same] at owned
    · rw [Function.update_of_ne same] at owned
      exact owners m owner owned

end Steps

section Waiting

variable (lockers : Mutex → Option Nat) (waits : Nat → Option Mutex) (inner : Nat → Option Nat)
  (unfinished : Nat → Prop)

/-- A call waits for another one: it waits for a mutex that the other one owns, or it has made
the other one itself and goes on when that has returned. -/
inductive WaitsFor (id other : Nat) : Prop where
  | mutex (m : Mutex) (waiting : waits id = some m) (owner : lockers m = some other)
  | inner (made : inner id = some other) (unfinished : unfinished other)

variable {lockers waits inner unfinished} {held : Nat → List Mutex}
  {before : Mutex → Mutex → Prop}

/-- If every call waits for a mutex that comes before all those it holds, then whoever waits for
a mutex waits in the end for a call that does not wait for a mutex that is taken.

The proof follows the owner of the mutex that is waited for, by induction on the mutex. -/
theorem exists_unblocked (wellFounded : WellFounded before)
    (owned : ∀ m owner, lockers m = some owner → m ∈ held owner)
    (ordered : ∀ id m, waits id = some m → lockers m ≠ none → ∀ other ∈ held id, before m other)
    (start : Nat) :
    ∃ id, ReflTransGen (WaitsFor lockers waits inner unfinished) start id ∧
      (id = start ∨ held id ≠ []) ∧ ∀ m, waits id = some m → lockers m = none := by
  by_cases blocked : ∃ m, waits start = some m ∧ lockers m ≠ none
  case neg =>
    refine ⟨start, .refl, .inl rfl, fun m waiting => ?_⟩
    by_contra taken
    exact blocked ⟨m, waiting, taken⟩
  case pos =>
    obtain ⟨m, waiting, taken⟩ := blocked
    induction m using wellFounded.induction generalizing start with
    | _ m inductionHypothesis =>
      obtain ⟨owner, isOwner⟩ := Option.ne_none_iff_exists'.1 taken
      have holds := owned m owner isOwner
      by_cases next : ∃ n, waits owner = some n ∧ lockers n ≠ none
      · obtain ⟨n, alsoWaiting, alsoTaken⟩ := next
        obtain ⟨id, path, holder, free⟩ := inductionHypothesis n
          (ordered owner n alsoWaiting alsoTaken m holds) owner alsoWaiting alsoTaken
        refine ⟨id, .head (.mutex m waiting isOwner) path, .inr ?_, free⟩
        rcases holder with rfl | holder
        · exact List.ne_nil_of_mem holds
        · exact holder
      · refine ⟨owner, .single (.mutex m waiting isOwner), .inr (List.ne_nil_of_mem holds),
          fun n alsoWaiting => ?_⟩
        by_contra alsoTaken
        exact next ⟨n, alsoWaiting, alsoTaken⟩

/-- If each of finitely many leads to another one, some of them lead around in a circle. -/
theorem exists_circle {α : Type*} [Finite α] [Nonempty α] {next : α → α → Prop}
    (leads : ∀ a, ∃ b, next a b) : ∃ a, TransGen next a a := by
  by_contra straight
  have irreflexive : Std.Irrefl (Function.swap (TransGen next)) :=
    ⟨fun a circle => straight ⟨a, circle⟩⟩
  have transitive : IsTrans α (Function.swap (TransGen next)) :=
    ⟨fun _ _ _ first second => TransGen.trans second first⟩
  have wellFounded := Finite.wellFounded_of_trans_of_irrefl (Function.swap (TransGen next))
  obtain ⟨a, _, last⟩ := wellFounded.has_min Set.univ Set.univ_nonempty
  obtain ⟨b, isNext⟩ := leads a
  exact last b trivial (.single isNext)

/-- Where mutexes are taken in order, a call that has not returned waits in the end for one that
can go on, or there is a circle in which some call waits for a call that it has made. -/
theorem exists_unblocked_or_circle {count : Nat} (wellFounded : WellFounded before)
    (owned : ∀ m owner, lockers m = some owner → m ∈ held owner)
    (ordered : ∀ id m, waits id = some m → lockers m ≠ none → ∀ other ∈ held id, before m other)
    (bounded : ∀ id, unfinished id → id < count)
    (holders : ∀ id, held id ≠ [] → unfinished id) (start : Nat) (begun : unfinished start) :
    (∃ id, unfinished id ∧ (∀ child, inner id = some child → ¬ unfinished child) ∧
        ∀ m, waits id = some m → lockers m = none) ∨
      ∃ parent child, inner parent = some child ∧ unfinished child ∧
        ReflTransGen (WaitsFor lockers waits inner unfinished) child parent := by
  by_contra stuck
  rw [not_or] at stuck
  obtain ⟨idle, straight⟩ := stuck
  -- every call leads to a call that waits for one it has made, and so to that one
  let leads (one other : { id : Nat // unfinished id }) : Prop :=
    ∃ parent, ReflTransGen (WaitsFor lockers waits inner unfinished) one parent ∧
      inner parent = some other.1
  have next (one : { id : Nat // unfinished id }) : ∃ other, leads one other := by
    obtain ⟨parent, path, holder, free⟩ : ∃ id,
        ReflTransGen (WaitsFor lockers waits inner unfinished) one.1 id ∧
          (id = one.1 ∨ held id ≠ []) ∧ ∀ m, waits id = some m → lockers m = none :=
      exists_unblocked wellFounded owned ordered one.1
    have isUnfinished : unfinished parent := by
      rcases holder with rfl | holder
      · exact one.2
      · exact holders parent holder
    have waiting : ∃ child, inner parent = some child ∧ unfinished child := by
      by_contra none
      refine idle ⟨parent, isUnfinished, fun child made undone => none ⟨child, made, undone⟩, free⟩
    obtain ⟨child, made, undone⟩ := waiting
    exact ⟨⟨child, undone⟩, parent, path, made⟩
  have finite : Finite { id : Nat // unfinished id } :=
    Finite.of_injective (fun one => (⟨one.1, bounded one.1 one.2⟩ : Fin count))
      fun one other same =>
      Subtype.ext (Fin.mk.inj same)
  have nonempty : Nonempty { id : Nat // unfinished id } := ⟨⟨start, begun⟩⟩
  obtain ⟨child, circle⟩ := exists_circle next
  obtain ⟨last, path, parent, reaches, made⟩ := TransGen.tail'_iff.1 circle
  have waits {one other : { id : Nat // unfinished id }} (path : ReflTransGen leads one other) :
      ReflTransGen (WaitsFor lockers waits inner unfinished) one other := by
    induction path with
    | refl => exact .refl
    | @tail _ other _ step inductionHypothesis =>
      obtain ⟨parent, reaches, made⟩ := step
      exact (inductionHypothesis.trans reaches).tail (.inner made other.2)
  exact straight ⟨parent, child.1, made, child.2, (waits path).trans reaches⟩

end Waiting

end FluffyCore.Library.Mutexes
