import FluffyCore.Di.Deadlocks
import FluffyCore.Library.Ledgers

/-!
# Every disposable service is disposed once

A scope disposes what it has captured when it is disposed itself, the last one first, and each
once. What it does not take any more is disposed at once. So if all calls have returned and all
scopes in use have been disposed, the services that were disposed are those that were made, each
as often as it was made.
-/

namespace FluffyCore.Di

open Library Library.Interleaving Ledgers

namespace Event

/-- What a call has made that its lifetime says has to be disposed. -/
def made : Event → Option (Nat × Instance)
  | .created id cs _ _ (some d) =>
      if d.disposable && cs.cache.location != .none then some (id, d) else none
  | _ => none

/-- What a call has handed to a scope. -/
def handed : Event → Option (Nat × Instance)
  | .captured id _ d => some (id, d)
  | .refused id _ d => some (id, d)
  | _ => none

/-- What a scope has captured. -/
def capturedIn : Event → Option (Nat × Instance)
  | .captured _ scope d => some (scope, d)
  | _ => none

/-- What a scope has disposed of what it had captured. -/
def closedIn : Event → Option (Nat × Instance)
  | .closed scope d => some (scope, d)
  | _ => none

/-- What was disposed at once. -/
def refusedNow : Event → Option Instance
  | .refused _ _ d => some d
  | _ => none

/-- What was disposed, in either way. -/
def disposal : Event → Option Instance
  | .refused _ _ d => some d
  | .closed _ d => some d
  | _ => none

/-- The call that has done something. -/
def author : Event → Option Nat
  | .created id _ _ _ _ => some id
  | .captured id _ _ => some id
  | .refused id _ _ => some id
  | .swapped id _ => some id
  | .closed _ _ => none

end Event

/-- What a scope has captured so far, in that order. -/
def captured (scope : Nat) (log : List Event) : List Instance :=
  posted Event.capturedIn scope log

/-- What a scope has disposed so far, in that order. -/
def closed (scope : Nat) (log : List Event) : List Instance :=
  posted Event.closedIn scope log

/-- What is captured after one more event. -/
theorem captured_append (scope : Nat) (log : List Event) (event : Event) :
    captured scope (log ++ [event]) =
      captured scope log ++ account scope event.capturedIn.toList :=
  posted_append Event.capturedIn scope log event

/-- What is disposed after one more event. -/
theorem closed_append (scope : Nat) (log : List Event) (event : Event) :
    closed scope (log ++ [event]) = closed scope log ++ account scope event.closedIn.toList :=
  posted_append Event.closedIn scope log event

section Scopes

variable {admits : CallSite → Nat → Bool} {s s' : Engine} {id : Nat}

/-- What holds of the scopes in every schedule. -/
structure Books (count : Nat) (s : Engine) : Prop where
  authors : ∀ event ∈ s.log, ∀ id, event.author = some id → id < count
  cleared : ∀ scope, (s.scopes scope).cleared = true → (s.scopes scope).disposed = true
  kept : ∀ scope, (s.scopes scope).cleared = false →
    (s.scopes scope).disposables = captured scope s.log ∧ closed scope s.log = []
  swapped : ∀ scope, (s.scopes scope).disposed = true ↔ ∃ id, .swapped id scope ∈ s.log
  first : ∀ id id' scope, .swapped id scope ∈ s.log → .swapped id' scope ∈ s.log → id = id'

/-- The books of some calls are those of more calls, since the others have done nothing. -/
theorem Books.mono {count larger : Nat} (books : Books count s) (more : count ≤ larger) :
    Books larger s :=
  ⟨fun event member id author => Nat.lt_of_lt_of_le (books.authors event member id author) more,
    books.cleared, books.kept, books.swapped, books.first⟩

/-- The scopes that a call disposes. -/
def Disposes (id : Nat) (s : Engine) (scopes : Nat → Prop) : Prop :=
  ∀ scope, .swapped id scope ∈ s.log ↔ scopes scope

/-- What holds of a call of `Dispose` in every schedule: it has yet to become the one that
disposes a scope, or it is the one, and it knows what is left to dispose. -/
def Disposal.Owes (id : Nat) (s : Engine) : Disposal → Prop
  | .container => Disposes id s fun _ => False
  | .swap _ => Disposes id s fun _ => False
  | .mark => Disposes id s (· = 0) ∧ (s.scopes 0).cleared = false
  | .take scope => Disposes id s (· = scope) ∧ (s.scopes scope).cleared = false
  | .close scope pending => Disposes id s (· = scope) ∧ (s.scopes scope).cleared = true ∧
      closed scope s.log ++ pending = (captured scope s.log).reverse
  | .finished => ∀ scope, .swapped id scope ∈ s.log → (s.scopes scope).cleared = true ∧
      closed scope s.log = (captured scope s.log).reverse

def Call.Owes (id : Nat) (s : Engine) : Call → Prop
  | .get _ => Disposes id s fun _ => False
  | .dispose d => d.Owes id s

/-- A step does not concern the scopes that a call disposes. -/
structure Untouched (id : Nat) (s s' : Engine) : Prop where
  swapped : ∀ scope, .swapped id scope ∈ s'.log ↔ .swapped id scope ∈ s.log
  scopes : ∀ scope, .swapped id scope ∈ s.log →
    (s'.scopes scope).cleared = (s.scopes scope).cleared ∧
    closed scope s'.log = closed scope s.log ∧ captured scope s'.log = captured scope s.log

/-- Such a step leaves to the call what it has to do. -/
theorem Call.Owes.untouched {call : Call} (owes : call.Owes id s) (untouched : Untouched id s s') :
    call.Owes id s' := by
  have disposes {scopes : Nat → Prop} (holds : Disposes id s scopes) : Disposes id s' scopes :=
    fun scope => (untouched.swapped scope).trans (holds scope)
  cases call with
  | get r => exact disposes owes
  | dispose d =>
    simp only [Call.Owes] at owes ⊢
    cases d <;> simp only [Disposal.Owes] at owes ⊢
    case container => exact disposes owes
    case swap => exact disposes owes
    case mark =>
      obtain ⟨same, _⟩ := untouched.scopes 0 ((owes.1 0).2 rfl)
      exact ⟨disposes owes.1, same.trans owes.2⟩
    case take scope =>
      obtain ⟨same, _⟩ := untouched.scopes scope ((owes.1 scope).2 rfl)
      exact ⟨disposes owes.1, same.trans owes.2⟩
    case close scope pending =>
      obtain ⟨same, sameClosed, sameCaptured⟩ := untouched.scopes scope ((owes.1 scope).2 rfl)
      rw [same, sameClosed, sameCaptured]
      exact ⟨disposes owes.1, owes.2⟩
    case finished =>
      intro scope
      rw [untouched.swapped]
      intro swapped
      obtain ⟨same, sameClosed, sameCaptured⟩ := untouched.scopes scope swapped
      rw [same, sameClosed, sameCaptured]
      exact owes scope swapped

/-- Events that the books of scopes do not mention. -/
def Event.IsQuiet (event : Event) : Prop :=
  event.capturedIn = none ∧ event.closedIn = none ∧ ∀ id scope, event ≠ .swapped id scope

/-- A step that leaves the books of all scopes as they are. -/
structure Quiet (id : Nat) (s s' : Engine) : Prop where
  cleared : ∀ scope, (s'.scopes scope).cleared = (s.scopes scope).cleared
  disposed : ∀ scope, (s'.scopes scope).disposed = (s.scopes scope).disposed
  disposables : ∀ scope, (s'.scopes scope).disposables = (s.scopes scope).disposables
  log : s'.log = s.log ∨
    ∃ event : Event, s'.log = s.log ++ [event] ∧ event.IsQuiet ∧ event.author = some id

namespace Quiet

/-- A quiet step captures nothing. -/
theorem captured_eq (quiet : Quiet id s s') (scope : Nat) :
    captured scope s'.log = captured scope s.log := by
  rcases quiet.log with same | ⟨event, more, isQuiet, _⟩
  · rw [same]
  · rw [more, captured_append, isQuiet.1]
    simp

/-- A quiet step disposes nothing. -/
theorem closed_eq (quiet : Quiet id s s') (scope : Nat) :
    closed scope s'.log = closed scope s.log := by
  rcases quiet.log with same | ⟨event, more, isQuiet, _⟩
  · rw [same]
  · rw [more, closed_append, isQuiet.2.1]
    simp

/-- A quiet step makes no call the one that disposes a scope. -/
theorem swapped_iff (quiet : Quiet id s s') (other scope : Nat) :
    .swapped other scope ∈ s'.log ↔ .swapped other scope ∈ s.log := by
  rcases quiet.log with same | ⟨event, more, isQuiet, _⟩
  · rw [same]
  · rw [more, List.mem_append, List.mem_singleton]
    exact or_iff_left fun same => isQuiet.2.2 other scope same.symm

/-- A quiet step keeps the books. -/
theorem books {count : Nat} (quiet : Quiet id s s') (isCall : id < count) (books : Books count s) :
    Books count s' where
  authors event member author isAuthor := by
    rcases quiet.log with same | ⟨last, more, _, byCall⟩
    · exact books.authors event (same ▸ member) author isAuthor
    · rw [more, List.mem_append, List.mem_singleton] at member
      rcases member with earlier | rfl
      · exact books.authors event earlier author isAuthor
      · obtain rfl := Option.some.inj (byCall.symm.trans isAuthor)
        exact isCall
  cleared scope isCleared := by
    rw [quiet.cleared] at isCleared
    rw [quiet.disposed]
    exact books.cleared scope isCleared
  kept scope uncleared := by
    rw [quiet.cleared] at uncleared
    rw [quiet.disposables, quiet.captured_eq, quiet.closed_eq]
    exact books.kept scope uncleared
  swapped scope := by
    simp only [quiet.disposed, quiet.swapped_iff]
    exact books.swapped scope
  first one other scope := by
    rw [quiet.swapped_iff, quiet.swapped_iff]
    exact books.first one other scope

/-- A quiet step concerns no scope that is being disposed. -/
theorem untouched (quiet : Quiet id s s') (other : Nat) : Untouched other s s' :=
  ⟨quiet.swapped_iff other, fun scope _ =>
    ⟨quiet.cleared scope, quiet.closed_eq scope, quiet.captured_eq scope⟩⟩

end Quiet

/-- Keeping a value and releasing its mutex is quiet. -/
theorem quiet_store (s : Engine) (id : Nat) (a : Activation) (result : Resolved) :
    Quiet id s ((store s a result).1.unlock a.mutex) := by
  have scopes : ((store s a result).1.unlock a.mutex).scopes = (store s a result).1.scopes := by
    cases a.mutex <;> rfl
  have stored (scope : Nat) :
      ((store s a result).1.scopes scope).cleared = (s.scopes scope).cleared ∧
      ((store s a result).1.scopes scope).disposed = (s.scopes scope).disposed ∧
      ((store s a result).1.scopes scope).disposables = (s.scopes scope).disposables := by
    unfold store
    split
    · exact ⟨rfl, rfl, rfl⟩
    · split
      · split <;> exact ⟨rfl, rfl, rfl⟩
      · split
        · exact ⟨rfl, rfl, rfl⟩
        · simp only [Engine.keep, Engine.setScope]
          by_cases same : scope = a.ctx.scope
          · simp [same]
          · simp [same]
      · exact ⟨rfl, rfl, rfl⟩
      · exact ⟨rfl, rfl, rfl⟩
  refine ⟨fun scope => ?_, fun scope => ?_, fun scope => ?_, .inl (by simp)⟩
  · rw [scopes, (stored scope).1]
  · rw [scopes, (stored scope).2.1]
  · rw [scopes, (stored scope).2.2]

/-- A step of a call of `Get` concerns the books only if it hands something to a scope that is
not disposed. -/
theorem GetStep.quiet_or_accepts {r r' : Resolution} (step : GetStep admits s r id s' r') :
    Quiet id s s' ∨
      ∃ scope d, (s.scopes scope).disposed = false ∧ s' = s.accept id scope d := by
  cases step with
  | looks | enters | receives =>
    exact .inl ⟨fun _ => rfl, fun _ => rfl, fun _ => rfl, .inl rfl⟩
  | entersRoot => exact .inl ⟨fun _ => rfl, fun _ => rfl, fun _ => rfl, .inl rfl⟩
  | entersScope =>
    split
    all_goals exact .inl ⟨fun _ => rfl, fun _ => rfl, fun _ => rfl, .inl rfl⟩
  | creates | refuses =>
    exact .inl ⟨fun _ => rfl, fun _ => rfl, fun _ => rfl,
      .inr ⟨_, rfl, ⟨rfl, rfl, by simp⟩, rfl⟩⟩
  | settles a rest result here top => exact .inl (quiet_store s id a result)
  | accepts a rest v d here top captured isDisposable free unclosed =>
    exact .inr ⟨_, d, unclosed, rfl⟩

section Accepting

variable {scope : Nat} {d : Instance}

/-- Capturing clears no scope. -/
theorem accept_cleared (other : Nat) :
    ((s.accept id scope d).scopes other).cleared = (s.scopes other).cleared := by
  by_cases same : other = scope <;> simp [Engine.accept, Engine.record, Engine.setScope, same]

/-- Capturing marks no scope as disposed. -/
theorem accept_disposed (other : Nat) :
    ((s.accept id scope d).scopes other).disposed = (s.scopes other).disposed := by
  by_cases same : other = scope <;> simp [Engine.accept, Engine.record, Engine.setScope, same]

/-- Capturing adds the service to the disposables of its scope only. -/
theorem accept_disposables (other : Nat) :
    ((s.accept id scope d).scopes other).disposables =
      (s.scopes other).disposables ++ account other [(scope, d)] := by
  by_cases same : other = scope
  · subst same
    simp [Engine.accept, Engine.record, Engine.setScope]
  · simp [Engine.accept, Engine.record, Engine.setScope, same, Ne.symm same]

/-- Capturing is noted in the books of its scope. -/
theorem accept_captured (other : Nat) :
    captured other (s.accept id scope d).log = captured other s.log ++ account other [(scope, d)] :=
  captured_append other s.log _

/-- Capturing disposes nothing. -/
theorem accept_closed (other : Nat) :
    closed other (s.accept id scope d).log = closed other s.log := by
  rw [log_accept, closed_append]
  simp [Event.closedIn]

/-- Capturing makes no call the one that disposes a scope. -/
theorem accept_swapped (author other : Nat) :
    .swapped author other ∈ (s.accept id scope d).log ↔ .swapped author other ∈ s.log := by
  simp

/-- A scope that is not disposed takes a disposable. -/
theorem Books.accept {count : Nat} (books : Books count s) (isCall : id < count) :
    Books count (s.accept id scope d) where
  authors event member author isAuthor := by
    rw [log_accept, List.mem_append, List.mem_singleton] at member
    rcases member with earlier | rfl
    · exact books.authors event earlier author isAuthor
    · obtain rfl := Option.some.inj isAuthor
      exact isCall
  cleared other isCleared := by
    rw [accept_cleared] at isCleared
    rw [accept_disposed]
    exact books.cleared other isCleared
  kept other uncleared := by
    rw [accept_cleared] at uncleared
    obtain ⟨disposables, unclosed⟩ := books.kept other uncleared
    rw [accept_disposables, accept_captured, accept_closed, disposables]
    exact ⟨rfl, unclosed⟩
  swapped other := by
    simp only [accept_disposed, accept_swapped]
    exact books.swapped other
  first one another other := by
    rw [accept_swapped, accept_swapped]
    exact books.first one another other

/-- Scopes that are being disposed take nothing. -/
theorem Books.untouched_accept {count : Nat} (books : Books count s)
    (undisposed : (s.scopes scope).disposed = false) (other : Nat) :
    Untouched other s (s.accept id scope d) := by
  refine ⟨accept_swapped other, fun name swapped => ⟨accept_cleared name, accept_closed name, ?_⟩⟩
  have different : scope ≠ name := by
    rintro rfl
    rw [(books.swapped scope).2 ⟨other, swapped⟩] at undisposed
    cases undisposed
  rw [accept_captured, account_of_ne different, List.append_nil]

end Accepting

section Disposing

variable {scope : Nat}

/-- Marking a scope clears none. -/
theorem setDisposed_cleared (other : Nat) :
    ((s.setDisposed id scope).scopes other).cleared = (s.scopes other).cleared := by
  by_cases same : other = scope <;> simp [Engine.setDisposed, Engine.record, Engine.setScope, same]

/-- Marking a scope leaves the disposables of all scopes. -/
theorem setDisposed_disposables (other : Nat) :
    ((s.setDisposed id scope).scopes other).disposables = (s.scopes other).disposables := by
  by_cases same : other = scope <;> simp [Engine.setDisposed, Engine.record, Engine.setScope, same]

/-- Marking a scope marks that scope and no other. -/
theorem setDisposed_disposed (other : Nat) :
    ((s.setDisposed id scope).scopes other).disposed = true ↔
      (s.scopes other).disposed = true ∨ other = scope := by
  by_cases same : other = scope <;> simp [Engine.setDisposed, Engine.record, Engine.setScope, same]

/-- Marking a scope captures nothing. -/
theorem setDisposed_captured (other : Nat) :
    captured other (s.setDisposed id scope).log = captured other s.log := by
  rw [log_setDisposed, captured_append]
  simp [Event.capturedIn]

/-- Marking a scope disposes nothing. -/
theorem setDisposed_closed (other : Nat) :
    closed other (s.setDisposed id scope).log = closed other s.log := by
  rw [log_setDisposed, closed_append]
  simp [Event.closedIn]

/-- The call that marks a scope is the one that disposes it. -/
theorem setDisposed_swapped (author other : Nat) :
    .swapped author other ∈ (s.setDisposed id scope).log ↔
      .swapped author other ∈ s.log ∨ author = id ∧ other = scope := by
  simp

/-- A call becomes the one that disposes a scope. -/
theorem Books.setDisposed {count : Nat} (books : Books count s) (isCall : id < count)
    (undisposed : (s.scopes scope).disposed = false) : Books count (s.setDisposed id scope) := by
  have unswapped (author : Nat) : .swapped author scope ∉ s.log := by
    intro member
    rw [(books.swapped scope).2 ⟨author, member⟩] at undisposed
    cases undisposed
  refine ⟨?_, ?_, ?_, ?_, ?_⟩
  · intro event member author isAuthor
    rw [log_setDisposed, List.mem_append, List.mem_singleton] at member
    rcases member with earlier | rfl
    · exact books.authors event earlier author isAuthor
    · obtain rfl := Option.some.inj isAuthor
      exact isCall
  · intro other isCleared
    rw [setDisposed_cleared] at isCleared
    exact (setDisposed_disposed other).2 (.inl (books.cleared other isCleared))
  · intro other uncleared
    rw [setDisposed_cleared] at uncleared
    rw [setDisposed_disposables, setDisposed_captured, setDisposed_closed]
    exact books.kept other uncleared
  · intro other
    simp only [setDisposed_disposed, setDisposed_swapped, exists_or]
    refine or_congr (books.swapped other) ⟨fun same => ⟨id, rfl, same⟩, ?_⟩
    rintro ⟨_, _, same⟩
    exact same
  · intro one another other
    rw [setDisposed_swapped, setDisposed_swapped]
    rintro (earlier | ⟨rfl, rfl⟩) (earlier' | ⟨rfl, same⟩)
    · exact books.first one another other earlier earlier'
    · exact absurd (same ▸ earlier) (unswapped one)
    · exact absurd earlier' (unswapped another)
    · rfl

/-- Marking a scope does not concern the scopes of other calls. -/
theorem untouched_setDisposed {other : Nat} (different : other ≠ id) :
    Untouched other s (s.setDisposed id scope) := by
  refine ⟨fun name => ?_, fun name _ =>
    ⟨setDisposed_cleared name, setDisposed_closed name, setDisposed_captured name⟩⟩
  rw [setDisposed_swapped]
  exact or_iff_left fun both => different both.1

/-- The call that disposes a scope takes what the scope has. -/
theorem Books.clear {count : Nat} (books : Books count s)
    (disposed : (s.scopes scope).disposed = true) : Books count (s.clear scope) := by
  have unchanged (other : Nat) (different : other ≠ scope) :
      (s.clear scope).scopes other = s.scopes other := by
    simp [Engine.clear, Engine.setScope, different]
  have sameDisposed (other : Nat) :
      ((s.clear scope).scopes other).disposed = (s.scopes other).disposed := by
    by_cases same : other = scope <;> simp [Engine.clear, Engine.setScope, same]
  refine ⟨books.authors, ?_, ?_, ?_, books.first⟩
  · intro other isCleared
    rw [sameDisposed]
    by_cases same : other = scope
    · exact same ▸ disposed
    · exact books.cleared other (unchanged other same ▸ isCleared)
  · intro other uncleared
    by_cases same : other = scope
    · simp [Engine.clear, Engine.setScope, same] at uncleared
    · rw [unchanged other same] at uncleared ⊢
      exact books.kept other uncleared
  · intro other
    rw [sameDisposed]
    exact books.swapped other

/-- Taking the disposables of one's scope does not concern the scopes of other calls, as only the
first call for a scope disposes it. -/
theorem Books.untouched_clear {count other : Nat} (books : Books count s)
    (swapped : .swapped id scope ∈ s.log) (different : other ≠ id) :
    Untouched other s (s.clear scope) := by
  refine ⟨fun _ => Iff.rfl, fun name theirs => ⟨?_, rfl, rfl⟩⟩
  have apart : name ≠ scope := by
    rintro rfl
    exact different (books.first other id name theirs swapped)
  simp [Engine.clear, Engine.setScope, apart]

/-- Disposing a service makes no call the one that disposes a scope. -/
theorem close_swapped (d : Instance) (author other : Nat) :
    .swapped author other ∈ (s.record (.closed scope d)).log ↔ .swapped author other ∈ s.log := by
  simp

/-- Disposing a service captures nothing. -/
theorem close_captured (d : Instance) (other : Nat) :
    captured other (s.record (.closed scope d)).log = captured other s.log := by
  rw [log_record, captured_append]
  simp [Event.capturedIn]

/-- Disposing a service is noted in the books of its scope. -/
theorem close_closed (d : Instance) (other : Nat) :
    closed other (s.record (.closed scope d)).log =
      closed other s.log ++ account other [(scope, d)] :=
  closed_append other s.log _

/-- The call that disposes a scope disposes what the scope had. -/
theorem Books.close {count : Nat} (books : Books count s)
    (isCleared : (s.scopes scope).cleared = true) (d : Instance) :
    Books count (s.record (.closed scope d)) := by
  refine ⟨?_, books.cleared, ?_, ?_, ?_⟩
  · intro event member author isAuthor
    rw [log_record, List.mem_append, List.mem_singleton] at member
    rcases member with earlier | rfl
    · exact books.authors event earlier author isAuthor
    · cases isAuthor
  · intro other uncleared
    have different : scope ≠ other := by
      rintro rfl
      exact absurd isCleared (by simpa [Engine.record] using uncleared)
    rw [close_captured, close_closed, account_of_ne different, List.append_nil]
    exact books.kept other uncleared
  · intro other
    simp only [close_swapped]
    exact books.swapped other
  · intro one another other
    rw [close_swapped, close_swapped]
    exact books.first one another other

/-- Disposing a service of one's scope does not concern the scopes of other calls. -/
theorem Books.untouched_close {count other : Nat} (books : Books count s)
    (swapped : .swapped id scope ∈ s.log) (different : other ≠ id) (d : Instance) :
    Untouched other s (s.record (.closed scope d)) := by
  refine ⟨close_swapped d other, fun name theirs => ⟨rfl, ?_, close_captured d name⟩⟩
  have apart : scope ≠ name := by
    rintro rfl
    exact different (books.first other id scope theirs swapped)
  rw [close_closed, account_of_ne apart, List.append_nil]

end Disposing

section Runs

/-- A step that leaves the scopes and the log alone is quiet. -/
theorem quiet_of_same (scopes : s'.scopes = s.scopes) (log : s'.log = s.log) : Quiet id s s' :=
  ⟨fun _ => by rw [scopes], fun _ => by rw [scopes], fun _ => by rw [scopes], .inl log⟩

/-- A step of a call of `Dispose` keeps the books, does what the call has to do, and leaves
the scopes that other calls dispose to them. -/
theorem DisposeStep.books {count : Nat} {d d' : Disposal} (step : DisposeStep s id d s' d')
    (isCall : id < count) (books : Books count s) (owes : d.Owes id s) :
    Books count s' ∧ d'.Owes id s' ∧ ∀ other, other ≠ id → Untouched other s s' := by
  have quietly (quiet : Quiet id s s') (done : d'.Owes id s) :
      Books count s' ∧ d'.Owes id s' ∧ ∀ other, other ≠ id → Untouched other s s' := by
    have stillOwes : (Call.dispose d').Owes id s := done
    exact ⟨quiet.books isCall books, stillOwes.untouched (quiet.untouched id),
      fun other _ => quiet.untouched other⟩
  cases step with
  | container => exact quietly (quiet_of_same rfl rfl) owes
  | late scope disposed =>
    exact quietly (quiet_of_same rfl rfl) fun other swapped => ((owes other).1 swapped).elim
  | marks => exact quietly (quiet_of_same rfl rfl) owes
  | ends scope =>
    refine quietly (quiet_of_same rfl rfl) fun other swapped => ?_
    obtain rfl := (owes.1 other).1 swapped
    exact ⟨owes.2.1, by simpa using owes.2.2⟩
  | swaps scope next undisposed isNext =>
    have uncleared : (s.scopes scope).cleared = false := by
      by_contra isCleared
      rw [books.cleared scope (by simpa using isCleared)] at undisposed
      cases undisposed
    have mine : Disposes id (s.setDisposed id scope) (· = scope) := by
      intro name
      rw [setDisposed_swapped]
      exact ⟨fun either => either.elim (fun swapped => ((owes name).1 swapped).elim) (·.2),
        fun same => .inr ⟨rfl, same⟩⟩
    refine ⟨books.setDisposed isCall undisposed, ?_, fun _ => untouched_setDisposed⟩
    rcases isNext with rfl | ⟨rfl, rfl⟩
    · exact ⟨mine, (setDisposed_cleared scope).trans uncleared⟩
    · exact ⟨mine, (setDisposed_cleared 0).trans uncleared⟩
  | takes scope free =>
    have swapped : .swapped id scope ∈ s.log := (owes.1 scope).2 rfl
    obtain ⟨disposables, unclosed⟩ := books.kept scope owes.2
    refine ⟨books.clear ((books.swapped scope).2 ⟨id, swapped⟩), ⟨owes.1, ?_, ?_⟩,
      fun _ => books.untouched_clear swapped⟩
    · simp [Engine.clear, Engine.setScope]
    · simp [unclosed, disposables]
  | closes scope service pending =>
    have swapped : .swapped id scope ∈ s.log := (owes.1 scope).2 rfl
    refine ⟨books.close owes.2.1 service, ⟨?_, owes.2.1, ?_⟩,
      fun _ different => books.untouched_close swapped different service⟩
    · exact fun name => (close_swapped service id name).trans (owes.1 name)
    · rw [close_closed, close_captured, account_self, List.append_assoc]
      exact owes.2.2

/-- A step of `Get` keeps the books and does not concern the scopes that calls dispose. -/
theorem GetStep.books {count : Nat} {r r' : Resolution} (step : GetStep admits s r id s' r')
    (isCall : id < count) (books : Books count s) :
    Books count s' ∧ ∀ other, Untouched other s s' := by
  rcases step.quiet_or_accepts with quiet | ⟨scope, d, undisposed, rfl⟩
  · exact ⟨quiet.books isCall books, quiet.untouched⟩
  · exact ⟨books.accept isCall, books.untouched_accept undisposed⟩

/-- The books agree in every schedule. -/
theorem books_invariant (admits : CallSite → Nat → Bool) :
    (containerSystem admits).Invariant Books (fun id s call => call.Owes id s) where
  initially := by
    refine ⟨by simp [containerSystem], by simp [containerSystem], ?_, by simp [containerSystem],
      by simp [containerSystem]⟩
    exact fun scope _ => ⟨rfl, rfl⟩
  begins operation count s books := by
    refine ⟨books.mono (Nat.le_succ count), ?_⟩
    have none : Disposes count s fun _ => False := by
      refine fun scope => iff_of_false (fun member => ?_) id
      exact Nat.lt_irrefl _ (books.authors _ member count rfl)
    cases operation <;> exact none
  moves choice count id s call s' call' isCall books owes moved := by
    rcases Call.move_step moved with ⟨r, r', rfl, rfl, step⟩ | ⟨d, d', rfl, rfl, step⟩
    · obtain ⟨after, untouched⟩ := step.books isCall books
      exact ⟨after, Call.Owes.untouched owes (untouched id)⟩
    · obtain ⟨after, owesAfter, _⟩ := step.books isCall books owes
      exact ⟨after, owesAfter⟩
  interferes choice count id s call s' call' other bystander different books owes theirs moved := by
    -- the books do not care how many calls there are
    have isCall : id < count + id + 1 := by omega
    have books := books.mono (show count ≤ count + id + 1 by omega)
    rcases Call.move_step moved with ⟨r, r', rfl, rfl, step⟩ | ⟨d, d', rfl, rfl, step⟩
    · exact Call.Owes.untouched theirs ((step.books isCall books).2 other)
    · exact Call.Owes.untouched theirs ((step.books isCall books owes).2.2 other different)
  events event := event.elim

end Runs

end Scopes

section Calls

variable {admits : CallSite → Nat → Bool} {s s' : Engine} {id : Nat}

/-- What a call has made and is about to hand to a scope. -/
def Call.inFlight : Call → List Instance
  | .get r =>
      match r.control, r.stack with
      | .capture v, a :: _ => if a.handling = .noCache then [] else (disposable v).toList
      | _, _ => []
  | .dispose _ => []

/-- A call has handed to scopes what it has made, up to what it is about to hand over. -/
def Call.Balanced (id : Nat) (s : Engine) (call : Call) : Prop :=
  posted Event.made id s.log = posted Event.handed id s.log ++ call.inFlight

/-- A call that is not about to capture has nothing in its hands. -/
theorem inFlight_eq_nil {r : Resolution} (elsewhere : ∀ v, r.control ≠ .capture v) :
    (Call.get r).inFlight = [] := by
  simp only [Call.inFlight]
  split
  case h_1 here _ => exact absurd here (elsewhere _)
  case h_2 => rfl

/-- A call that is about to capture has its value in its hands, unless it is visited without a
cache. -/
theorem inFlight_capture {r : Resolution} {v : Option Value} {a : Activation}
    {rest : List Activation} (here : r.control = .capture v) (top : r.stack = a :: rest) :
    (Call.get r).inFlight = if a.handling = .noCache then [] else (disposable v).toList := by
  simp [Call.inFlight, here, top]

/-- Looking around, a call neither makes anything nor hands anything over. -/
theorem Looks.inFlight {r : Resolution} {control : Control} (looks : Looks admits s r control) :
    (Call.get (r.goto control)).inFlight = (Call.get r).inFlight := by
  cases looks with
  | made a rest v here top builtIn =>
    rw [inFlight_capture (r := r.goto (.capture v)) rfl top, inFlight_eq_nil (by simp [here])]
    rcases builtIn with plain | plain <;> simp [plain]
  | uncaptured a rest v here top plain =>
    rw [inFlight_capture here top, inFlight_eq_nil (by simp [Resolution.goto])]
    rcases plain with plain | plain <;> simp [plain]
  | refused scope failure here =>
    rw [inFlight_eq_nil (by simp [Resolution.goto]), inFlight_eq_nil]
    rcases here with here | here <;> simp [here]
  | rootKnown cs ctx v here known =>
    rw [inFlight_eq_nil (by simp [Resolution.goto]), inFlight_eq_nil]
    rcases here with ⟨here, _⟩ | here <;> simp [here]
  | _ =>
    rw [inFlight_eq_nil (by simp [Resolution.goto]), inFlight_eq_nil]
    simp [*]

/-- Only call sites without a cache location are visited without a cache. -/
theorem handling_eq_noCache_iff (a : Activation) :
    a.handling = .noCache ↔ a.callSite.cache.location = .none := by
  unfold Activation.handling handling
  cases a.callSite.cache <;> simp [ResultCache.location]
  split <;> simp

/-- A step of a call of `Get` keeps the balance of the call. -/
theorem GetStep.balanced {r r' : Resolution} (step : GetStep admits s r id s' r')
    (balanced : (Call.get r).Balanced id s) : (Call.get r').Balanced id s' := by
  have silently (log : s'.log = s.log)
      (same : (Call.get r').inFlight = (Call.get r).inFlight) :
      (Call.get r').Balanced id s' := by
    unfold Call.Balanced at balanced ⊢
    rw [log, same]
    exact balanced
  have nothing {before after : Resolution} (here : ∀ v, before.control ≠ .capture v)
      (there : ∀ v, after.control ≠ .capture v) :
      (Call.get after).inFlight = (Call.get before).inFlight :=
    (inFlight_eq_nil there).trans (inFlight_eq_nil here).symm
  unfold Call.Balanced at balanced
  cases step with
  | looks control looks => exact silently rfl looks.inFlight
  | enters cs ctx here plain =>
    exact silently rfl (nothing (by simp [here]) (by simp [Resolution.enter]))
  | entersRoot cs ctx here free unknown =>
    exact silently rfl (nothing (by simp [here]) (by simp [Resolution.enter]))
  | entersScope cs ctx key nilMap here unknown free =>
    refine silently ?_ (nothing (by simp [here]) (by simp [Resolution.enter]))
    split <;> rfl
  | settles a rest result here top =>
    exact silently (by simp) (nothing (by simp [here]) (by simp [Resolution.leave]))
  | receives a rest cs ctx v here top =>
    exact silently rfl (nothing (by simp [here]) (by simp [Resolution.receive]))
  | creates a rest v here top =>
    rw [inFlight_eq_nil (by simp [here]), List.append_nil] at balanced
    unfold Call.Balanced
    rw [inFlight_capture (r := r.goto (.capture (v.map .object))) rfl top, log_record,
      posted_append, posted_append, balanced]
    cases v with
    | none => simp [Event.made, Event.handed, disposable]
    | some d =>
      cases isDisposable : d.disposable
      · simp [Event.made, Event.handed, disposable, isDisposable]
      · by_cases plain : a.handling = .noCache
        · simp [Event.made, Event.handed, plain, (handling_eq_noCache_iff a).1 plain]
        · have isKept : a.callSite.cache.location ≠ .none :=
            fun isNone => plain ((handling_eq_noCache_iff a).2 isNone)
          simp [Event.made, Event.handed, disposable, isDisposable, plain, isKept]
  | refuses a rest v d here top isCaptured isDisposable free isClosed =>
    rw [inFlight_capture here top] at balanced
    unfold Call.Balanced
    rw [inFlight_eq_nil (by simp [Resolution.goto]), log_record, posted_append, posted_append,
      balanced]
    simp [Event.made, Event.handed, isCaptured, isDisposable]
  | accepts a rest v d here top isCaptured isDisposable free unclosed =>
    rw [inFlight_capture here top] at balanced
    unfold Call.Balanced
    rw [inFlight_eq_nil (by simp [Resolution.goto]), log_accept, posted_append, posted_append,
      balanced]
    simp [Event.made, Event.handed, isCaptured, isDisposable]

/-- What a call makes and hands over has the call as its author. -/
theorem author_of_posted (event : Event) :
    (∀ entry, event.made = some entry → event.author = some entry.1) ∧
    ∀ entry, event.handed = some entry → event.author = some entry.1 := by
  constructor
  · intro entry isEntry
    unfold Event.made at isEntry
    split at isEntry
    · split at isEntry
      · obtain rfl := Option.some.inj isEntry
        rfl
      · cases isEntry
    · cases isEntry
  · intro entry isEntry
    unfold Event.handed at isEntry
    split at isEntry
    · obtain rfl := Option.some.inj isEntry
      rfl
    · obtain rfl := Option.some.inj isEntry
      rfl
    · cases isEntry

/-- An entry of another account is not counted. -/
theorem account_toList_of_ne {entry : Option (Nat × Instance)} {other : Nat}
    (different : ∀ e, entry = some e → e.1 ≠ other) : account other entry.toList = [] := by
  cases entry with
  | none => rfl
  | some e => exact account_of_ne (different e rfl) e.2

/-- Nothing is posted for calls that have not been made. -/
theorem Books.posted_eq_nil {count other : Nat} (books : Books count s) (beyond : count ≤ other)
    {read : Event → Option (Nat × Instance)}
    (author : ∀ (event : Event) entry, read event = some entry → event.author = some entry.1) :
    posted read other s.log = [] := by
  rw [List.eq_nil_iff_forall_not_mem]
  intro d member
  obtain ⟨event, inside, isEntry⟩ := List.mem_filterMap.1 (mem_account_iff.1 member)
  have made := books.authors event inside other (author event _ isEntry)
  omega

/-- A call that has returned has nothing in its hands. -/
theorem Call.Finished.inFlight {call : Call} (finished : call.Finished) : call.inFlight = [] := by
  cases call with
  | dispose d => rfl
  | get r =>
    simp only [Call.inFlight]
    split
    case h_1 top => simp [finished.1] at top
    case h_2 => rfl

/-- Events of other authors do not concern the balance of a call. -/
theorem Call.Balanced.append {call : Call} {other : Nat} (balanced : call.Balanced other s)
    {event : Event} (log : s'.log = s.log ++ [event]) (different : event.author ≠ some other) :
    call.Balanced other s' := by
  obtain ⟨madeAuthor, handedAuthor⟩ := author_of_posted event
  have notMade : account other event.made.toList = [] :=
    account_toList_of_ne fun e isEntry same => different (same ▸ madeAuthor e isEntry)
  have notHanded : account other event.handed.toList = [] :=
    account_toList_of_ne fun e isEntry same => different (same ▸ handedAuthor e isEntry)
  unfold Call.Balanced at balanced ⊢
  rw [log, posted_append, posted_append, notMade, notHanded, List.append_nil, List.append_nil]
  exact balanced

/-- What a step adds to the record. -/
theorem GetStep.log {r r' : Resolution} (step : GetStep admits s r id s' r') :
    s'.log = s.log ∨ ∃ event : Event, s'.log = s.log ++ [event] ∧ event.author = some id := by
  rcases step.quiet_or_accepts with quiet | ⟨scope, d, _, rfl⟩
  · rcases quiet.log with same | ⟨event, more, _, author⟩
    · exact .inl same
    · exact .inr ⟨event, more, author⟩
  · exact .inr ⟨.captured id scope d, rfl, rfl⟩

/-- A step of `Dispose` notes at most one event, by its own call, and neither makes nor hands over
a service. -/
theorem DisposeStep.log {d d' : Disposal} (step : DisposeStep s id d s' d') :
    s'.log = s.log ∨ ∃ event : Event, s'.log = s.log ++ [event] ∧
      event.made = none ∧ event.handed = none ∧
        ∀ other, other ≠ id → event.author ≠ some other := by
  cases step with
  | container | late | marks | takes | ends => exact .inl rfl
  | swaps scope next undisposed isNext =>
    exact .inr ⟨.swapped id scope, rfl, rfl, rfl, fun other different same =>
      different (Option.some.inj same).symm⟩
  | closes scope d pending => exact .inr ⟨.closed scope d, rfl, rfl, rfl, by simp [Event.author]⟩

/-- A step of `Dispose` keeps the balance of its call. -/
theorem DisposeStep.balanced {d d' : Disposal} (step : DisposeStep s id d s' d')
    (balanced : (Call.dispose d).Balanced id s) : (Call.dispose d').Balanced id s' := by
  unfold Call.Balanced at balanced ⊢
  rcases step.log with same | ⟨event, more, unmade, unhanded, _⟩
  · rw [same]
    exact balanced
  · rw [more, posted_append, posted_append, unmade, unhanded]
    simpa [Call.inFlight] using balanced

/-- Every call is balanced in every schedule. -/
theorem balance (admits : CallSite → Nat → Bool) :
    (containerSystem admits).InvariantGiven Books (fun id s call => call.Owes id s)
      (fun _ _ => True) (fun id s call => call.Balanced id s) where
  initially := trivial
  begins operation count s books _ := by
    refine ⟨trivial, ?_⟩
    unfold Call.Balanced
    rw [books.posted_eq_nil (Nat.le_refl _) fun event => (author_of_posted event).1,
      books.posted_eq_nil (Nat.le_refl _) fun event => (author_of_posted event).2]
    cases operation <;> rfl
  moves choice count id s call s' call' isCall books owes _ balanced moved := by
    rcases Call.move_step moved with ⟨r, r', rfl, rfl, step⟩ | ⟨d, d', rfl, rfl, step⟩
    · exact ⟨trivial, step.balanced balanced⟩
    · exact ⟨trivial, step.balanced balanced⟩
  interferes choice count id s call s' call' other bystander different books owes _ _ _ balanced
      moved := by
    have same (log : s'.log = s.log) : bystander.Balanced other s' := by
      unfold Call.Balanced at balanced ⊢
      rw [log]
      exact balanced
    rcases Call.move_step moved with ⟨r, r', rfl, rfl, step⟩ | ⟨d, d', rfl, rfl, step⟩
    · rcases step.log with log | ⟨event, log, author⟩
      · exact same log
      · refine Call.Balanced.append balanced log fun theirs => ?_
        exact different (Option.some.inj (theirs.symm.trans author))
    · rcases step.log with log | ⟨event, log, _, _, author⟩
      · exact same log
      · exact Call.Balanced.append balanced log (author other different)
  events event := event.elim

end Calls

section Results

open scoped List

/-- A finished call that was the first to dispose a scope has disposed all of it. -/
theorem Call.Owes.finished {id scope : Nat} {s : Engine} {call : Call} (owes : call.Owes id s)
    (swapped : .swapped id scope ∈ s.log) (finished : call.Finished) :
    closed scope s.log = (captured scope s.log).reverse := by
  cases call with
  | get r => exact ((owes scope).1 swapped).elim
  | dispose d =>
    obtain rfl : d = .finished := finished
    exact (owes scope swapped).2

/-- Whoever disposes a scope has disposed the last of what the scope has captured, and knows the
rest. -/
theorem Call.Owes.closed_append {id scope : Nat} {s : Engine} {call : Call}
    (owes : call.Owes id s) (swapped : .swapped id scope ∈ s.log)
    (isCleared : (s.scopes scope).cleared = true) :
    ∃ pending, closed scope s.log ++ pending = (captured scope s.log).reverse := by
  cases call with
  | get r => exact ((owes scope).1 swapped).elim
  | dispose d =>
    simp only [Call.Owes] at owes
    cases d <;> simp only [Disposal.Owes] at owes
    case container => exact ((owes scope).1 swapped).elim
    case swap => exact ((owes scope).1 swapped).elim
    case mark =>
      obtain rfl := (owes.1 scope).1 swapped
      rw [owes.2] at isCleared
      cases isCleared
    case take name =>
      obtain rfl := (owes.1 scope).1 swapped
      rw [owes.2] at isCleared
      cases isCleared
    case close name pending =>
      obtain rfl := (owes.1 scope).1 swapped
      exact ⟨pending, owes.2.2⟩
    case finished => exact ⟨[], by rw [(owes scope swapped).2, List.append_nil]⟩

/-- What a scope has disposed is what it has captured, the last one first and each once, up to
what is left to dispose; and nothing is left when the call has returned that was the first to
dispose the scope. -/
structure DisposedInReverse (config : Config Engine Call) (scope : Nat) : Prop where
  partly : ∃ pending, closed scope config.shared.log ++ pending =
    (captured scope config.shared.log).reverse
  wholly : ∀ (id : Nat) (call : Call), config.calls[id]? = some call →
    .swapped id scope ∈ config.shared.log → call.Finished →
    closed scope config.shared.log = (captured scope config.shared.log).reverse

/-- From the books and what each call owes: a scope is disposed in reverse. -/
theorem disposedInReverse_of_books (config : Config Engine Call)
    (books : Books config.calls.length config.shared)
    (owes : ∀ (id : Nat) call, config.calls[id]? = some call → call.Owes id config.shared)
    (scope : Nat) : DisposedInReverse config scope := by
  refine ⟨?_, fun id call isCall swapped finished =>
    (owes id call isCall).finished swapped finished⟩
  cases isCleared : (config.shared.scopes scope).cleared with
  | false =>
    rw [(books.kept scope isCleared).2]
    exact ⟨_, rfl⟩
  | true =>
    obtain ⟨id, swapped⟩ := (books.swapped scope).1 (books.cleared scope isCleared)
    have made := books.authors _ swapped id rfl
    exact (owes id _ (List.getElem?_eq_getElem made)).closed_append swapped isCleared

/-- In every schedule, every scope disposes what it has captured in reverse order. -/
theorem scope_disposed_in_reverse (admits : CallSite → Nat → Bool)
    (schedule : List (Action Operation Choice Empty)) (config : Config Engine Call)
    (ran : (containerSystem admits).run schedule = some config) (scope : Nat) :
    DisposedInReverse config scope := by
  obtain ⟨books, owes⟩ := (books_invariant admits).run schedule config ran
  exact disposedInReverse_of_books config books owes scope

/-- When all calls have returned and every scope that captured something has been disposed, the
services that have been disposed are those that were made, each as often as it was made. -/
theorem made_perm_disposed (admits : CallSite → Nat → Bool)
    (schedule : List (Action Operation Choice Empty)) (config : Config Engine Call)
    (ran : (containerSystem admits).run schedule = some config)
    (finished : ∀ (id : Nat) (call : Call), config.calls[id]? = some call → call.Finished)
    (disposed : ∀ scope, captured scope config.shared.log ≠ [] →
      (config.shared.scopes scope).disposed = true) :
    ((config.shared.log.filterMap Event.made).map (·.2)).Perm
      (config.shared.log.filterMap Event.disposal) := by
  obtain ⟨⟨books, _⟩, own⟩ :=
    ((books_invariant admits).and (balance admits)).run schedule config ran
  have byCall : (config.shared.log.filterMap Event.made).Perm
      (config.shared.log.filterMap Event.handed) := by
    refine perm_of_accounts fun id => .of_eq ?_
    by_cases isCall : id < config.calls.length
    · have found := List.getElem?_eq_getElem isCall
      have balanced := (own id _ found).2
      unfold Call.Balanced at balanced
      rwa [(finished id _ found).inFlight, List.append_nil] at balanced
    · have beyond := Nat.le_of_not_lt isCall
      exact (books.posted_eq_nil beyond fun event => (author_of_posted event).1).trans
        (books.posted_eq_nil beyond fun event => (author_of_posted event).2).symm
  have byScope : (config.shared.log.filterMap Event.capturedIn).Perm
      (config.shared.log.filterMap Event.closedIn) := by
    refine perm_of_accounts fun scope => ?_
    obtain ⟨⟨pending, isPrefix⟩, all⟩ :=
      disposedInReverse_of_books config books (fun id call found => (own id call found).1) scope
    by_cases empty : captured scope config.shared.log = []
    · rw [empty] at isPrefix
      exact .of_eq (empty.trans (List.append_eq_nil_iff.1 isPrefix).1.symm)
    · obtain ⟨id, swapped⟩ := (books.swapped scope).1 (disposed scope empty)
      have found := List.getElem?_eq_getElem (books.authors _ swapped id rfl)
      exact (List.reverse_perm _).symm.trans (.of_eq (all id _ found swapped
        (finished id _ found)).symm)
  have handed : (config.shared.log.filterMap fun event => event.handed.map (·.2)).Perm
      ((config.shared.log.filterMap fun event => event.capturedIn.map (·.2)) ++
        config.shared.log.filterMap Event.refusedNow) :=
    perm_filterMap_or (fun event => by cases event <;> rfl)
      (fun event => by cases event <;> simp [Event.capturedIn, Event.refusedNow]) _
  have disposals : (config.shared.log.filterMap Event.disposal).Perm
      ((config.shared.log.filterMap fun event => event.closedIn.map (·.2)) ++
        config.shared.log.filterMap Event.refusedNow) :=
    perm_filterMap_or (fun event => by cases event <;> rfl)
      (fun event => by cases event <;> simp [Event.closedIn, Event.refusedNow]) _
  rw [← List.map_filterMap, ← List.map_filterMap] at handed
  rw [← List.map_filterMap] at disposals
  calc (config.shared.log.filterMap Event.made).map (·.2)
    _ ~ (config.shared.log.filterMap Event.handed).map (·.2) := byCall.map _
    _ ~ (config.shared.log.filterMap Event.capturedIn).map (·.2) ++
          config.shared.log.filterMap Event.refusedNow := handed
    _ ~ (config.shared.log.filterMap Event.closedIn).map (·.2) ++
          config.shared.log.filterMap Event.refusedNow := (byScope.map _).append_right _
    _ ~ config.shared.log.filterMap Event.disposal := disposals.symm

/-- A transient connection. -/
def connectionCallSite : CallSite :=
  .node 3 (.factory (.dispose ⟨.named "Connection", 0⟩) (.named "Connection") 0) []

/-- Two connections are requested in a scope, which is then disposed. -/
def connectionSchedule : List (Action Operation Choice Empty) :=
  .call (.scopeGet connectionCallSite 1) :: List.replicate 5 (.move 0 .proceed) ++
    .move 0 (.finish (.ok (some ⟨7, true⟩))) :: List.replicate 2 (.move 0 .proceed) ++
    .call (.scopeGet connectionCallSite 1) :: List.replicate 5 (.move 1 .proceed) ++
    .move 1 (.finish (.ok (some ⟨8, true⟩))) :: List.replicate 2 (.move 1 .proceed) ++
    .call (.scopeDispose 1) :: List.replicate 5 (.move 2 .proceed)

/-- The second connection is disposed first. -/
theorem connections_disposed_in_reverse :
    ∃ config, (containerSystem fun _ _ => true).run connectionSchedule = some config ∧
      closed 1 config.shared.log = [⟨8, true⟩, ⟨7, true⟩] ∧ DisposedInReverse config 1 := by
  have ran : ∃ config, (containerSystem fun _ _ => true).run connectionSchedule = some config ∧
      closed 1 config.shared.log = [⟨8, true⟩, ⟨7, true⟩] :=
    ⟨_, rfl, rfl⟩
  obtain ⟨config, ran, isClosed⟩ := ran
  exact ⟨config, ran, isClosed, scope_disposed_in_reverse _ connectionSchedule config ran 1⟩

/-- Both connections were made and both were disposed. -/
theorem connections_made_perm_disposed :
    ∃ config, (containerSystem fun _ _ => true).run connectionSchedule = some config ∧
      ((config.shared.log.filterMap Event.made).map (·.2)).Perm
        (config.shared.log.filterMap Event.disposal) := by
  have ran : ∃ config, (containerSystem fun _ _ => true).run connectionSchedule = some config ∧
      config.calls.length = 3 ∧
      (config.calls[0]? = some (.get ⟨connectionCallSite, 1, [], .returned connectionCallSite
        ⟨1, false⟩ (.ok (some (.object ⟨7, true⟩)))⟩)) ∧
      (config.calls[1]? = some (.get ⟨connectionCallSite, 1, [], .returned connectionCallSite
        ⟨1, false⟩ (.ok (some (.object ⟨8, true⟩)))⟩)) ∧
      config.calls[2]? = some (.dispose .finished) ∧
      config.shared.log.filterMap Event.capturedIn = [(1, ⟨7, true⟩), (1, ⟨8, true⟩)] ∧
      (config.shared.scopes 1).disposed = true :=
    ⟨_, rfl, rfl, rfl, rfl, rfl, rfl, rfl⟩
  obtain ⟨config, ran, three, first, second, third, isCaptured, disposed⟩ := ran
  refine ⟨config, ran, made_perm_disposed _ connectionSchedule config ran ?_ ?_⟩
  · intro id call isCall
    have inside : id < 3 := three ▸ (List.getElem?_eq_some_iff.1 isCall).1
    obtain rfl | rfl | rfl : id = 0 ∨ id = 1 ∨ id = 2 := by omega
    · obtain rfl := Option.some.inj (first.symm.trans isCall)
      exact ⟨rfl, .inl ⟨_, _, _, rfl⟩⟩
    · obtain rfl := Option.some.inj (second.symm.trans isCall)
      exact ⟨rfl, .inl ⟨_, _, _, rfl⟩⟩
    · obtain rfl := Option.some.inj (third.symm.trans isCall)
      rfl
  · intro scope some_
    by_cases same : scope = 1
    · exact same ▸ disposed
    · refine absurd ?_ some_
      simp [captured, posted, isCaptured, account, Ne.symm same]

end Results

end FluffyCore.Di
