import Mathlib.Data.List.Perm.Basic

/-!
# Ledgers

A ledger is a list of entries, each for an account. Two ledgers that agree account by account
hold the same entries. The entries may be what one reads off the events of a log.
-/

namespace FluffyCore.Library.Ledgers

universe u v

variable {κ : Type u} {α : Type v} [DecidableEq κ]

/-- The entries of an account. -/
def account (key : κ) (ledger : List (κ × α)) : List α :=
  ledger.filterMap fun entry => if entry.1 = key then some entry.2 else none

/-- An empty ledger has empty accounts. -/
@[simp] theorem account_nil (key : κ) : account key ([] : List (κ × α)) = [] := rfl

/-- What is appended to a ledger is appended to each of its accounts. -/
@[simp] theorem account_append (key : κ) (ledger later : List (κ × α)) :
    account key (ledger ++ later) = account key ledger ++ account key later :=
  List.filterMap_append

/-- An entry stands in its own account. -/
@[simp] theorem account_self (key : κ) (value : α) : account key [(key, value)] = [value] := by
  simp [account]

/-- An entry does not stand in another account. -/
@[simp] theorem account_of_ne {key other : κ} (different : other ≠ key) (value : α) :
    account key [(other, value)] = [] := by
  simp [account, different]

/-- The entries of an account are those of the ledger with its key. -/
theorem mem_account_iff {key : κ} {ledger : List (κ × α)} {value : α} :
    value ∈ account key ledger ↔ (key, value) ∈ ledger := by
  simp only [account, List.mem_filterMap]
  constructor
  · rintro ⟨⟨other, entry⟩, member, isEntry⟩
    split at isEntry
    case isTrue same =>
      obtain rfl : other = key := same
      obtain rfl := Option.some.inj isEntry
      exact member
    case isFalse => cases isEntry
  · intro member
    exact ⟨(key, value), member, by simp⟩

/-- An account holds an entry as often as the ledger does. -/
theorem count_account [DecidableEq α] (key : κ) (value : α) (ledger : List (κ × α)) :
    (account key ledger).count value = ledger.count (key, value) := by
  induction ledger with
  | nil => rfl
  | cons entry ledger inductionHypothesis =>
    obtain ⟨other, first⟩ := entry
    rw [← List.singleton_append, account_append, List.count_append, List.count_append,
      inductionHypothesis]
    by_cases same : other = key
    · subst same
      by_cases equal : first = value <;> simp [equal]
    · simp [same]

/-- Ledgers with the same accounts have the same entries. -/
theorem perm_of_accounts [DecidableEq α] {ledger other : List (κ × α)}
    (same : ∀ key, (account key ledger).Perm (account key other)) : ledger.Perm other := by
  rw [List.perm_iff_count]
  rintro ⟨key, value⟩
  rw [← count_account, ← count_account, (same key).count_eq]

section Logs

variable {ε : Type*} (read : ε → Option (κ × α))

/-- The entries of an account that the events of a log have posted. -/
def posted (key : κ) (log : List ε) : List α :=
  account key (log.filterMap read)

/-- An empty log has posted nothing. -/
@[simp] theorem posted_nil (key : κ) : posted read key [] = [] := rfl

/-- The last event of a log posts after all events before it. -/
theorem posted_append (key : κ) (log : List ε) (event : ε) :
    posted read key (log ++ [event]) = posted read key log ++ account key (read event).toList := by
  unfold posted
  rw [List.filterMap_append, account_append]
  cases isEntry : read event <;> simp [isEntry]

/-- Events of two kinds post what either kind posts. -/
theorem perm_filterMap_or {β : Type*} {f g h : ε → Option β} (either : ∀ x, f x = (g x).or (h x))
    (exclusive : ∀ x, g x = none ∨ h x = none) (log : List ε) :
    (log.filterMap f).Perm (log.filterMap g ++ log.filterMap h) := by
  induction log with
  | nil => exact .refl _
  | cons event log inductionHypothesis =>
    rw [List.filterMap_cons, List.filterMap_cons, List.filterMap_cons, either event]
    rcases exclusive event with first | second
    · cases isEntry : h event with
      | none => simpa [first, isEntry] using inductionHypothesis
      | some value =>
        simp only [first, Option.none_or]
        exact (inductionHypothesis.cons value).trans List.perm_middle.symm
    · cases isEntry : g event with
      | none => simpa [second, isEntry] using inductionHypothesis
      | some value => simpa [second, isEntry] using inductionHypothesis

end Logs

end FluffyCore.Library.Ledgers
