import Mathlib.Data.List.Induction
import Mathlib.Logic.Function.Basic

/-!
# A log of writes and its contents

A store is the log of its writes. Each entry writes one key, giving the document
it holds from then on or none, or drops the whole store. The contents at a
position are those of the prefix before it. A key that no entry writes or drops
from some position on has had the same document ever since, so a reading of it
taken anywhere in that window is still right.
-/

namespace FluffyCore.Library.ChangeLog

universe u v
variable {κ : Type u} {δ : Type v}

/-- One entry: a key with the document it now holds, or the loss of every key. -/
inductive Entry (κ : Type u) (δ : Type v) where
  | put (key : κ) (document : Option δ)
  | drop

/-- An entry that may change what a key holds. -/
def Entry.Touches (key : κ) : Entry κ δ → Prop
  | .put written _ => written = key
  | .drop => True

/-- A key that no entry touches from a position on. -/
def Untouched (log : List (Entry κ δ)) (position : Nat) (key : κ) : Prop :=
  ∀ entry ∈ log.drop position, ¬ entry.Touches key

section Contents

variable [DecidableEq κ]

def Entry.apply (before : κ → Option δ) : Entry κ δ → κ → Option δ
  | .put key document => Function.update before key document
  | .drop => fun _ => none

/-- What the log leaves behind, key by key. -/
def contents (log : List (Entry κ δ)) : κ → Option δ :=
  log.foldl Entry.apply fun _ => none

/-- The last entry of a log is applied to what the entries before it left. -/
theorem contents_append_singleton (log : List (Entry κ δ)) (entry : Entry κ δ) :
    contents (log ++ [entry]) = entry.apply (contents log) := by
  simp [contents]

/-- The contents just after an entry. -/
theorem contents_take_succ (log : List (Entry κ δ)) (position : Nat) (entry : Entry κ δ)
    (present : log[position]? = some entry) :
    contents (log.take (position + 1)) = entry.apply (contents (log.take position)) := by
  obtain ⟨inside, rfl⟩ := List.getElem?_eq_some_iff.1 present
  rw [List.take_succ_eq_append_getElem inside, contents_append_singleton]

/-- An entry that does not touch a key leaves its document. -/
theorem apply_of_not_touches (before : κ → Option δ) (entry : Entry κ δ) (key : κ)
    (untouched : ¬ entry.Touches key) : entry.apply before key = before key := by
  cases entry with
  | put written document =>
    exact Function.update_of_ne (fun same => untouched same.symm) document before
  | drop => exact absurd trivial untouched

/-- Entries that do not touch a key can be left off the end of the log. -/
theorem contents_append_of_untouched (log suffix : List (Entry κ δ)) (key : κ)
    (untouched : ∀ entry ∈ suffix, ¬ entry.Touches key) :
    contents (log ++ suffix) key = contents log key := by
  induction suffix using List.reverseRecOn with
  | nil => rw [List.append_nil]
  | append_singleton earlier last inductionHypothesis =>
    rw [← List.append_assoc, contents_append_singleton,
      apply_of_not_touches _ last key (untouched last (by simp))]
    exact inductionHypothesis fun entry inside => untouched entry (by simp [inside])

/-- A reading taken at or after the start of an untouched window is still right. -/
theorem contents_take_of_untouched (log : List (Entry κ δ)) (position reading : Nat) (key : κ)
    (untouched : Untouched log position key) (within : position ≤ reading) :
    contents (log.take reading) key = contents log key := by
  have later : ∀ entry ∈ log.drop reading, ¬ entry.Touches key := fun entry inside =>
    untouched entry (List.drop_subset_drop_left log within inside)
  have whole := contents_append_of_untouched (log.take reading) (log.drop reading) key later
  rw [List.take_append_drop] at whole
  exact whole.symm

end Contents

/-- A longer log touches no fewer keys. -/
theorem Untouched.of_append {log suffix : List (Entry κ δ)} {position : Nat} {key : κ}
    (untouched : Untouched (log ++ suffix) position key) (inside : position ≤ log.length) :
    Untouched log position key ∧ ∀ entry ∈ suffix, ¬ entry.Touches key := by
  rw [Untouched, List.drop_append_of_le_length inside] at untouched
  exact ⟨fun entry found => untouched entry (List.mem_append_left _ found),
    fun entry found => untouched entry (List.mem_append_right _ found)⟩

/-- An untouched window may start later. -/
theorem Untouched.mono {log : List (Entry κ δ)} {position later : Nat} {key : κ}
    (untouched : Untouched log position key) (after : position ≤ later) :
    Untouched log later key :=
  fun entry inside => untouched entry (List.drop_subset_drop_left log after inside)

/-- A window that starts one entry earlier is untouched when that entry is. -/
theorem untouched_succ_iff (log : List (Entry κ δ)) (position : Nat) (key : κ)
    (entry : Entry κ δ) (present : log[position]? = some entry) :
    Untouched log position key ↔ ¬ entry.Touches key ∧ Untouched log (position + 1) key := by
  obtain ⟨inside, rfl⟩ := List.getElem?_eq_some_iff.1 present
  rw [Untouched, List.drop_eq_getElem_cons inside, List.forall_mem_cons]
  rfl

end FluffyCore.Library.ChangeLog
