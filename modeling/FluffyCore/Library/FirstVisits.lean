import Mathlib.Data.Finset.Basic
import Mathlib.Data.List.Nodup

/-!
# Visiting each key once

A scan that remembers the keys it has seen acts only on the first element of each
key. The elements it acts on form a sublist with pairwise distinct keys. When a
key determines its element within the scanned list, nothing is lost.
-/

namespace FluffyCore.Library.FirstVisits

universe u v
variable {α : Type u} {κ : Type v} [DecidableEq κ]

/-- The elements whose key is neither in the set nor carried by an earlier element. -/
def firstVisits (key : α → κ) (seen : Finset κ) : List α → List α
  | [] => []
  | x :: rest =>
      if key x ∈ seen then firstVisits key seen rest
      else x :: firstVisits key (insert (key x) seen) rest

/-- Only elements of the scanned list with unseen keys are visited. -/
theorem mem_of_mem_firstVisits (key : α → κ) (seen : Finset κ) (elements : List α) (x : α)
    (visited : x ∈ firstVisits key seen elements) : x ∈ elements ∧ key x ∉ seen := by
  induction elements generalizing seen with
  | nil => cases visited
  | cons y rest inductionHypothesis =>
    by_cases known : key y ∈ seen
    · rw [firstVisits, if_pos known] at visited
      have later := inductionHypothesis seen visited
      exact ⟨List.mem_cons_of_mem y later.1, later.2⟩
    · rw [firstVisits, if_neg known, List.mem_cons] at visited
      rcases visited with rfl | visited
      · exact ⟨List.mem_cons_self, known⟩
      · obtain ⟨inside, unseen⟩ := inductionHypothesis (insert (key y) seen) visited
        exact ⟨List.mem_cons_of_mem y inside, fun old => unseen (Finset.mem_insert_of_mem old)⟩

/-- No two visited elements share a key. -/
theorem nodup_keys_firstVisits (key : α → κ) (seen : Finset κ) (elements : List α) :
    ((firstVisits key seen elements).map key).Nodup := by
  induction elements generalizing seen with
  | nil => exact List.nodup_nil
  | cons y rest inductionHypothesis =>
    by_cases known : key y ∈ seen
    · rw [firstVisits, if_pos known]
      exact inductionHypothesis seen
    · rw [firstVisits, if_neg known, List.map_cons, List.nodup_cons]
      refine ⟨?_, inductionHypothesis (insert (key y) seen)⟩
      rintro repeated
      obtain ⟨x, visited, same⟩ := List.mem_map.1 repeated
      have unseen := (mem_of_mem_firstVisits key _ rest x visited).2
      exact unseen (same ▸ Finset.mem_insert_self _ _)

/-- Where a key determines its element, every element with an unseen key is visited. -/
theorem mem_firstVisits_iff (key : α → κ) (seen : Finset κ) (elements : List α)
    (determined : ∀ x ∈ elements, ∀ y ∈ elements, key x = key y → x = y) (x : α) :
    x ∈ firstVisits key seen elements ↔ x ∈ elements ∧ key x ∉ seen := by
  refine ⟨mem_of_mem_firstVisits key seen elements x, ?_⟩
  induction elements generalizing seen with
  | nil => simp
  | cons y rest inductionHypothesis =>
    rintro ⟨inside, unseen⟩
    have smaller : ∀ u ∈ rest, ∀ w ∈ rest, key u = key w → u = w := fun u hu w hw =>
      determined u (List.mem_cons_of_mem y hu) w (List.mem_cons_of_mem y hw)
    by_cases first : x = y
    · subst first
      rw [firstVisits, if_neg unseen]
      exact List.mem_cons_self
    · have later : x ∈ rest := (List.mem_cons.1 inside).resolve_left first
      have otherKey : key x ≠ key y := fun same =>
        first (determined x inside y List.mem_cons_self same)
      by_cases known : key y ∈ seen
      · rw [firstVisits, if_pos known]
        exact inductionHypothesis seen smaller ⟨later, unseen⟩
      · rw [firstVisits, if_neg known]
        refine List.mem_cons_of_mem y (inductionHypothesis _ smaller ⟨later, ?_⟩)
        simp [otherKey, unseen]

end FluffyCore.Library.FirstVisits
