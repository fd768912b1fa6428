import Mathlib.Data.List.TakeDrop
import Mathlib.Order.Basic

/-!
# Scans that stop at a limit

A scan looks at records one after the other, remembers something, and collects what some of
them yield. A positive limit stops it as soon as so many results are collected, and the
stop is reported with their number. A limited scan collects a prefix of what the unlimited
one would, and it reports a stop exactly once or not at all.
-/

namespace FluffyCore.Library.LimitedScan

variable {σ ρ β : Type}

/-- The variables of a running scan, with the numbers reported so far. -/
structure Scan (σ β : Type) where
  memory : σ
  collected : List β
  done : Bool
  limitCalls : List Nat

/-- Look at one record. A limit that is not positive never stops the scan. -/
def Scan.visit (limit : Int) (look : σ → ρ → σ × Option β) (scan : Scan σ β) (record : ρ) :
    Scan σ β :=
  if scan.done then scan
  else
    match (look scan.memory record).2 with
    | none => { scan with memory := (look scan.memory record).1 }
    | some found =>
      if limit > 0 ∧ limit ≤ (scan.collected ++ [found]).length then
        { memory := (look scan.memory record).1
          collected := scan.collected ++ [found]
          done := true
          limitCalls := scan.limitCalls ++ [(scan.collected ++ [found]).length] }
      else
        { scan with
          memory := (look scan.memory record).1
          collected := scan.collected ++ [found] }

/-- Everything the records yield when nothing stops the scan. -/
def finds (look : σ → ρ → σ × Option β) : σ → List ρ → List β
  | _, [] => []
  | memory, record :: rest =>
    (look memory record).2.toList ++ finds look (look memory record).1 rest

/-- A scan that is done ignores the records that are left. -/
theorem foldl_visit_done (limit : Int) (look : σ → ρ → σ × Option β) (records : List ρ)
    (scan : Scan σ β) (stopped : scan.done = true) :
    records.foldl (Scan.visit limit look) scan = scan := by
  induction records with
  | nil => exact List.foldl_nil
  | cons record rest inductionHypothesis =>
    have ignored : scan.visit limit look record = scan := by
      simp [Scan.visit, stopped]
    rw [List.foldl_cons, ignored, inductionHypothesis]

/-- Without a limit the scan collects everything and reports nothing. -/
theorem foldl_visit_unlimited (look : σ → ρ → σ × Option β) (records : List ρ)
    (scan : Scan σ β) (running : scan.done = false) :
    (records.foldl (Scan.visit 0 look) scan).collected =
        scan.collected ++ finds look scan.memory records ∧
      (records.foldl (Scan.visit 0 look) scan).limitCalls = scan.limitCalls := by
  induction records generalizing scan with
  | nil => simp [finds]
  | cons record rest inductionHypothesis =>
    rw [List.foldl_cons, finds]
    cases yielded : (look scan.memory record).2 with
    | none =>
      have next : scan.visit 0 look record =
          { scan with memory := (look scan.memory record).1 } := by
        simp [Scan.visit, running, yielded]
      rw [next]
      simpa using inductionHypothesis { scan with memory := (look scan.memory record).1 } running
    | some found =>
      have next : scan.visit 0 look record =
          { scan with
            memory := (look scan.memory record).1
            collected := scan.collected ++ [found] } := by
        simp [Scan.visit, running, yielded]
      rw [next]
      simpa using inductionHypothesis
        { scan with
          memory := (look scan.memory record).1
          collected := scan.collected ++ [found] } running

/-- A positive limit that is not yet reached cuts off what the unlimited scan collects,
and is reported once if there is that much to collect. -/
theorem foldl_visit_limited (limit : Nat) (look : σ → ρ → σ × Option β) (records : List ρ)
    (scan : Scan σ β) (running : scan.done = false) (below : scan.collected.length < limit) :
    (records.foldl (Scan.visit limit look) scan).collected =
        (scan.collected ++ finds look scan.memory records).take limit ∧
      (records.foldl (Scan.visit limit look) scan).limitCalls =
        scan.limitCalls ++
          if limit ≤ (scan.collected ++ finds look scan.memory records).length then [limit]
          else [] := by
  induction records generalizing scan with
  | nil =>
    have short : ¬ limit ≤ scan.collected.length := by omega
    simp [finds, short, List.take_of_length_le (Nat.le_of_lt below)]
  | cons record rest inductionHypothesis =>
    rw [List.foldl_cons, finds]
    cases yielded : (look scan.memory record).2 with
    | none =>
      have next : scan.visit limit look record =
          { scan with memory := (look scan.memory record).1 } := by
        simp [Scan.visit, running, yielded]
      rw [next]
      simpa using
        inductionHypothesis { scan with memory := (look scan.memory record).1 } running below
    | some found =>
      by_cases reached : limit = scan.collected.length + 1
      · -- The last free place is taken: the rest of the records is ignored.
        have next : scan.visit limit look record =
            { memory := (look scan.memory record).1
              collected := scan.collected ++ [found]
              done := true
              limitCalls := scan.limitCalls ++ [limit] } := by
          simp [Scan.visit, running, yielded, reached]
        have fits : (scan.collected ++ [found]).length = limit := by simp [reached]
        rw [next, foldl_visit_done _ _ _ _ (by simp)]
        constructor
        · simp only [Option.toList_some]
          rw [← List.append_assoc, List.take_left' fits]
        · have enough : limit ≤ (scan.collected ++ ([found] ++
              finds look (look scan.memory record).1 rest)).length := by
            simp only [List.length_append, List.length_singleton]
            omega
          rw [Option.toList_some, if_pos enough]
      · have room : ¬ ((limit : Int) > 0 ∧
            (limit : Int) ≤ (scan.collected ++ [found]).length) := by
          simp only [List.length_append, List.length_singleton]
          omega
        have next : scan.visit limit look record =
            { scan with
              memory := (look scan.memory record).1
              collected := scan.collected ++ [found] } := by
          simp only [Scan.visit, running, yielded, if_neg room, Bool.false_eq_true, if_false]
        have stillBelow : (scan.collected ++ [found]).length < limit := by
          simp only [List.length_append, List.length_singleton]
          omega
        rw [next]
        simpa using inductionHypothesis
          { scan with
            memory := (look scan.memory record).1
            collected := scan.collected ++ [found] } running stillBelow

end FluffyCore.Library.LimitedScan
