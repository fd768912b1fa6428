import Mathlib.Data.List.Basic
import Mathlib.Tactic.Linarith
import Mathlib.Tactic.Ring

/-!
# Replacing a token everywhere in a text

A text is scanned from the left, and every occurrence of a token that is met is
replaced. When the token stands for something in certain places of the text, the scan
replaces it there and wherever else the same characters happen to stand. It does what
is meant exactly when they stand nowhere else, or when the token is replaced by
itself. The token must not overlap with itself.
-/

namespace FluffyCore.Library.Replacement

universe u

variable {α : Type u} [DecidableEq α]

/-- Scan a text after skipping some characters of an occurrence. -/
def replaceFrom (token new : List α) : Nat → List α → List α
  | _, [] => []
  | skip + 1, _ :: rest => replaceFrom token new skip rest
  | 0, c :: rest =>
      if token <+: c :: rest then new ++ replaceFrom token new (token.length - 1) rest
      else c :: replaceFrom token new 0 rest

/-- Replace all occurrences of a token that is not empty, from the left. -/
def replaceAll (token new text : List α) : List α := replaceFrom token new 0 text

/-- Skipping characters is replacing in what comes after them. -/
theorem replaceFrom_skip (token new : List α) (skip : Nat) (text : List α) :
    replaceFrom token new skip text = replaceAll token new (text.drop skip) := by
  induction text generalizing skip with
  | nil => cases skip <;> simp [replaceAll, replaceFrom]
  | cons c rest inductionHypothesis =>
    cases skip with
    | zero => rfl
    | succ skip => simpa [replaceFrom] using inductionHypothesis skip

/-- There is nothing to replace in an empty text. -/
@[simp]
theorem replaceAll_nil (token new : List α) : replaceAll token new [] = [] := rfl

/-- An occurrence at the front is replaced. -/
theorem replaceAll_token (token new : List α) (nonempty : token ≠ []) (rest : List α) :
    replaceAll token new (token ++ rest) = new ++ replaceAll token new rest := by
  obtain ⟨c, tail, rfl⟩ := List.exists_cons_of_ne_nil nonempty
  have occurs : c :: tail <+: c :: (tail ++ rest) := ⟨rest, rfl⟩
  rw [List.cons_append, replaceAll, replaceFrom, if_pos occurs, replaceFrom_skip]
  simp

/-- A character at which no occurrence starts is kept. -/
theorem replaceAll_cons (token new : List α) (c : α) (rest : List α)
    (absent : ¬ token <+: c :: rest) :
    replaceAll token new (c :: rest) = c :: replaceAll token new rest := by
  rw [replaceAll, replaceFrom, if_neg absent]
  rfl

/-- Induction along the scan of a text: it ends, or meets an occurrence, or a character at
which none starts. -/
@[elab_as_elim]
theorem scan_induction (token : List α) (nonempty : token ≠ []) {motive : List α → Prop}
    (nil : motive []) (occurrence : ∀ rest, motive rest → motive (token ++ rest))
    (char : ∀ c rest, ¬ token <+: c :: rest → motive rest → motive (c :: rest))
    (text : List α) : motive text := by
  induction length : text.length using Nat.strong_induction_on generalizing text with
  | _ n inductionHypothesis =>
    subst length
    by_cases occurs : token <+: text
    · obtain ⟨rest, rfl⟩ := occurs
      have shorter : rest.length < (token ++ rest).length := by
        have := List.length_pos_of_ne_nil nonempty
        rw [List.length_append]
        omega
      exact occurrence rest (inductionHypothesis _ shorter rest rfl)
    · cases text with
      | nil => exact nil
      | cons c rest =>
        exact char c rest occurs (inductionHypothesis _ (Nat.lt_succ_self _) rest rfl)

/-- A token replaced by itself leaves the text alone. -/
theorem replaceAll_self (token : List α) (nonempty : token ≠ []) (text : List α) :
    replaceAll token token text = text := by
  induction text using scan_induction token nonempty with
  | nil => rfl
  | occurrence rest inductionHypothesis =>
    rw [replaceAll_token token token nonempty, inductionHypothesis]
  | char c rest absent inductionHypothesis =>
    rw [replaceAll_cons token token c rest absent, inductionHypothesis]

/-- A replacement without a character does not make it more frequent. -/
theorem count_replaceAll_le (token new : List α) (nonempty : token ≠ []) (c : α)
    (absent : c ∉ new) (text : List α) : (replaceAll token new text).count c ≤ text.count c := by
  induction text using scan_induction token nonempty with
  | nil => exact le_rfl
  | occurrence rest inductionHypothesis =>
    rw [replaceAll_token token new nonempty, List.count_append, List.count_append,
      List.count_eq_zero_of_not_mem absent]
    omega
  | char d rest notHere inductionHypothesis =>
    rw [replaceAll_cons token new d rest notHere, List.count_cons, List.count_cons]
    omega

/-- A text with marks at the places where a token is meant to stand. -/
abbrev Marked (α : Type u) := List (Option α)

/-- Put a text at the marks. -/
def fill (token : List α) (marked : Marked α) : List α :=
  marked.flatMap fun
    | some c => [c]
    | none => token

omit [DecidableEq α] in
/-- An empty text has no marks to fill. -/
@[simp]
theorem fill_nil (token : List α) : fill token [] = [] := rfl

omit [DecidableEq α] in
/-- A character is kept. -/
@[simp]
theorem fill_some (token : List α) (c : α) (rest : Marked α) :
    fill token (some c :: rest) = c :: fill token rest := rfl

omit [DecidableEq α] in
/-- A mark becomes the text. -/
@[simp]
theorem fill_none (token : List α) (rest : Marked α) :
    fill token (none :: rest) = token ++ fill token rest := rfl

omit [DecidableEq α] in
/-- Marks are filled one by one, so both parts of a text are filled alike. -/
theorem fill_append (token : List α) (first second : Marked α) :
    fill token (first ++ second) = fill token first ++ fill token second := by
  simp [fill]

omit [DecidableEq α] in
/-- A text without marks is kept. -/
@[simp]
theorem fill_map_some (token text : List α) : fill token (text.map some) = text := by
  induction text with
  | nil => rfl
  | cons c rest inductionHypothesis => simp [inductionHypothesis]

omit [DecidableEq α] in
/-- Filling in goes through the pieces of a joined text. -/
theorem fill_intercalate (token : List α) (c : α) (pieces : List (Marked α)) :
    fill token ([some c].intercalate pieces) = [c].intercalate (pieces.map (fill token)) := by
  induction pieces with
  | nil => rfl
  | cons piece rest inductionHypothesis =>
    cases rest with
    | nil => simp
    | cons next rest =>
      rw [List.map_cons, List.map_cons, List.intercalate_cons_cons, List.intercalate_cons_cons,
        fill_append, fill_append, inductionHypothesis]
      rfl

/-- The token, filled in at the marks, starts nowhere else. -/
def OnlyMarked (token : List α) : Marked α → Prop
  | [] => True
  | none :: rest => OnlyMarked token rest
  | some c :: rest => ¬ token <+: c :: fill token rest ∧ OnlyMarked token rest

instance decidableOnlyMarked (token : List α) : (marked : Marked α) →
    Decidable (OnlyMarked token marked)
  | [] => inferInstanceAs (Decidable True)
  | none :: rest => decidableOnlyMarked token rest
  | some c :: rest =>
      have := decidableOnlyMarked token rest
      inferInstanceAs (Decidable (¬ token <+: c :: fill token rest ∧ OnlyMarked token rest))

/-- Where the token stands only at the marks, the scan replaces it there. -/
theorem replaceAll_fill (token new : List α) (nonempty : token ≠ []) (marked : Marked α)
    (only : OnlyMarked token marked) :
    replaceAll token new (fill token marked) = fill new marked := by
  induction marked with
  | nil => rfl
  | cons mark rest inductionHypothesis =>
    cases mark with
    | none =>
      rw [fill_none, replaceAll_token token new nonempty, inductionHypothesis only, fill_none]
    | some c =>
      rw [fill_some, replaceAll_cons token new c _ only.1, inductionHypothesis only.2, fill_some]

/-- No proper part at the end of a token is a part at its front. -/
def Unbordered (token : List α) : Prop :=
  ∀ first border, first ≠ [] → border ≠ [] → token = first ++ border → ¬ border <+: token

omit [DecidableEq α] in
/-- The rest of an occurrence that started at an unmarked character reaches no mark. -/
theorem occurrence_unmarked (token : List α) (unbordered : Unbordered token)
    (first border : List α) (started : first ≠ []) (split : token = first ++ border)
    (marked : Marked α) (occurs : border <+: fill token marked) :
    ∃ rest, marked = border.map some ++ rest := by
  induction border generalizing first marked with
  | nil => exact ⟨marked, rfl⟩
  | cons c border inductionHypothesis =>
    cases marked with
    | nil => simp at occurs
    | cons mark rest =>
      cases mark with
      | none =>
        have inside : c :: border <+: token := by
          refine List.prefix_of_prefix_length_le occurs (List.prefix_append token _) ?_
          rw [split, List.length_append]
          omega
        exact absurd inside (unbordered first (c :: border) started (by simp) split)
      | some d =>
        rw [fill_some, List.cons_prefix_cons] at occurs
        obtain ⟨rfl, occurs⟩ := occurs
        obtain ⟨after, rfl⟩ := inductionHypothesis (first ++ [c]) (by simp)
          (by rw [split]; simp) rest occurs
        exact ⟨after, rfl⟩

omit [DecidableEq α] in
/-- An occurrence that starts at an unmarked character is unmarked. -/
theorem occurrence_eq (token : List α) (unbordered : Unbordered token) (nonempty : token ≠ [])
    (c : α) (rest : Marked α) (occurs : token <+: fill token (some c :: rest)) :
    ∃ after, some c :: rest = token.map some ++ after := by
  obtain ⟨d, tail, rfl⟩ := List.exists_cons_of_ne_nil nonempty
  rw [fill_some, List.cons_prefix_cons] at occurs
  obtain ⟨rfl, occurs⟩ := occurs
  obtain ⟨after, rfl⟩ := occurrence_unmarked (d :: tail) unbordered [d] tail (by simp) rfl rest
    occurs
  exact ⟨after, rfl⟩

/-- The scan differs in length from the filled text by the occurrences that are not
marked. -/
theorem length_replaceAll_fill (token new : List α) (unbordered : Unbordered token)
    (nonempty : token ≠ []) (marked : Marked α) :
    ∃ unmarked : Nat, ((replaceAll token new (fill token marked)).length : Int) =
      (fill new marked).length + unmarked * ((new.length : Int) - token.length) := by
  induction length : marked.length using Nat.strong_induction_on generalizing marked with
  | _ n inductionHypothesis =>
    subst length
    cases marked with
    | nil => exact ⟨0, by simp⟩
    | cons mark rest =>
      have shorter : rest.length < (mark :: rest).length := Nat.lt_succ_self _
      cases mark with
      | none =>
        obtain ⟨unmarked, counted⟩ := inductionHypothesis _ shorter rest rfl
        refine ⟨unmarked, ?_⟩
        rw [fill_none, replaceAll_token token new nonempty, fill_none, List.length_append,
          List.length_append]
        push_cast
        linarith
      | some c =>
        by_cases occurs : token <+: fill token (some c :: rest)
        · obtain ⟨after, same⟩ := occurrence_eq token unbordered nonempty c rest occurs
          have smaller : after.length < (some c :: rest).length := by
            have := List.length_pos_of_ne_nil nonempty
            rw [same, List.length_append, List.length_map]
            omega
          obtain ⟨unmarked, counted⟩ := inductionHypothesis _ smaller after rfl
          refine ⟨unmarked + 1, ?_⟩
          rw [same, fill_append, fill_map_some, replaceAll_token token new nonempty, fill_append,
            fill_map_some, List.length_append, List.length_append]
          push_cast
          linarith
        · obtain ⟨unmarked, counted⟩ := inductionHypothesis _ shorter rest rfl
          refine ⟨unmarked, ?_⟩
          rw [fill_some] at occurs
          rw [fill_some, replaceAll_cons token new c _ occurs, fill_some, List.length_cons,
            List.length_cons]
          push_cast
          linarith

/-- The scan that replaces a token by something else and does what is meant met the
token at the marks only. -/
theorem onlyMarked_of_replaceAll (token new : List α) (unbordered : Unbordered token)
    (nonempty : token ≠ []) (differ : new ≠ token) (marked : Marked α)
    (meant : replaceAll token new (fill token marked) = fill new marked) :
    OnlyMarked token marked := by
  induction marked with
  | nil => trivial
  | cons mark rest inductionHypothesis =>
    cases mark with
    | none =>
      rw [fill_none, replaceAll_token token new nonempty, fill_none, List.append_right_inj] at meant
      exact inductionHypothesis meant
    | some c =>
      by_cases occurs : token <+: fill token (some c :: rest)
      · obtain ⟨after, same⟩ := occurrence_eq token unbordered nonempty c rest occurs
        rw [same, fill_append, fill_map_some, replaceAll_token token new nonempty, fill_append,
          fill_map_some] at meant
        obtain ⟨unmarked, counted⟩ := length_replaceAll_fill token new unbordered nonempty after
        have lengths := congrArg (fun text => (text.length : Int)) meant
        simp only [List.length_append, Nat.cast_add, counted] at lengths
        -- One occurrence is unmarked, so the lengths agree only if nothing changes length.
        have sameLength : (new.length : Int) - token.length = 0 := by
          have product : ((unmarked : Int) + 1) * ((new.length : Int) - token.length) = 0 := by
            linarith
          rcases mul_eq_zero.1 product with impossible | equal
          · omega
          · exact equal
        exact absurd (List.append_inj_left meant (by omega)) differ
      · rw [fill_some] at occurs
        rw [fill_some, replaceAll_cons token new c _ occurs, fill_some, List.cons.injEq] at meant
        exact ⟨occurs, inductionHypothesis meant.2⟩

/-- The scan does what is meant exactly when the token stands only at the marks or is
replaced by itself. -/
theorem replaceAll_fill_iff (token new : List α) (unbordered : Unbordered token)
    (nonempty : token ≠ []) (marked : Marked α) :
    replaceAll token new (fill token marked) = fill new marked ↔
      new = token ∨ OnlyMarked token marked := by
  constructor
  · intro meant
    by_cases differ : new = token
    · exact Or.inl differ
    · exact Or.inr (onlyMarked_of_replaceAll token new unbordered nonempty differ marked meant)
  · rintro (rfl | only)
    · exact replaceAll_self new nonempty _
    · exact replaceAll_fill token new nonempty marked only

end FluffyCore.Library.Replacement
