import FluffyCore.Library.MapLoop
import FluffyCore.Library.Replacement

/-!
# Expanding bracketed placeholders

A placeholder is a name between brackets, and a name holds no bracket. Two placeholders
therefore never overlap: a text is cut in one way into placeholders and other characters,
and expanding it in one pass puts the values at the placeholders it has.

A loop that replaces one placeholder after the other in the whole text rewrites its own
results. A value, alone or together with what stands around it, may spell a placeholder
whose turn is still to come. Once spelled it stays until then, since no other placeholder
overlaps with it. So the order of the names does not matter, for a map of values and every
part of it, exactly when no placeholder is spelled in the text in which all the others are
expanded, apart from those that are replaced by themselves.
-/

namespace FluffyCore.Library.Placeholders

open Library.MapLoop Library.Replacement

variable {α : Type} [DecidableEq α]

/-- The text around a name. -/
structure Brackets (α : Type) where
  before : List α
  opening : α
  closing : α
  distinct : opening ≠ closing
  opening_notMem : opening ∉ before
  closing_notMem : closing ∉ before

/-- A name without brackets. -/
def Brackets.Plain (b : Brackets α) (name : List α) : Prop :=
  b.opening ∉ name ∧ b.closing ∉ name

def Brackets.placeholder (b : Brackets α) (name : List α) : List α :=
  b.before ++ b.opening :: (name ++ [b.closing])

omit [DecidableEq α] in
/-- The text in front of the first closing bracket is determined. -/
theorem split_unique {c : α} {first second firstRest secondRest : List α} (notFirst : c ∉ first)
    (notSecond : c ∉ second) (same : first ++ c :: firstRest = second ++ c :: secondRest) :
    first = second := by
  induction first generalizing second with
  | nil =>
    cases second with
    | nil => exact Eq.refl _
    | cons d second =>
      rw [List.nil_append, List.cons_append, List.cons.injEq] at same
      exact absurd (by simp [same.1]) notSecond
  | cons d first inductionHypothesis =>
    cases second with
    | nil =>
      rw [List.nil_append, List.cons_append, List.cons.injEq] at same
      exact absurd (by simp [same.1]) notFirst
    | cons e second =>
      simp only [List.cons_append, List.cons.injEq] at same
      simp only [List.mem_cons, not_or] at notFirst notSecond
      rw [same.1, inductionHypothesis notFirst.2 notSecond.2 same.2]

namespace Brackets

variable (b : Brackets α)

instance decidablePlain (name : List α) : Decidable (b.Plain name) :=
  inferInstanceAs (Decidable (_ ∧ _))

/-- A placeholder without its closing bracket. -/
def stem (name : List α) : List α := b.before ++ b.opening :: name

omit [DecidableEq α] in
/-- A placeholder is its stem with the closing bracket. -/
theorem placeholder_eq_stem (name : List α) : b.placeholder name = b.stem name ++ [b.closing] := by
  simp [placeholder, stem]

omit [DecidableEq α] in
/-- A placeholder has its brackets at least. -/
theorem placeholder_ne_nil (name : List α) : b.placeholder name ≠ [] := by
  simp [placeholder]

variable {b}

omit [DecidableEq α] in
/-- The closing bracket of a placeholder with a plain name is its only one. -/
theorem Plain.closing_notMem_stem {name : List α} (plain : b.Plain name) :
    b.closing ∉ b.stem name := by
  simp only [stem, List.mem_append, List.mem_cons, not_or]
  exact ⟨b.closing_notMem, Ne.symm b.distinct, plain.2⟩

omit [DecidableEq α] in
/-- A placeholder at the front of a text that has its first closing bracket elsewhere
comes to an end there. -/
theorem Plain.stem_eq {name front rest : List α} (plain : b.Plain name)
    (unclosed : b.closing ∉ front) (occurs : b.placeholder name <+: front ++ b.closing :: rest) :
    b.stem name = front := by
  obtain ⟨after, same⟩ := occurs
  rw [placeholder_eq_stem, List.append_assoc, List.singleton_append] at same
  exact split_unique plain.closing_notMem_stem unclosed same

omit [DecidableEq α] in
/-- The name can be read off a placeholder. -/
theorem Plain.stem_injective {name other : List α} (plain : b.Plain name) {front : List α}
    (same : b.stem name = front ++ b.stem other) : front = [] ∧ name = other := by
  have split := same
  rw [stem, stem, ← List.append_assoc] at split
  obtain ⟨none, back⟩ := (List.append_cons_inj_of_notMem b.opening_notMem plain.1).1 split
  exact ⟨by simpa using none, back.2⟩

/-- A placeholder that starts before another one ends before it. -/
theorem Plain.ends_before {name other front rest : List α} (plain : b.Plain name)
    (otherPlain : b.Plain other) (started : front ≠ [])
    (occurs : b.placeholder name <+: front ++ (b.placeholder other ++ rest)) :
    b.placeholder name <+: front := by
  by_cases closes : b.closing ∈ front
  · obtain ⟨inner, outer, rfl, firstOne⟩ := List.eq_append_cons_of_mem closes
    rw [List.append_assoc, List.cons_append] at occurs
    rw [placeholder_eq_stem, plain.stem_eq firstOne occurs]
    exact ⟨outer, by simp⟩
  · have regrouped : front ++ (b.placeholder other ++ rest) =
        (front ++ b.stem other) ++ b.closing :: rest := by
      simp [placeholder_eq_stem]
    have unclosed : b.closing ∉ front ++ b.stem other := by
      rw [List.mem_append, not_or]
      exact ⟨closes, otherPlain.closing_notMem_stem⟩
    rw [regrouped] at occurs
    exact absurd (plain.stem_injective (plain.stem_eq unclosed occurs)).1 started

omit [DecidableEq α] in
/-- No placeholder starts inside another one. -/
theorem Plain.not_inside {name other front part rest : List α} (plain : b.Plain name)
    (otherPlain : b.Plain other) (differ : name ≠ other) (nonempty : part ≠ [])
    (split : b.placeholder other = front ++ part) : ¬ b.placeholder name <+: part ++ rest := by
  intro occurs
  obtain ⟨inner, last, rfl⟩ := List.eq_nil_or_concat' part |>.resolve_left nonempty
  rw [placeholder_eq_stem, ← List.append_assoc] at split
  obtain ⟨sameStem, sameLast⟩ := List.append_inj' split (by simp)
  rw [List.cons.injEq] at sameLast
  rw [← sameLast.1, List.append_assoc, List.singleton_append] at occurs
  have unclosed : b.closing ∉ inner := by
    intro inside
    exact otherPlain.closing_notMem_stem (sameStem ▸ List.mem_append_right front inside)
  rw [← plain.stem_eq unclosed occurs] at sameStem
  exact differ (otherPlain.stem_injective sameStem).2.symm

omit [DecidableEq α] in
/-- A placeholder does not overlap with itself. -/
theorem Plain.unbordered {name : List α} (plain : b.Plain name) :
    Unbordered (b.placeholder name) := by
  intro first border started nonempty split occurs
  obtain ⟨inner, last, rfl⟩ := List.eq_nil_or_concat' border |>.resolve_left nonempty
  rw [placeholder_eq_stem, ← List.append_assoc] at split
  obtain ⟨sameStem, sameLast⟩ := List.append_inj' split (by simp)
  rw [List.cons.injEq] at sameLast
  obtain ⟨after, whole⟩ := occurs
  rw [placeholder_eq_stem, ← sameLast.1, List.append_assoc, List.singleton_append] at whole
  have unclosed : b.closing ∉ inner := by
    intro inside
    exact plain.closing_notMem_stem (sameStem ▸ List.mem_append_right first inside)
  have sameInner := split_unique unclosed plain.closing_notMem_stem whole
  rw [sameInner] at sameStem
  exact started (plain.stem_injective sameStem).1

end Brackets

/-- One map of values is a part of another. -/
def PartOf (part values : FiniteMap (List α) (List α)) : Prop :=
  ∀ name value, part.lookup name = some value → values.lookup name = some value

/-- The values of the names that had their round. -/
def valuesOf (values : FiniteMap (List α) (List α)) (done : List (List α)) (name : List α) :
    Option (List α) :=
  if name ∈ done then values.lookup name else none

/-- A part of a text: a placeholder, or a character at which none starts. -/
inductive Piece (α : Type) where
  | char (c : α)
  | mark (name : List α)

namespace Brackets

variable (b : Brackets α)

/-- The name of the placeholder a text starts with. -/
def nameAt (text : List α) : Option (List α) :=
  let name := (text.drop (b.before.length + 1)).takeWhile (· ≠ b.closing)
  if b.placeholder name <+: text ∧ b.Plain name then some name else none

/-- Cut a text after skipping some characters of a placeholder. -/
def cutFrom : Nat → List α → List (Piece α)
  | _, [] => []
  | skip + 1, _ :: rest => cutFrom skip rest
  | 0, c :: rest =>
    match b.nameAt (c :: rest) with
    | some name => .mark name :: cutFrom ((b.placeholder name).length - 1) rest
    | none => .char c :: cutFrom 0 rest

/-- Cut a text into its placeholders and the characters around them. -/
def cut (text : List α) : List (Piece α) := b.cutFrom 0 text

/-- The text of a piece when some names have values. -/
def pieceText (values : List α → Option (List α)) : Piece α → List α
  | .char c => [c]
  | .mark name => (values name).getD (b.placeholder name)

/-- Expand a text in one pass: every placeholder it has is replaced by its value, and what
the values spell is left as it is. A name without a value keeps its placeholder. -/
def expand (values : List α → Option (List α)) (text : List α) : List α :=
  (b.cut text).flatMap (b.pieceText values)

/-- The marks of a list of pieces hold plain names. -/
def PlainMarks (pieces : List (Piece α)) : Prop :=
  ∀ name, Piece.mark name ∈ pieces → b.Plain name

/-- Skipping characters is cutting what comes after them. -/
theorem cutFrom_skip (skip : Nat) (text : List α) :
    b.cutFrom skip text = b.cut (text.drop skip) := by
  induction text generalizing skip with
  | nil => cases skip <;> simp [cut, cutFrom]
  | cons c rest inductionHypothesis =>
    cases skip with
    | zero => simp [cut]
    | succ skip => simpa [cutFrom] using inductionHypothesis skip

/-- A name that is found stands at the front. -/
theorem nameAt_some {text name : List α} (found : b.nameAt text = some name) :
    b.placeholder name <+: text ∧ b.Plain name := by
  simp only [nameAt] at found
  split_ifs at found with stands
  rw [Option.some.injEq] at found
  exact found ▸ stands

/-- What the cut gives at the front of a text: a placeholder, or a character. -/
theorem cut_cons (c : α) (text : List α) :
    (∃ name rest, c :: text = b.placeholder name ++ rest ∧ b.Plain name ∧
        b.cut (c :: text) = .mark name :: b.cut rest) ∨
      b.cut (c :: text) = .char c :: b.cut text := by
  cases found : b.nameAt (c :: text) with
  | none =>
    right
    simp [cut, cutFrom, found]
  | some name =>
    left
    obtain ⟨⟨rest, same⟩, plain⟩ := b.nameAt_some found
    refine ⟨name, rest, same.symm, plain, ?_⟩
    have dropped : text.drop ((b.placeholder name).length - 1) = rest := by
      obtain ⟨d, tail, shape⟩ := List.exists_cons_of_ne_nil (b.placeholder_ne_nil name)
      rw [shape, List.cons_append, List.cons.injEq] at same
      rw [shape, ← same.2]
      simp
    rw [cut, cutFrom, found]
    simp only [cutFrom_skip, dropped]

/-- Induction along the cut of a text. -/
@[elab_as_elim]
theorem cut_induction {motive : List α → Prop} (nil : motive [])
    (mark : ∀ name rest, b.Plain name →
      b.cut (b.placeholder name ++ rest) = .mark name :: b.cut rest → motive rest →
        motive (b.placeholder name ++ rest))
    (char : ∀ c rest, b.cut (c :: rest) = .char c :: b.cut rest → motive rest →
      motive (c :: rest))
    (text : List α) : motive text := by
  induction length : text.length using Nat.strong_induction_on generalizing text with
  | _ n inductionHypothesis =>
    subst length
    cases text with
    | nil => exact nil
    | cons c text =>
      rcases b.cut_cons c text with ⟨name, rest, same, plain, pieces⟩ | pieces
      · have shorter : rest.length < (c :: text).length := by
          have := List.length_pos_of_ne_nil (b.placeholder_ne_nil name)
          rw [same, List.length_append]
          omega
        rw [same] at pieces ⊢
        exact mark name rest plain pieces (inductionHypothesis _ shorter rest rfl)
      · exact char c text pieces (inductionHypothesis _ (Nat.lt_succ_self _) text rfl)

/-- The pieces make up the text. -/
theorem expand_none (text : List α) : b.expand (fun _ => none) text = text := by
  induction text using b.cut_induction with
  | nil => simp [expand, cut, cutFrom]
  | mark name rest plain pieces inductionHypothesis =>
    rw [expand] at inductionHypothesis
    rw [expand, pieces, List.flatMap_cons, inductionHypothesis]
    simp [pieceText]
  | char c rest pieces inductionHypothesis =>
    rw [expand] at inductionHypothesis
    rw [expand, pieces, List.flatMap_cons, inductionHypothesis]
    simp [pieceText]

/-- The cut finds plain names only. -/
theorem plainMarks_cut (text : List α) : b.PlainMarks (b.cut text) := by
  induction text using b.cut_induction with
  | nil => simp [PlainMarks, cut, cutFrom]
  | mark name rest plain pieces inductionHypothesis =>
    intro other listed
    rw [pieces, List.mem_cons] at listed
    rcases listed with same | later
    · cases same
      exact plain
    · exact inductionHypothesis other later
  | char c rest pieces inductionHypothesis =>
    intro other listed
    rw [pieces, List.mem_cons] at listed
    rcases listed with impossible | later
    · cases impossible
    · exact inductionHypothesis other later

/-- A piece with a mark where the placeholder of one name is still to be replaced. -/
def marks (values : List α → Option (List α)) (name : List α) : Piece α → Marked α
  | .char c => [some c]
  | .mark other =>
    match values other with
    | some value => value.map some
    | none => if other = name then [none] else (b.placeholder other).map some

/-- A text, expanded with some values, with marks at the places of one more name. -/
def marked (values : List α → Option (List α)) (name : List α) (pieces : List (Piece α)) :
    Marked α :=
  pieces.flatMap (b.marks values name)

/-- Marks are filled piece by piece. -/
theorem fill_marked (text : List α) (values : List α → Option (List α)) (name : List α)
    (pieces : List (Piece α)) :
    fill text (b.marked values name pieces) =
      pieces.flatMap fun piece => fill text (b.marks values name piece) := by
  induction pieces with
  | nil => simp [marked]
  | cons piece pieces inductionHypothesis =>
    rw [marked] at inductionHypothesis
    rw [marked, List.flatMap_cons, fill_append, inductionHypothesis, List.flatMap_cons]

/-- With the placeholder at the marks this is the text before the name's round. -/
theorem fill_marked_placeholder (values : List α → Option (List α)) (name : List α)
    (pieces : List (Piece α)) :
    fill (b.placeholder name) (b.marked values name pieces) =
      pieces.flatMap (b.pieceText values) := by
  rw [fill_marked]
  refine congrArg pieces.flatMap (funext fun piece => ?_)
  cases piece with
  | char c => simp [marks, pieceText]
  | mark other =>
    cases value : values other with
    | some text => simp [marks, pieceText, value]
    | none =>
      by_cases same : other = name
      · subst same
        simp [marks, pieceText, value]
      · simp [marks, pieceText, value, same]

/-- With the value at the marks this is the text meant after the name's round. -/
theorem fill_marked_value (values : List α → Option (List α)) (name value : List α)
    (unset : values name = none) (pieces : List (Piece α)) :
    fill value (b.marked values name pieces) =
      pieces.flatMap (b.pieceText (Function.update values name (some value))) := by
  rw [fill_marked]
  refine congrArg pieces.flatMap (funext fun piece => ?_)
  cases piece with
  | char c => simp [marks, pieceText]
  | mark other =>
    by_cases same : other = name
    · subst same
      simp [marks, pieceText, unset]
    · cases found : values other with
      | some text => simp [marks, pieceText, found, same]
      | none => simp [marks, pieceText, found, same]

/-- A round does what is meant exactly when the placeholder stands only where the text
had it, or is replaced by itself. -/
theorem round_iff (values : List α → Option (List α)) (name value : List α)
    (plain : b.Plain name) (unset : values name = none) (pieces : List (Piece α)) :
    replaceAll (b.placeholder name) value (pieces.flatMap (b.pieceText values)) =
        pieces.flatMap (b.pieceText (Function.update values name (some value))) ↔
      value = b.placeholder name ∨
        OnlyMarked (b.placeholder name) (b.marked values name pieces) := by
  rw [← fill_marked_placeholder b values name, ← fill_marked_value b values name value unset]
  exact replaceAll_fill_iff _ _ plain.unbordered (b.placeholder_ne_nil name) _

omit [DecidableEq α] in
/-- No text in front of some marks is a place where a token starts. -/
theorem onlyMarked_append (token text : List α) (rest : Marked α) :
    OnlyMarked token (text.map some ++ rest) ↔
      OnlyMarked token rest ∧
        ∀ front part, part ≠ [] → text = front ++ part → ¬ token <+: part ++ fill token rest := by
  induction text with
  | nil =>
    simp only [List.map_nil, List.nil_append, iff_self_and]
    intro _ front part nonempty split
    exact absurd (List.append_eq_nil_iff.1 split.symm).2 nonempty
  | cons c text inductionHypothesis =>
    rw [List.map_cons, List.cons_append, OnlyMarked, inductionHypothesis, fill_append,
      fill_map_some]
    constructor
    · rintro ⟨here, only, later⟩
      refine ⟨only, fun front part nonempty split => ?_⟩
      cases front with
      | nil =>
        rw [List.nil_append] at split
        exact split ▸ here
      | cons d front =>
        rw [List.cons_append, List.cons.injEq] at split
        exact later front part nonempty split.2
    · rintro ⟨only, all⟩
      refine ⟨all [] (c :: text) (by simp) (by simp), only, fun front part nonempty split => ?_⟩
      exact all (c :: front) part nonempty (by simp [split])

section Extension

variable {b} {values larger : List α → Option (List α)}
  (extended : ∀ name value, values name = some value → larger name = some value)

include extended

/-- A placeholder that starts in front of some pieces stays when more of them have
their values: it reaches into no placeholder. -/
theorem occurrence_stays {name : List α} (plain : b.Plain name) (pieces : List (Piece α))
    (plainMarks : b.PlainMarks pieces) (front : List α) (started : front ≠ [])
    (occurs : b.placeholder name <+: front ++ pieces.flatMap (b.pieceText values)) :
    b.placeholder name <+: front ++ pieces.flatMap (b.pieceText larger) := by
  induction pieces generalizing front with
  | nil => exact occurs
  | cons piece pieces inductionHypothesis =>
    have others : b.PlainMarks pieces := fun other listed =>
      plainMarks other (List.mem_cons_of_mem _ listed)
    cases piece with
    | char c =>
      have step := inductionHypothesis others (front ++ [c]) (by simp)
      simp only [List.flatMap_cons, pieceText, List.append_assoc] at occurs step ⊢
      exact step occurs
    | mark other =>
      cases value : values other with
      | some text =>
        have step := inductionHypothesis others (front ++ text) (by simp [started])
        simp only [List.flatMap_cons, pieceText, value, extended other text value,
          Option.getD_some, List.append_assoc] at occurs step ⊢
        exact step occurs
      | none =>
        simp only [List.flatMap_cons, pieceText, value, Option.getD_none] at occurs
        have otherPlain := plainMarks other List.mem_cons_self
        exact (plain.ends_before otherPlain started occurs).trans (List.prefix_append front _)

/-- A placeholder that is spelled nowhere when more names have their values is spelled
nowhere before. -/
theorem onlyMarked_of_extension {name : List α} (plain : b.Plain name)
    (pieces : List (Piece α)) (plainMarks : b.PlainMarks pieces) (unset : larger name = none)
    (only : OnlyMarked (b.placeholder name) (b.marked larger name pieces)) :
    OnlyMarked (b.placeholder name) (b.marked values name pieces) := by
  induction pieces with
  | nil => trivial
  | cons piece pieces inductionHypothesis =>
    have others : b.PlainMarks pieces := fun other listed =>
      plainMarks other (List.mem_cons_of_mem _ listed)
    -- What stands in front of the other pieces is no place either.
    have block : ∀ text : List α, OnlyMarked (b.placeholder name)
        (text.map some ++ b.marked larger name pieces) →
        OnlyMarked (b.placeholder name) (text.map some ++ b.marked values name pieces) := by
      intro text onlyLarger
      rw [onlyMarked_append, fill_marked_placeholder] at onlyLarger ⊢
      refine ⟨inductionHypothesis others onlyLarger.1, fun front part nonempty split occurs => ?_⟩
      exact onlyLarger.2 front part nonempty split
        (occurrence_stays extended plain pieces others part nonempty occurs)
    cases piece with
    | char c => exact block [c] only
    | mark other =>
      cases value : values other with
      | some text =>
        simp only [marked, List.flatMap_cons, marks, value, extended other text value] at only ⊢
        exact block text only
      | none =>
        by_cases same : other = name
        · subst same
          simp only [marked, List.flatMap_cons, marks, value, unset, if_true] at only ⊢
          exact inductionHypothesis others only
        · have rest : OnlyMarked (b.placeholder name) (b.marked larger name pieces) := by
            simp only [marked, List.flatMap_cons, marks] at only
            cases found : larger other with
            | some text =>
              rw [found] at only
              exact ((onlyMarked_append _ _ _).1 only).1
            | none =>
              simp only [found, if_neg same] at only
              exact ((onlyMarked_append _ _ _).1 only).1
          simp only [marked, List.flatMap_cons, marks, value, if_neg same]
          refine (onlyMarked_append _ _ _).2
            ⟨inductionHypothesis others rest, fun front part nonempty split => ?_⟩
          have otherPlain := plainMarks other List.mem_cons_self
          exact plain.not_inside otherPlain (Ne.symm same) nonempty split

end Extension

/-- The loop over the names of a map of values: replace one placeholder after the other. -/
def expandEach (values : FiniteMap (List α) (List α)) (order : List (List α)) (text : List α) :
    List α :=
  order.foldl
    (fun text name => replaceAll (b.placeholder name) ((values.lookup name).getD []) text) text

/-- No placeholder is spelled in the text in which all other names have their values,
except where the text has it and except if it is replaced by itself. -/
def Separated (values : FiniteMap (List α) (List α)) (text : List α) : Prop :=
  ∀ name value, values.lookup name = some value →
    value = b.placeholder name ∨
      OnlyMarked (b.placeholder name) (b.marked (values.erase name).lookup name (b.cut text))

variable {b} {values : FiniteMap (List α) (List α)} {text : List α}

/-- Where the names are kept apart, each round of a part of the map does what is meant. -/
theorem expandEach_separated (plain : ∀ name ∈ values, b.Plain name)
    (separated : b.Separated values text) {part : FiniteMap (List α) (List α)}
    (within : PartOf part values) (order : List (List α)) (distinct : order.Nodup)
    (listed : ∀ name ∈ order, name ∈ part) :
    b.expandEach part order text = b.expand (valuesOf part order) text := by
  induction order using List.reverseRecOn with
  | nil =>
    have empty : valuesOf part [] = fun _ => none := by
      funext name
      simp [valuesOf]
    rw [empty, expand_none]
    simp [expandEach]
  | append_singleton done name inductionHypothesis =>
    have earlier : b.expandEach part done text = b.expand (valuesOf part done) text :=
      inductionHypothesis (List.Nodup.of_append_left distinct)
        fun other inside => listed other (List.mem_append_left _ inside)
    obtain ⟨value, found⟩ := Option.isSome_iff_exists.1
      (Finmap.lookup_isSome.2 (listed name (by simp)))
    have fresh : name ∉ done := by
      intro inside
      exact (List.disjoint_of_nodup_append distinct) inside (by simp)
    have unset : valuesOf part done name = none := by simp [valuesOf, fresh]
    have updated : Function.update (valuesOf part done) name (some value) =
        valuesOf part (done ++ [name]) := by
      funext other
      by_cases same : other = name
      · subst same
        simp [valuesOf, found]
      · simp [valuesOf, same]
    have smaller : ∀ other text, valuesOf part done other = some text →
        (values.erase name).lookup other = some text := by
      intro other text chosen
      simp only [valuesOf] at chosen
      split_ifs at chosen with inside
      have differ : other ≠ name := fun same => fresh (same ▸ inside)
      rw [Finmap.lookup_erase_ne differ]
      exact within other text chosen
    have known := within name value found
    have namePlain := plain name (Finmap.mem_of_lookup_eq_some known)
    have meant := (b.round_iff (valuesOf part done) name value namePlain unset (b.cut text)).2
      ((separated name value known).imp id
        (onlyMarked_of_extension smaller namePlain _ (b.plainMarks_cut text)
          (Finmap.lookup_erase _ _)))
    rw [updated] at meant
    have last : b.expandEach part (done ++ [name]) text =
        replaceAll (b.placeholder name) value (b.expandEach part done text) := by
      simp [expandEach, found]
    rw [last, earlier]
    exact meant

/-- In whatever order the names of a map are replaced, the result is the text expanded in
one pass, for the map and every part of it, exactly when the names are kept apart. -/
theorem expandEach_iff (plain : ∀ name ∈ values, b.Plain name) :
    (∀ part, PartOf part values → ∀ order, IterationOrder part order →
        b.expandEach part order text = b.expand part.lookup text) ↔ b.Separated values text := by
  constructor
  · intro meant name value found
    -- Compare the map without the name to the map with the name visited last.
    have without : PartOf (values.erase name) values := by
      intro other text chosen
      by_cases same : other = name
      · rw [same, Finmap.lookup_erase] at chosen
        cases chosen
      · rwa [Finmap.lookup_erase_ne same] at chosen
    obtain ⟨order, visits⟩ := exists_iterationOrder (values.erase name)
    have fresh : name ∉ order := fun inside =>
      (Finmap.mem_erase.1 ((visits.2 name).1 inside)).1 rfl
    have all : IterationOrder values (order ++ [name]) := by
      refine ⟨List.nodup_append.2 ⟨visits.1, List.nodup_singleton name, ?_⟩, fun other => ?_⟩
      · intro first inside second single same
        rw [List.mem_singleton] at single
        exact fresh (single ▸ same ▸ inside)
      · rw [List.mem_append, visits.2 other, Finmap.mem_erase, List.mem_singleton]
        by_cases same : other = name
        · simp [same, Finmap.mem_of_lookup_eq_some found]
        · simp [same]
    have before := meant _ without order visits
    have after := meant values (fun _ _ chosen => chosen) _ all
    have sameValues : b.expandEach values order text =
        b.expandEach (values.erase name) order text := by
      unfold expandEach
      refine List.foldl_ext _ _ _ fun current other inside => ?_
      have differ : other ≠ name := fun same => fresh (same ▸ inside)
      rw [Finmap.lookup_erase_ne differ]
    have last : b.expandEach values (order ++ [name]) text =
        replaceAll (b.placeholder name) value (b.expandEach values order text) := by
      simp [expandEach, found]
    have updated : Function.update (values.erase name).lookup name (some value) =
        values.lookup := by
      funext other
      by_cases same : other = name
      · rw [same, Function.update_self, found]
      · rw [Function.update_of_ne same, Finmap.lookup_erase_ne same]
    refine (b.round_iff (values.erase name).lookup name value
      (plain name (Finmap.mem_of_lookup_eq_some found)) (Finmap.lookup_erase _ _) _).1 ?_
    rw [updated]
    exact (congrArg _ before).symm.trans
      ((congrArg _ sameValues).symm.trans (last.symm.trans after))
  · intro separated part within order visits
    rw [expandEach_separated plain separated within order visits.1
      fun name inside => (visits.2 name).1 inside]
    have everything : valuesOf part order = part.lookup := by
      funext name
      by_cases inside : name ∈ order
      · simp [valuesOf, inside]
      · have missing : part.lookup name = none :=
          Finmap.lookup_eq_none.2 fun member => inside ((visits.2 name).2 member)
        simp [valuesOf, inside, missing]
    rw [everything]

end Brackets

end FluffyCore.Library.Placeholders
