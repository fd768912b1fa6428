import FluffyCore.CeFilter.Predicate
import FluffyCore.Library.QuotedText

/-!
# The filter lexer

The lexer reads the expression rune by rune and emits tokens with their rune
offset. Reserved words are recognised after upper-casing the whole word. A
string ends at the quote that opened it; a backslash takes the next rune as it is.

The rune classes and the case mapping come from Go's Unicode tables, which are a
parameter.
-/

namespace FluffyCore.CeFilter

open Library.QuotedText

inductive TokenKind where
  | tokEOF
  | tokIdent
  | tokString
  | tokEq
  | tokNe
  | tokLike
  | tokIn
  | tokExists
  | tokAnd
  | tokOr
  | tokNot
  | tokLParen
  | tokRParen
  | tokComma
deriving DecidableEq

structure Token where
  kind : TokenKind
  val : String
  pos : Nat
deriving DecidableEq

/-- A reported error, or a model computation that was cut short. The entry point
never returns the second one. -/
inductive ParseError where
  | failure (message : String)
  | fuelExhausted
deriving DecidableEq

/-- `token.String`, used in error messages. -/
def Token.string (unicode : Unicode) (t : Token) : String :=
  match t.kind with
  | .tokEOF => "<EOF>"
  | .tokIdent => "IDENT(" ++ t.val ++ ")"
  | .tokString => "STRING(" ++ quote unicode t.val ++ ")"
  | _ => t.val

/-- Runes a word may continue with. -/
def wordRune (unicode : Unicode) (c : Char) : Bool :=
  unicode.isLetter c || unicode.isDigit c || c == '_' || c == '-' || c == '.'

/-- Read up to the closing quote. A final backslash with nothing after it is part
of a string that never ends. -/
def readString (quoteChar : Char) : List Char → Option (List Char × List Char)
  | [] => none
  | ch :: rest =>
    if ch = quoteChar then some ([], rest)
    else if ch = '\\' then
      match rest with
      | [] => none
      | next :: rest => (readString quoteChar rest).map (fun read => (next :: read.1, read.2))
    else (readString quoteChar rest).map (fun read => (ch :: read.1, read.2))

/-- Resolve reserved words, in any case, from plain identifiers. -/
def emitWord (unicode : Unicode) (word : String) (pos : Nat) : Token :=
  match String.ofList (word.toList.map unicode.toUpper) with
  | "AND" => ⟨.tokAnd, "AND", pos⟩
  | "OR" => ⟨.tokOr, "OR", pos⟩
  | "NOT" => ⟨.tokNot, "NOT", pos⟩
  | "LIKE" => ⟨.tokLike, "LIKE", pos⟩
  | "IN" => ⟨.tokIn, "IN", pos⟩
  | "EXISTS" => ⟨.tokExists, "EXISTS", pos⟩
  | _ => ⟨.tokIdent, word, pos⟩

/-- The main loop on the runes that remain from a position on. Each round skips
white space and then takes at least one rune, so a budget of one more than the
number of runes is enough. -/
def tokenize (unicode : Unicode) : Nat → Nat → List Char → Except ParseError (List Token)
  | 0, _, _ => .error .fuelExhausted
  | fuel + 1, pos, input =>
    let start := pos + (input.takeWhile unicode.isSpace).length
    match input.dropWhile unicode.isSpace with
    | [] => .ok [⟨.tokEOF, "", start⟩]
    | ch :: rest =>
      if ch = '(' then
        (tokenize unicode fuel (start + 1) rest).map (⟨.tokLParen, "(", start⟩ :: ·)
      else if ch = ')' then
        (tokenize unicode fuel (start + 1) rest).map (⟨.tokRParen, ")", start⟩ :: ·)
      else if ch = ',' then
        (tokenize unicode fuel (start + 1) rest).map (⟨.tokComma, ",", start⟩ :: ·)
      else if ch = '!' ∧ rest.head? = some '=' then
        (tokenize unicode fuel (start + 2) rest.tail).map (⟨.tokNe, "!=", start⟩ :: ·)
      else if ch = '=' then
        (tokenize unicode fuel (start + 1) rest).map (⟨.tokEq, "=", start⟩ :: ·)
      else if ch = '"' ∨ ch = '\'' then
        match readString ch rest with
        | none => .error (.failure
            ("unterminated string starting at position " ++ toString (start + 1 + rest.length)))
        | some (text, remaining) =>
          (tokenize unicode fuel (start + 1 + rest.length - remaining.length) remaining).map
            (⟨.tokString, String.ofList text, start⟩ :: ·)
      else if unicode.isLetter ch || ch == '_' then
        let word := (ch :: rest).takeWhile (wordRune unicode)
        (tokenize unicode fuel (start + word.length)
            ((ch :: rest).dropWhile (wordRune unicode))).map
          (emitWord unicode (String.ofList word) start :: ·)
      else .error (.failure ("unexpected character " ++ quote unicode (String.ofList [ch]) ++
        " at position " ++ toString start))

/-- Lex a whole expression. -/
def lex (unicode : Unicode) (input : String) : Except ParseError (List Token) :=
  tokenize unicode (input.toList.length + 1) 0 input.toList

/-- Mapping over a result changes no error. -/
theorem map_exhausted {α β : Type} (f : α → β) (result : Except ParseError α)
    (failed : result.map f = .error .fuelExhausted) : result = .error .fuelExhausted := by
  cases result with
  | error e => simpa [Except.map] using failed
  | ok value => simp [Except.map] at failed

/-- A string literal takes at least its closing quote. -/
theorem readString_shorter (quoteChar : Char) (input text remaining : List Char)
    (read : readString quoteChar input = some (text, remaining)) :
    remaining.length < input.length := by
  fun_induction readString quoteChar input generalizing text remaining with
  | case1 => simp at read
  | case2 rest =>
    simp only [Option.some.injEq, Prod.mk.injEq] at read
    simp [read.2]
  | case3 => simp at read
  | case4 next rest _ inductionHypothesis =>
    obtain ⟨inner, found, same⟩ := Option.map_eq_some_iff.mp read
    have shorter := inductionHypothesis inner.1 inner.2 found
    simp only [Prod.mk.injEq] at same
    simp only [List.length_cons, ← same.2]
    omega
  | case5 ch rest _ _ inductionHypothesis =>
    obtain ⟨inner, found, same⟩ := Option.map_eq_some_iff.mp read
    have shorter := inductionHypothesis inner.1 inner.2 found
    simp only [Prod.mk.injEq] at same
    simp only [List.length_cons, ← same.2]
    omega

/-- A budget above the number of runes is never used up: every round that goes on
has taken a rune. -/
theorem tokenize_within_budget (unicode : Unicode) (fuel pos : Nat) (input : List Char)
    (enough : input.length < fuel) :
    tokenize unicode fuel pos input ≠ .error .fuelExhausted := by
  induction fuel generalizing pos input with
  | zero => omega
  | succ fuel inductionHypothesis =>
    intro failed
    have skipped : (input.dropWhile unicode.isSpace).length ≤ input.length :=
      (List.dropWhile_suffix _).length_le
    simp only [tokenize] at failed
    split at failed
    · simp at failed
    · next ch rest found =>
      rw [found, List.length_cons] at skipped
      repeat' split at failed
      all_goals first
        | exact absurd failed (by simp)
        | exact inductionHypothesis _ _ (by first | omega | (simp; omega)) (map_exhausted _ _ failed)
        | skip
      · next text remaining read =>
        have shorter := readString_shorter ch rest text remaining read
        exact inductionHypothesis _ _ (by omega) (map_exhausted _ _ failed)
      · next word =>
        have first : wordRune unicode ch = true := by
          simp only [Bool.or_eq_true] at word
          rcases word with letter | underscore
          · simp [wordRune, letter]
          · simp [wordRune, underscore]
        have taken : ((ch :: rest).dropWhile (wordRune unicode)).length ≤ rest.length := by
          rw [List.dropWhile_cons_of_pos first]
          exact (List.dropWhile_suffix _).length_le
        exact inductionHypothesis _ _ (by omega) (map_exhausted _ _ failed)

/-- Lexing a whole expression always ends with tokens or a reported error. -/
theorem lex_finishes (unicode : Unicode) (input : String) :
    lex unicode input ≠ .error .fuelExhausted :=
  tokenize_within_budget unicode _ 0 input.toList (Nat.lt_succ_self _)

end FluffyCore.CeFilter
