import FluffyCore.CeFilter.ParserCorrectness

/-!
# Printed filters

`String` prints a predicate with its operators spelled out, string literals quoted, and
parentheses around every AND and OR. The printed text is read again from right to left: what
follows a printed piece is lexed already, and the piece adds its tokens in front of it. Only
the kinds and the texts of the tokens matter here, not where they stand.

Quoting and the backslash rule of the lexer are inverse on runes that are printed as they are
and on the two runes that are printed with a backslash. Other escapes are read differently, so
the literals are restricted to such runes.
-/

namespace FluffyCore.CeFilter

open Library.QuotedText

/-- `Predicate.String` -/
def Predicate.string (unicode : Unicode) : Predicate → String
  | .eqPred key val => key ++ " = " ++ quote unicode val
  | .nePred key val => key ++ " != " ++ quote unicode val
  | .likePred key pattern _ => key ++ " LIKE " ++ quote unicode pattern
  | .inPred key _ repr => key ++ " IN (" ++ repr ++ ")"
  | .existsPred key => "EXISTS " ++ key
  | .andPred left right => "(" ++ left.string unicode ++ " AND " ++ right.string unicode ++ ")"
  | .orPred left right => "(" ++ left.string unicode ++ " OR " ++ right.string unicode ++ ")"
  | .notPred inner => "NOT " ++ inner.string unicode

/-- What the parser looks at in a token. -/
abbrev Shape : Type := TokenKind × String

def Token.shape (t : Token) : Shape := (t.kind, t.val)

/-- A text is lexed to tokens of the given shapes, wherever it stands. -/
def Lexed (unicode : Unicode) (input : List Char) (shapes : List Shape) : Prop :=
  ∀ pos fuel, input.length < fuel →
    ∃ tokens, tokenize unicode fuel pos input = .ok tokens ∧ tokens.map Token.shape = shapes

section Tables

variable (unicode : Unicode) {c : Char}

/-- A rune that is neither a letter nor an underscore starts no word, and is none of those a
word starts with. -/
theorem wordStart_ne {start special : Char} (ascii : special.toNat < 128)
    (other : special.isAlpha = false) (notUnderscore : special ≠ '_')
    (begins : (unicode.isLetter start || start == '_') = true) : start ≠ special := by
  rintro rfl
  rw [unicode.ascii_letter start ascii, other, Bool.false_or, beq_iff_eq] at begins
  exact notUnderscore begins

/-- A rune that starts a word may stand inside of one. -/
theorem wordRune_of_start {start : Char}
    (begins : (unicode.isLetter start || start == '_') = true) :
    wordRune unicode start = true := by
  rw [Bool.or_eq_true] at begins
  rcases begins with letter | underscore
  · simp [wordRune, letter]
  · simp [wordRune, underscore]

/-- A rune that starts a word is not white space. -/
theorem isSpace_of_start {start : Char}
    (begins : (unicode.isLetter start || start == '_') = true) :
    unicode.isSpace start = false := by
  by_contra space
  rw [Bool.not_eq_false] at space
  rw [(unicode.space_apart start space).1, Bool.false_or, beq_iff_eq] at begins
  subst begins
  rw [unicode.isSpace_eq_false (by decide) (by decide)] at space
  cases space

/-- ASCII runes that no word goes on with. -/
theorem wordRune_eq_false (ascii : c.toNat < 128) (notAlpha : c.isAlpha = false)
    (notDigit : c.isDigit = false) (others : c ≠ '_' ∧ c ≠ '-' ∧ c ≠ '.') :
    wordRune unicode c = false := by
  simp [wordRune, unicode.ascii_letter c ascii, unicode.ascii_digit c ascii, notAlpha, notDigit,
    others]

end Tables

section Lexing

variable {unicode : Unicode} {rest input : List Char} {shapes : List Shape} {shape : Shape}

/-- The empty text is lexed to the end. -/
theorem lexed_nil : Lexed unicode [] [(.tokEOF, "")] := by
  intro pos fuel enough
  obtain ⟨fuel, rfl⟩ := Nat.exists_eq_add_one.2 enough
  exact ⟨[⟨.tokEOF, "", pos⟩], rfl, rfl⟩

/-- One round of the lexer takes a token from the front. -/
theorem Lexed.cons (lexed : Lexed unicode rest shapes) (shorter : rest.length < input.length)
    (round : ∀ fuel pos, ∃ next token, Token.shape token = shape ∧
      tokenize unicode (fuel + 1) pos input =
        (tokenize unicode fuel next rest).map (token :: ·)) :
    Lexed unicode input (shape :: shapes) := by
  intro pos fuel enough
  obtain ⟨fuel, rfl⟩ := Nat.exists_eq_add_one.2 (Nat.lt_of_le_of_lt (Nat.zero_le _) enough)
  obtain ⟨next, token, isShape, taken⟩ := round fuel pos
  obtain ⟨tokens, lexedRest, shaped⟩ := lexed next fuel (by omega)
  refine ⟨token :: tokens, ?_, ?_⟩
  · rw [taken, lexedRest]
    rfl
  · rw [List.map_cons, isShape, shaped]

/-- A blank in front makes no difference. -/
theorem Lexed.space (lexed : Lexed unicode rest shapes) : Lexed unicode (' ' :: rest) shapes := by
  have blank : unicode.isSpace ' ' = true := by
    rw [unicode.ascii_space ' ' (by decide)]
    decide
  intro pos fuel enough
  rw [List.length_cons] at enough
  obtain ⟨tokens, lexedRest, shaped⟩ := lexed (pos + 1) fuel (by omega)
  refine ⟨tokens, ?_, shaped⟩
  obtain ⟨fuel, rfl⟩ := Nat.exists_eq_add_one.2 (Nat.lt_of_le_of_lt (Nat.zero_le _) enough)
  have start : pos + ((' ' :: rest).takeWhile unicode.isSpace).length =
      pos + 1 + (rest.takeWhile unicode.isSpace).length := by
    rw [List.takeWhile_cons_of_pos blank, List.length_cons]
    omega
  rw [← lexedRest]
  simp only [tokenize, start, List.dropWhile_cons_of_pos blank]

/-- An opening parenthesis is a token, whatever follows. -/
theorem Lexed.lparen (lexed : Lexed unicode rest shapes) :
    Lexed unicode ('(' :: rest) ((.tokLParen, "(") :: shapes) := by
  have visible := unicode.isSpace_eq_false (c := '(') (by decide) (by decide)
  refine lexed.cons (Nat.lt_succ_self _) fun fuel pos => ⟨pos + 1, ⟨.tokLParen, "(", pos⟩, rfl, ?_⟩
  simp [tokenize, visible]

/-- A closing parenthesis is a token, whatever follows. -/
theorem Lexed.rparen (lexed : Lexed unicode rest shapes) :
    Lexed unicode (')' :: rest) ((.tokRParen, ")") :: shapes) := by
  have visible := unicode.isSpace_eq_false (c := ')') (by decide) (by decide)
  refine lexed.cons (Nat.lt_succ_self _) fun fuel pos => ⟨pos + 1, ⟨.tokRParen, ")", pos⟩, rfl, ?_⟩
  simp [tokenize, visible]

/-- A comma is a token, whatever follows. -/
theorem Lexed.comma (lexed : Lexed unicode rest shapes) :
    Lexed unicode (',' :: rest) ((.tokComma, ",") :: shapes) := by
  have visible := unicode.isSpace_eq_false (c := ',') (by decide) (by decide)
  refine lexed.cons (Nat.lt_succ_self _) fun fuel pos => ⟨pos + 1, ⟨.tokComma, ",", pos⟩, rfl, ?_⟩
  simp [tokenize, visible]

/-- An equals sign is a token, whatever follows. -/
theorem Lexed.eq (lexed : Lexed unicode rest shapes) :
    Lexed unicode ('=' :: rest) ((.tokEq, "=") :: shapes) := by
  have visible := unicode.isSpace_eq_false (c := '=') (by decide) (by decide)
  refine lexed.cons (Nat.lt_succ_self _) fun fuel pos => ⟨pos + 1, ⟨.tokEq, "=", pos⟩, rfl, ?_⟩
  simp [tokenize, visible]

/-- The inequality sign is one token, whatever follows. -/
theorem Lexed.ne (lexed : Lexed unicode rest shapes) :
    Lexed unicode ('!' :: '=' :: rest) ((.tokNe, "!=") :: shapes) := by
  have visible := unicode.isSpace_eq_false (c := '!') (by decide) (by decide)
  refine lexed.cons (Nat.lt_succ_of_lt (Nat.lt_succ_self _)) fun fuel pos =>
    ⟨pos + 2, ⟨.tokNe, "!=", pos⟩, rfl, ?_⟩
  simp [tokenize, visible]

end Lexing

section Literals

variable {unicode : Unicode}

/-- The quoting verb prints every rune as it is, or it is a quote or a backslash. -/
def PlainLiteral (unicode : Unicode) (text : String) : Prop :=
  ∀ c ∈ text.toList, unicode.isPrint c = true ∨ c = '"' ∨ c = '\\'

/-- A literal ends at the quote that opened it. -/
theorem readString_close (quoteChar : Char) (rest : List Char) :
    readString quoteChar (quoteChar :: rest) = some ([], rest) := by
  rw [readString.eq_def]
  simp

/-- A rune that is neither the quote nor a backslash is part of a literal. -/
theorem readString_cons {quoteChar c : Char} (notQuote : c ≠ quoteChar) (notEscape : c ≠ '\\')
    (rest : List Char) : readString quoteChar (c :: rest) =
      (readString quoteChar rest).map fun read => (c :: read.1, read.2) := by
  rw [readString.eq_def]
  simp [notQuote, notEscape]

/-- After a backslash the next rune is part of a literal, whatever it is. -/
theorem readString_escape {quoteChar : Char} (notQuote : '\\' ≠ quoteChar) (c : Char)
    (rest : List Char) : readString quoteChar ('\\' :: c :: rest) =
      (readString quoteChar rest).map fun read => (c :: read.1, read.2) := by
  rw [readString.eq_def]
  simp [notQuote]

/-- Quoting is undone by the lexer's backslash rule. -/
theorem readString_quoteRunes {text : List Char}
    (plain : ∀ c ∈ text, unicode.isPrint c = true ∨ c = '"' ∨ c = '\\') (rest : List Char) :
    readString '"' (text.flatMap (quoteRune unicode) ++ '"' :: rest) = some (text, rest) := by
  induction text with
  | nil => exact readString_close '"' rest
  | cons c text inductionHypothesis =>
    have later := inductionHypothesis fun d inside => plain d (List.mem_cons_of_mem _ inside)
    rw [List.flatMap_cons, List.append_assoc]
    by_cases escaped : c = '"' ∨ c = '\\'
    · rw [quoteRune_escaped unicode escaped, List.cons_append, List.singleton_append,
        readString_escape (by decide), later]
      rfl
    · have printable : unicode.isPrint c = true :=
        (plain c List.mem_cons_self).resolve_right escaped
      rw [quoteRune_printable unicode escaped printable]
      rw [not_or] at escaped
      rw [List.singleton_append, readString_cons escaped.1 escaped.2, later]
      rfl

/-- A printed literal is lexed to the literal. -/
theorem Lexed.literal {rest : List Char} {shapes : List Shape} (lexed : Lexed unicode rest shapes)
    {text : String} (plain : PlainLiteral unicode text) :
    Lexed unicode ((quote unicode text).toList ++ rest) ((.tokString, text) :: shapes) := by
  have visible := unicode.isSpace_eq_false (c := '"') (by decide) (by decide)
  have read := readString_quoteRunes plain rest
  rw [toList_quote, List.cons_append, List.append_assoc, List.singleton_append]
  generalize text.toList.flatMap (quoteRune unicode) ++ '"' :: rest = body at read
  refine lexed.cons (Nat.lt_succ_of_lt (readString_shorter '"' _ _ _ read)) fun fuel pos =>
    ⟨pos + 1 + body.length - rest.length, ⟨.tokString, text, pos⟩, rfl, ?_⟩
  simp [tokenize, visible, read]

/-- The printed values of an IN list are lexed to the values and the commas between them. -/
def listShapes : List String → List Shape
  | [] => []
  | [value] => [(.tokString, value)]
  | value :: next :: values =>
    (.tokString, value) :: (.tokComma, ",") :: listShapes (next :: values)

/-- The printed values of an IN list are lexed to these values with commas between them. -/
theorem Lexed.list {rest : List Char} {shapes : List Shape} (lexed : Lexed unicode rest shapes)
    (values : List String) (plain : ∀ value ∈ values, PlainLiteral unicode value) :
    Lexed unicode ((", ".intercalate (values.map (quote unicode))).toList ++ rest)
      (listShapes values ++ shapes) := by
  rw [String.toList_intercalate]
  induction values with
  | nil => exact lexed
  | cons value values inductionHypothesis =>
    have later := inductionHypothesis fun other inside =>
      plain other (List.mem_cons_of_mem _ inside)
    have first := plain value List.mem_cons_self
    cases values with
    | nil =>
      have only := lexed.literal first
      simpa [listShapes] using only
    | cons next values =>
      have more := later.space.comma.literal first
      simp only [List.map_cons, List.intercalate_cons_cons, List.append_assoc]
      exact more

end Literals

section Words

variable {unicode : Unicode} {rest : List Char} {shapes : List Shape}

/-- What stands here does not go on with a word. -/
def Stops (unicode : Unicode) : List Char → Prop
  | [] => True
  | c :: _ => wordRune unicode c = false

/-- A word ends before a space. -/
theorem stops_space (rest : List Char) : Stops unicode (' ' :: rest) :=
  wordRune_eq_false unicode (by decide) (by decide) (by decide) (by decide)

/-- A word ends before a closing parenthesis. -/
theorem stops_rparen (rest : List Char) : Stops unicode (')' :: rest) :=
  wordRune_eq_false unicode (by decide) (by decide) (by decide) (by decide)

/-- A word, as the lexer reads one. -/
structure IsWord (unicode : Unicode) (word : List Char) : Prop where
  begins : ∃ start tail, word = start :: tail ∧ (unicode.isLetter start || start == '_') = true
  runes : ∀ c ∈ word, wordRune unicode c = true

/-- A word is read up to where it stops. -/
theorem takeWhile_word {word : List Char} (runes : ∀ c ∈ word, wordRune unicode c = true)
    (stops : Stops unicode rest) : (word ++ rest).takeWhile (wordRune unicode) = word := by
  rw [List.takeWhile_append_of_pos runes]
  cases rest with
  | nil => simp
  | cons c rest =>
    have stopped : wordRune unicode c = false := stops
    simp [stopped]

/-- What follows a word is left for the next token. -/
theorem dropWhile_word {word : List Char} (runes : ∀ c ∈ word, wordRune unicode c = true)
    (stops : Stops unicode rest) : (word ++ rest).dropWhile (wordRune unicode) = rest := by
  rw [List.dropWhile_append_of_pos runes]
  cases rest with
  | nil => rfl
  | cons c rest =>
    have stopped : wordRune unicode c = false := stops
    simp [stopped]

/-- Words are kept apart from what follows them. -/
theorem Lexed.word (lexed : Lexed unicode rest shapes) (stops : Stops unicode rest)
    {word : List Char} (isWord : IsWord unicode word) :
    Lexed unicode (word ++ rest)
      ((emitWord unicode (String.ofList word) 0).shape :: shapes) := by
  obtain ⟨start, tail, rfl, begins⟩ := isWord.begins
  have visible := isSpace_of_start unicode begins
  have taken := takeWhile_word isWord.runes stops
  have dropped := dropWhile_word isWord.runes stops
  have shorter : rest.length < (start :: tail ++ rest).length := by
    rw [List.length_append, List.length_cons]
    omega
  refine lexed.cons shorter fun fuel pos =>
    ⟨pos + (start :: tail).length, emitWord unicode (String.ofList (start :: tail)) pos, ?_, ?_⟩
  · unfold emitWord
    split <;> rfl
  · rw [List.cons_append] at taken dropped ⊢
    have none_of : start ≠ '(' ∧ start ≠ ')' ∧ start ≠ ',' ∧ start ≠ '!' ∧ start ≠ '=' ∧
        start ≠ '"' ∧ start ≠ '\'' :=
      ⟨wordStart_ne unicode (by decide) (by decide) (by decide) begins,
        wordStart_ne unicode (by decide) (by decide) (by decide) begins,
        wordStart_ne unicode (by decide) (by decide) (by decide) begins,
        wordStart_ne unicode (by decide) (by decide) (by decide) begins,
        wordStart_ne unicode (by decide) (by decide) (by decide) begins,
        wordStart_ne unicode (by decide) (by decide) (by decide) begins,
        wordStart_ne unicode (by decide) (by decide) (by decide) begins⟩
    obtain ⟨notOpen, notClose, notComma, notBang, notEq, notQuote, notApostrophe⟩ := none_of
    simp only [tokenize, List.takeWhile_cons_of_neg (by simpa using visible),
      List.dropWhile_cons_of_neg (by simpa using visible), List.length_nil, Nat.add_zero,
      notOpen, notClose, notComma, notBang, notEq, notQuote, notApostrophe, false_and, or_self,
      ↓reduceIte, begins, taken, dropped]

end Words

end FluffyCore.CeFilter
