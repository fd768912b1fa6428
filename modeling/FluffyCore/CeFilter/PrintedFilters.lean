import Mathlib.Data.List.TakeWhile
import FluffyCore.CeFilter.Printing

/-!
# Printing and parsing again

The keys of a parsed predicate are words that the lexer takes for identifiers, its LIKE
expressions are those of their patterns, and its IN lists print the values they hold. Such a
predicate prints as a text whose tokens derive it again: the printed parentheses make every
AND and OR a primary, and NOT stands before what is one already.
-/

namespace FluffyCore.CeFilter

open Library.Results Library.QuotedText

section Keys

variable {unicode : Unicode}

/-- A word that is not reserved. -/
structure Identifier (unicode : Unicode) (key : String) : Prop where
  isWord : IsWord unicode key.toList
  emitted : (emitWord unicode key 0).shape = (.tokIdent, key)

/-- The word the lexer reads is a word. -/
theorem isWord_takeWhile {ch : Char} (rest : List Char)
    (begins : (unicode.isLetter ch || ch == '_') = true) :
    IsWord unicode ((ch :: rest).takeWhile (wordRune unicode)) := by
  have first := wordRune_of_start unicode begins
  constructor
  · exact ⟨ch, rest.takeWhile (wordRune unicode), List.takeWhile_cons_of_pos first, begins⟩
  · intro c inside
    exact List.mem_takeWhile_imp inside

/-- A word that is lexed to an identifier is one. -/
theorem identifier_of_emitWord {word : List Char} {pos : Nat} (isWord : IsWord unicode word)
    (isIdent : (emitWord unicode (String.ofList word) pos).kind = .tokIdent) :
    Identifier unicode (emitWord unicode (String.ofList word) pos).val := by
  have emitted (place : Nat) : emitWord unicode (String.ofList word) place =
      ⟨.tokIdent, String.ofList word, place⟩ := by
    unfold emitWord at isIdent ⊢
    split at isIdent <;> first | rfl | cases isIdent
  rw [emitted]
  refine ⟨by rwa [String.toList_ofList], ?_⟩
  rw [emitted]
  rfl

/-- A map over tokens that are there is a map over all of them. -/
theorem map_eq_ok {token : Token} {result : Except ParseError (List Token)} {tokens : List Token}
    (mapped : result.map (token :: ·) = .ok tokens) :
    ∃ more, result = .ok more ∧ tokens = token :: more := by
  cases result with
  | error err => cases mapped
  | ok more => exact ⟨more, rfl, (Except.ok.inj mapped).symm⟩

/-- The identifiers of a lexed text. -/
theorem tokenize_identifiers (fuel pos : Nat) (input : List Char) (tokens : List Token)
    (lexed : tokenize unicode fuel pos input = .ok tokens) :
    ∀ t ∈ tokens, t.kind = .tokIdent → Identifier unicode t.val := by
  induction fuel generalizing pos input tokens with
  | zero => cases lexed
  | succ fuel inductionHypothesis =>
    have other : ∀ (token : Token) (more : List Token), token.kind ≠ .tokIdent →
        (∀ t ∈ more, t.kind = .tokIdent → Identifier unicode t.val) →
        ∀ t ∈ token :: more, t.kind = .tokIdent → Identifier unicode t.val := by
      intro token more notIdent later t inside isIdent
      rcases List.mem_cons.1 inside with rfl | inside
      · exact absurd isIdent notIdent
      · exact later t inside isIdent
    simp only [tokenize] at lexed
    split at lexed
    · cases lexed
      exact other _ _ (by simp) (by simp)
    · next ch rest found =>
      split_ifs at lexed with isOpen isClose isComma isNe isEq isQuote begins
      all_goals try obtain ⟨more, lexedMore, rfl⟩ := map_eq_ok lexed
      · exact other _ _ (by simp) (inductionHypothesis _ _ _ lexedMore)
      · exact other _ _ (by simp) (inductionHypothesis _ _ _ lexedMore)
      · exact other _ _ (by simp) (inductionHypothesis _ _ _ lexedMore)
      · exact other _ _ (by simp) (inductionHypothesis _ _ _ lexedMore)
      · exact other _ _ (by simp) (inductionHypothesis _ _ _ lexedMore)
      · split at lexed
        · cases lexed
        · next text remaining read =>
          obtain ⟨more, lexedMore, rfl⟩ := map_eq_ok lexed
          exact other _ _ (by simp) (inductionHypothesis _ _ _ lexedMore)
      · intro t inside isIdent
        rcases List.mem_cons.1 inside with rfl | inside
        · exact identifier_of_emitWord (isWord_takeWhile rest begins) isIdent
        · exact inductionHypothesis _ _ _ lexedMore t inside isIdent

end Keys

section Shaped

/-- What parsing guarantees of a predicate. -/
def Predicate.Shaped (unicode : Unicode) : Predicate → Prop
  | .eqPred key _ => Identifier unicode key
  | .nePred key _ => Identifier unicode key
  | .likePred key pattern rx => Identifier unicode key ∧ rx = globRegexp pattern
  | .inPred key vals repr => Identifier unicode key ∧ ∃ values : List String, values ≠ [] ∧
      vals = values.toFinset ∧ repr = ", ".intercalate (values.map (quote unicode))
  | .existsPred key => Identifier unicode key
  | .andPred left right => left.Shaped unicode ∧ right.Shaped unicode
  | .orPred left right => left.Shaped unicode ∧ right.Shaped unicode
  | .notPred inner => inner.Shaped unicode

/-- The same for what derivations of the other nonterminals stand for. -/
def Nonterminal.Shaped (unicode : Unicode) :
    (nonterminal : Nonterminal) → nonterminal.Meaning Predicate → Prop
  | .orChain, chain => ∀ left : Predicate, left.Shaped unicode → (chain left).Shaped unicode
  | .andChain, chain => ∀ left : Predicate, left.Shaped unicode → (chain left).Shaped unicode
  | .strings, values => values ≠ []
  | .orExpr, pred => pred.Shaped unicode
  | .andExpr, pred => pred.Shaped unicode
  | .notExpr, pred => pred.Shaped unicode
  | .primary, pred => pred.Shaped unicode

variable {unicode : Unicode}

/-- A predicate read from a derivation has the shape its nonterminal allows. -/
theorem Derivation.shaped {nonterminal : Nonterminal} {tokens : List Token}
    (derivation : Derivation nonterminal tokens)
    (identifiers : ∀ t ∈ tokens, t.kind = .tokIdent → Identifier unicode t.val) :
    nonterminal.Shaped unicode (derivation.read (predicates unicode)) := by
  induction derivation with
  | orExpr operand chain operandShaped chainShaped =>
    rw [List.forall_mem_append] at identifiers
    exact chainShaped identifiers.2 _ (operandShaped identifiers.1)
  | orEnd => exact fun _ shaped => shaped
  | orMore word isOr operand chain operandShaped chainShaped =>
    rw [List.forall_mem_cons, List.forall_mem_append] at identifiers
    intro left leftShaped
    exact chainShaped identifiers.2.2 _ ⟨leftShaped, operandShaped identifiers.2.1⟩
  | andExpr operand chain operandShaped chainShaped =>
    rw [List.forall_mem_append] at identifiers
    exact chainShaped identifiers.2 _ (operandShaped identifiers.1)
  | andEnd => exact fun _ shaped => shaped
  | andMore word isAnd operand chain operandShaped chainShaped =>
    rw [List.forall_mem_cons, List.forall_mem_append] at identifiers
    intro left leftShaped
    exact chainShaped identifiers.2.2 _ ⟨leftShaped, operandShaped identifiers.2.1⟩
  | not word isNot operand operandShaped =>
    rw [List.forall_mem_cons] at identifiers
    exact operandShaped identifiers.2
  | positive operand operandShaped => exact operandShaped identifiers
  | paren opening closing isOpening isClosing expr exprShaped =>
    rw [List.forall_mem_cons, List.forall_mem_append] at identifiers
    exact exprShaped identifiers.2.1
  | existsIdent word ident isExists isIdent => exact identifiers ident (by simp) isIdent
  | inList ident word opening closing isIdent isIn isOpening isClosing values valuesShaped =>
    have listed : values.read (predicates unicode) ≠ [] := valuesShaped fun t inside =>
      identifiers t (by simp [inside])
    exact ⟨identifiers ident (by simp) isIdent, _, listed, rfl, rfl⟩
  | likeString ident word string isIdent isLike isString =>
    exact ⟨identifiers ident (by simp) isIdent, rfl⟩
  | eqString ident sign string isIdent isEq isString => exact identifiers ident (by simp) isIdent
  | neString ident sign string isIdent isNe isString => exact identifiers ident (by simp) isIdent
  | lastString string isString => exact List.cons_ne_nil _ _
  | moreStrings string comma isString isComma values valuesShaped => exact List.cons_ne_nil _ _

/-- A parsed predicate has that shape. -/
theorem parse_shaped (expr : String) (p : Predicate) (accepted : parse unicode expr = .ok p) :
    p.Shaped unicode := by
  rw [parse_eq_lex_bind, bind_eq_ok_iff] at accepted
  obtain ⟨tokens, lexed, parsed⟩ := accepted
  rw [parseTokens, bind_eq_ok_iff] at parsed
  obtain ⟨⟨pred, rest⟩, ran, returned⟩ := parsed
  obtain ⟨consumed, derivation, split, rfl⟩ :=
    (parser_sound unicode _).or tokens pred rest ran
  have same : derivation.read (predicates unicode) = p := by
    dsimp only at returned
    split at returned
    · exact Except.ok.inj returned
    · cases returned
  rw [← same]
  refine derivation.shaped fun t inside => ?_
  exact tokenize_identifiers _ 0 expr.toList tokens lexed t
    (split ▸ List.mem_append_left rest inside)

end Shaped

section Prints

variable {unicode : Unicode}

/-- A predicate prints as a text with tokens of the given shapes, and tokens of these shapes
derive it. -/
structure Prints (unicode : Unicode) (p : Predicate) (shapes : List Shape) : Prop where
  lexes : ∀ rest restShapes, Stops unicode rest → Lexed unicode rest restShapes →
    Lexed unicode ((p.string unicode).toList ++ rest) (shapes ++ restShapes)
  derives : ∀ tokens, tokens.map Token.shape = shapes →
    ∃ derivation : Derivation .notExpr tokens, derivation.read (predicates unicode) = p

/-- Upper-case ASCII words are read the same with all tables. -/
theorem emitWord_upper {word : String}
    (upper : word.toList.all (fun c => c.toNat < 128 && c.toUpper == c) = true) :
    emitWord unicode word 0 = emitWord asciiTables word 0 := by
  have same : word.toList.map unicode.toUpper = word.toList.map Char.toUpper := by
    refine List.map_congr_left fun c inside => ?_
    have ascii := List.all_eq_true.1 upper c inside
    rw [Bool.and_eq_true, decide_eq_true_eq] at ascii
    exact unicode.ascii_upper c ascii.1
  simp only [emitWord, same]
  rfl

/-- ASCII letters make a word. -/
theorem isWord_alpha {word : String}
    (alpha : word.toList.all (fun c => c.toNat < 128 && c.isAlpha) = true)
    (notEmpty : word.toList ≠ []) : IsWord unicode word.toList := by
  have letters : ∀ c ∈ word.toList, unicode.isLetter c = true := by
    intro c inside
    have ascii := List.all_eq_true.1 alpha c inside
    rw [Bool.and_eq_true, decide_eq_true_eq] at ascii
    rw [unicode.ascii_letter c ascii.1, ascii.2]
  constructor
  · obtain ⟨start, tail, split⟩ := List.exists_cons_of_ne_nil notEmpty
    refine ⟨start, tail, split, ?_⟩
    rw [letters start (by simp [split]), Bool.true_or]
  · intro c inside
    simp [wordRune, letters c inside]

/-- A word of ASCII capitals that stands for a kind of token. -/
structure Reserved (word : String) (kind : TokenKind) : Prop where
  alpha : word.toList.all (fun c => c.toNat < 128 && c.isAlpha) = true
  upper : word.toList.all (fun c => c.toNat < 128 && c.toUpper == c) = true
  notEmpty : word.toList ≠ []
  emitted : (emitWord asciiTables word 0).shape = (kind, word)

/-- AND is a reserved word. -/
theorem reserved_and : Reserved "AND" .tokAnd := ⟨by decide, by decide, by decide, rfl⟩

/-- OR is a reserved word. -/
theorem reserved_or : Reserved "OR" .tokOr := ⟨by decide, by decide, by decide, rfl⟩

/-- NOT is a reserved word. -/
theorem reserved_not : Reserved "NOT" .tokNot := ⟨by decide, by decide, by decide, rfl⟩

/-- LIKE is a reserved word. -/
theorem reserved_like : Reserved "LIKE" .tokLike := ⟨by decide, by decide, by decide, rfl⟩

/-- IN is a reserved word. -/
theorem reserved_in : Reserved "IN" .tokIn := ⟨by decide, by decide, by decide, rfl⟩

/-- EXISTS is a reserved word. -/
theorem reserved_exists : Reserved "EXISTS" .tokExists := ⟨by decide, by decide, by decide, rfl⟩

/-- A reserved word is lexed to its token. -/
theorem Lexed.keyword {rest : List Char} {shapes : List Shape} (lexed : Lexed unicode rest shapes)
    (stops : Stops unicode rest) {word : String} {kind : TokenKind}
    (reserved : Reserved word kind) :
    Lexed unicode (word.toList ++ rest) ((kind, word) :: shapes) := by
  have read := lexed.word stops (isWord_alpha reserved.alpha reserved.notEmpty)
  rw [String.ofList_toList, emitWord_upper reserved.upper, reserved.emitted] at read
  exact read

/-- An identifier is lexed to itself. -/
theorem Lexed.identifier {rest : List Char} {shapes : List Shape}
    (lexed : Lexed unicode rest shapes) (stops : Stops unicode rest) {key : String}
    (identifier : Identifier unicode key) :
    Lexed unicode (key.toList ++ rest) ((.tokIdent, key) :: shapes) := by
  have read := lexed.word stops identifier.isWord
  rw [String.ofList_toList, identifier.emitted] at read
  exact read

/-- A derivation of equal tokens. -/
theorem derivation_of_eq {nonterminal : Nonterminal} {first second : List Token}
    {meaning : nonterminal.Meaning Predicate} (derivation : Derivation nonterminal first)
    (same : first = second) (reads : derivation.read (predicates unicode) = meaning) :
    ∃ derivation : Derivation nonterminal second,
      derivation.read (predicates unicode) = meaning := by
  subst same
  exact ⟨derivation, reads⟩

/-- The shape of a token is its kind and its value. -/
theorem shape_eq_iff {t : Token} {kind : TokenKind} {val : String} :
    t.shape = (kind, val) ↔ t.kind = kind ∧ t.val = val := by
  rw [Token.shape, Prod.mk.injEq]

/-- Three tokens of given shapes. -/
theorem exists_three {tokens : List Token} {first second third : Shape}
    (shaped : tokens.map Token.shape = [first, second, third]) :
    ∃ a b c, tokens = [a, b, c] ∧ a.shape = first ∧ b.shape = second ∧ c.shape = third := by
  obtain ⟨a, rest, rfl, isFirst, shaped⟩ := List.map_eq_cons_iff.1 shaped
  obtain ⟨b, rest, rfl, isSecond, shaped⟩ := List.map_eq_cons_iff.1 shaped
  obtain ⟨c, rest, rfl, isThird, shaped⟩ := List.map_eq_cons_iff.1 shaped
  rw [List.map_eq_nil_iff] at shaped
  subst shaped
  exact ⟨a, b, c, rfl, isFirst, isSecond, isThird⟩

/-- An equality prints as its identifier, the operator and its literal. -/
theorem prints_eq {key val : String} (identifier : Identifier unicode key)
    (plain : PlainLiteral unicode val) :
    Prints unicode (.eqPred key val) [(.tokIdent, key), (.tokEq, "="), (.tokString, val)] := by
  constructor
  · intro rest restShapes _ lexed
    have read := (lexed.literal plain).space.eq.space.identifier (stops_space _) identifier
    simpa [Predicate.string] using read
  · intro tokens shaped
    obtain ⟨ident, sign, string, rfl, isIdent, isEq, isString⟩ := exists_three shaped
    rw [shape_eq_iff] at isIdent isEq isString
    refine ⟨.positive (.eqString ident sign string isIdent.1 isEq.1 isString.1), ?_⟩
    simp only [Derivation.read, predicates, isIdent.2, isString.2]

/-- An inequality prints as its identifier, the operator and its literal. -/
theorem prints_ne {key val : String} (identifier : Identifier unicode key)
    (plain : PlainLiteral unicode val) :
    Prints unicode (.nePred key val) [(.tokIdent, key), (.tokNe, "!="), (.tokString, val)] := by
  constructor
  · intro rest restShapes _ lexed
    have read := (lexed.literal plain).space.ne.space.identifier (stops_space _) identifier
    simpa [Predicate.string] using read
  · intro tokens shaped
    obtain ⟨ident, sign, string, rfl, isIdent, isNe, isString⟩ := exists_three shaped
    rw [shape_eq_iff] at isIdent isNe isString
    refine ⟨.positive (.neString ident sign string isIdent.1 isNe.1 isString.1), ?_⟩
    simp only [Derivation.read, predicates, isIdent.2, isString.2]

/-- A LIKE comparison prints as its identifier, the operator and its pattern. -/
theorem prints_like {key pattern : String} (identifier : Identifier unicode key)
    (plain : PlainLiteral unicode pattern) :
    Prints unicode (.likePred key pattern (globRegexp pattern))
      [(.tokIdent, key), (.tokLike, "LIKE"), (.tokString, pattern)] := by
  constructor
  · intro rest restShapes _ lexed
    have after := ((lexed.literal plain).space.keyword (stops_space _) reserved_like).space
    have read := after.identifier (stops_space _) identifier
    simpa [Predicate.string] using read
  · intro tokens shaped
    obtain ⟨ident, word, string, rfl, isIdent, isLike, isString⟩ := exists_three shaped
    rw [shape_eq_iff] at isIdent isLike isString
    refine ⟨.positive (.likeString ident word string isIdent.1 isLike.1 isString.1), ?_⟩
    simp only [Derivation.read, predicates, isIdent.2, isString.2]

/-- An existence test prints as the operator and its identifier. -/
theorem prints_exists {key : String} (identifier : Identifier unicode key) :
    Prints unicode (.existsPred key) [(.tokExists, "EXISTS"), (.tokIdent, key)] := by
  constructor
  · intro rest restShapes stops lexed
    have after := (lexed.identifier stops identifier).space
    have read := after.keyword (stops_space _) reserved_exists
    simpa [Predicate.string] using read
  · intro tokens shaped
    obtain ⟨word, rest, rfl, isExists, shaped⟩ := List.map_eq_cons_iff.1 shaped
    obtain ⟨ident, rest, rfl, isIdent, shaped⟩ := List.map_eq_cons_iff.1 shaped
    rw [List.map_eq_nil_iff] at shaped
    subst shaped
    rw [shape_eq_iff] at isExists isIdent
    refine ⟨.positive (.existsIdent word ident isExists.1 isIdent.1), ?_⟩
    simp only [Derivation.read, predicates, isIdent.2]

/-- Tokens of the shapes of an IN list derive its values. -/
theorem derives_list (unicode : Unicode) (values : List String) (notEmpty : values ≠ [])
    (tokens : List Token) (shaped : tokens.map Token.shape = listShapes values) :
    ∃ derivation : Derivation .strings tokens,
      derivation.read (predicates unicode) = values := by
  induction values generalizing tokens with
  | nil => exact absurd rfl notEmpty
  | cons value values inductionHypothesis =>
    cases values with
    | nil =>
      obtain ⟨string, rest, rfl, isString, shaped⟩ := List.map_eq_cons_iff.1 shaped
      rw [List.map_eq_nil_iff] at shaped
      subst shaped
      rw [shape_eq_iff] at isString
      refine ⟨.lastString string isString.1, ?_⟩
      simp only [Derivation.read, isString.2]
    | cons next values =>
      obtain ⟨string, rest, rfl, isString, shaped⟩ := List.map_eq_cons_iff.1 shaped
      obtain ⟨comma, rest, rfl, isComma, shaped⟩ := List.map_eq_cons_iff.1 shaped
      obtain ⟨derivation, reads⟩ := inductionHypothesis (List.cons_ne_nil _ _) rest shaped
      rw [shape_eq_iff] at isString isComma
      refine ⟨.moreStrings string comma isString.1 isComma.1 derivation, ?_⟩
      simp only [Derivation.read, isString.2, reads]

/-- A list comparison prints its values between parentheses, with commas between them. -/
theorem prints_in {key : String} {values : List String} (identifier : Identifier unicode key)
    (notEmpty : values ≠ []) (plain : ∀ value ∈ values, PlainLiteral unicode value) :
    Prints unicode
      (.inPred key values.toFinset (", ".intercalate (values.map (quote unicode))))
      ((.tokIdent, key) :: (.tokIn, "IN") :: (.tokLParen, "(") ::
        (listShapes values ++ [(.tokRParen, ")")])) := by
  constructor
  · intro rest restShapes _ lexed
    have listed := (lexed.rparen.list values plain).lparen.space
    have after := (listed.keyword (stops_space _) reserved_in).space
    have read := after.identifier (stops_space _) identifier
    simpa [Predicate.string] using read
  · intro tokens shaped
    obtain ⟨ident, rest, rfl, isIdent, shaped⟩ := List.map_eq_cons_iff.1 shaped
    obtain ⟨word, rest, rfl, isIn, shaped⟩ := List.map_eq_cons_iff.1 shaped
    obtain ⟨opening, rest, rfl, isOpening, shaped⟩ := List.map_eq_cons_iff.1 shaped
    obtain ⟨listed, last, rfl, listShaped, lastShaped⟩ := List.map_eq_append_iff.1 shaped
    obtain ⟨closing, rest, rfl, isClosing, shaped⟩ := List.map_eq_cons_iff.1 lastShaped
    rw [List.map_eq_nil_iff] at shaped
    subst shaped
    rw [shape_eq_iff] at isIdent isIn isOpening isClosing
    obtain ⟨derivation, reads⟩ := derives_list unicode values notEmpty listed listShaped
    refine ⟨.positive (.inList ident word opening closing isIdent.1 isIn.1 isOpening.1 isClosing.1
      derivation), ?_⟩
    simp only [Derivation.read, isIdent.2, reads]
    simp only [predicates]

/-- A negation prints the operator before what it negates. -/
theorem Prints.not {inner : Predicate} {shapes : List Shape}
    (prints : Prints unicode inner shapes) :
    Prints unicode (.notPred inner) ((.tokNot, "NOT") :: shapes) := by
  constructor
  · intro rest restShapes stops lexed
    have after := (prints.lexes rest restShapes stops lexed).space
    have read := after.keyword (stops_space _) reserved_not
    simpa [Predicate.string] using read
  · intro tokens shaped
    obtain ⟨word, rest, rfl, isNot, shaped⟩ := List.map_eq_cons_iff.1 shaped
    obtain ⟨derivation, reads⟩ := prints.derives rest shaped
    refine ⟨.not word (shape_eq_iff.1 isNot).1 derivation, ?_⟩
    simp only [Derivation.read, reads]
    simp only [predicates]

/-- Two operands in parentheses. -/
theorem lexed_operands {left right : Predicate} {leftShapes rightShapes : List Shape}
    (leftPrints : Prints unicode left leftShapes) (rightPrints : Prints unicode right rightShapes)
    {word : String} {kind : TokenKind} (reserved : Reserved word kind) {rest : List Char}
    {restShapes : List Shape} (lexed : Lexed unicode rest restShapes) :
    Lexed unicode
      ('(' :: ((left.string unicode).toList ++
        ' ' :: (word.toList ++ ' ' :: ((right.string unicode).toList ++ ')' :: rest))))
      ((.tokLParen, "(") ::
        (leftShapes ++ (kind, word) :: (rightShapes ++ (.tokRParen, ")") :: restShapes))) := by
  have second := rightPrints.lexes _ _ (stops_rparen _) lexed.rparen
  have after := (second.space.keyword (stops_space _) reserved).space
  exact (leftPrints.lexes _ _ (stops_space _) after).lparen

/-- The tokens of two operands in parentheses. -/
theorem exists_paren {tokens : List Token} {left right : List Shape} {operator : Shape}
    (shaped : tokens.map Token.shape =
      (.tokLParen, "(") :: (left ++ operator :: (right ++ [(.tokRParen, ")")]))) :
    ∃ opening closing word first second,
      tokens = opening :: (first ++ word :: (second ++ [closing])) ∧
      opening.kind = .tokLParen ∧ closing.kind = .tokRParen ∧ word.shape = operator ∧
      first.map Token.shape = left ∧ second.map Token.shape = right := by
  obtain ⟨opening, rest, rfl, isOpening, shaped⟩ := List.map_eq_cons_iff.1 shaped
  obtain ⟨first, rest, rfl, firstShaped, shaped⟩ := List.map_eq_append_iff.1 shaped
  obtain ⟨word, rest, rfl, isWord, shaped⟩ := List.map_eq_cons_iff.1 shaped
  obtain ⟨second, rest, rfl, secondShaped, shaped⟩ := List.map_eq_append_iff.1 shaped
  obtain ⟨closing, rest, rfl, isClosing, shaped⟩ := List.map_eq_cons_iff.1 shaped
  rw [List.map_eq_nil_iff] at shaped
  subst shaped
  exact ⟨opening, closing, word, first, second, rfl, (shape_eq_iff.1 isOpening).1,
    (shape_eq_iff.1 isClosing).1, isWord, firstShaped, secondShaped⟩

/-- A conjunction prints both sides between parentheses. -/
theorem Prints.and {left right : Predicate} {leftShapes rightShapes : List Shape}
    (leftPrints : Prints unicode left leftShapes) (rightPrints : Prints unicode right rightShapes) :
    Prints unicode (.andPred left right) ((.tokLParen, "(") ::
      (leftShapes ++ (.tokAnd, "AND") :: (rightShapes ++ [(.tokRParen, ")")]))) := by
  constructor
  · intro rest restShapes _ lexed
    have read := lexed_operands leftPrints rightPrints reserved_and lexed
    simpa [Predicate.string] using read
  · intro tokens shaped
    obtain ⟨opening, closing, word, first, second, rfl, isOpening, isClosing, isAnd, firstShaped,
      secondShaped⟩ := exists_paren shaped
    obtain ⟨leftDerivation, leftReads⟩ := leftPrints.derives first firstShaped
    obtain ⟨rightDerivation, rightReads⟩ := rightPrints.derives second secondShaped
    refine derivation_of_eq (.positive (.paren opening closing isOpening isClosing
      (.orExpr (.andExpr leftDerivation
        (.andMore word (shape_eq_iff.1 isAnd).1 rightDerivation .andEnd)) .orEnd)))
      (by simp) ?_
    simp only [Derivation.read, leftReads, rightReads]
    simp only [predicates]

/-- A disjunction prints both sides between parentheses. -/
theorem Prints.or {left right : Predicate} {leftShapes rightShapes : List Shape}
    (leftPrints : Prints unicode left leftShapes) (rightPrints : Prints unicode right rightShapes) :
    Prints unicode (.orPred left right) ((.tokLParen, "(") ::
      (leftShapes ++ (.tokOr, "OR") :: (rightShapes ++ [(.tokRParen, ")")]))) := by
  constructor
  · intro rest restShapes _ lexed
    have read := lexed_operands leftPrints rightPrints reserved_or lexed
    simpa [Predicate.string] using read
  · intro tokens shaped
    obtain ⟨opening, closing, word, first, second, rfl, isOpening, isClosing, isOr, firstShaped,
      secondShaped⟩ := exists_paren shaped
    obtain ⟨leftDerivation, leftReads⟩ := leftPrints.derives first firstShaped
    obtain ⟨rightDerivation, rightReads⟩ := rightPrints.derives second secondShaped
    refine derivation_of_eq (.positive (.paren opening closing isOpening isClosing
      (.orExpr (.andExpr leftDerivation .andEnd)
        (.orMore word (shape_eq_iff.1 isOr).1 (.andExpr rightDerivation .andEnd) .orEnd))))
      (by simp) ?_
    simp only [Derivation.read, leftReads, rightReads]
    simp only [predicates]

end Prints

/-- Every rune of every string literal is printed verbatim, or is a quote or a backslash. -/
def Predicate.PlainLiterals (unicode : Unicode) : Predicate → Prop
  | .eqPred _ val => PlainLiteral unicode val
  | .nePred _ val => PlainLiteral unicode val
  | .likePred _ pattern _ => PlainLiteral unicode pattern
  | .inPred _ vals _ => ∀ value ∈ vals, PlainLiteral unicode value
  | .existsPred _ => True
  | .andPred left right => left.PlainLiterals unicode ∧ right.PlainLiterals unicode
  | .orPred left right => left.PlainLiterals unicode ∧ right.PlainLiterals unicode
  | .notPred inner => inner.PlainLiterals unicode

/-- Every predicate that was parsed and has plain literals prints as tokens of some shapes. -/
theorem Predicate.Shaped.prints {unicode : Unicode} {p : Predicate} (shaped : p.Shaped unicode)
    (plain : p.PlainLiterals unicode) : ∃ shapes, Prints unicode p shapes := by
  induction p with
  | eqPred key val => exact ⟨_, prints_eq shaped plain⟩
  | nePred key val => exact ⟨_, prints_ne shaped plain⟩
  | likePred key pattern rx =>
    obtain ⟨identifier, rfl⟩ := shaped
    exact ⟨_, prints_like identifier plain⟩
  | inPred key vals repr =>
    obtain ⟨identifier, values, notEmpty, rfl, rfl⟩ := shaped
    exact ⟨_, prints_in identifier notEmpty fun value inside =>
      plain value (List.mem_toFinset.2 inside)⟩
  | existsPred key => exact ⟨_, prints_exists shaped⟩
  | andPred left right leftPrints rightPrints =>
    obtain ⟨_, leftPrints⟩ := leftPrints shaped.1 plain.1
    obtain ⟨_, rightPrints⟩ := rightPrints shaped.2 plain.2
    exact ⟨_, leftPrints.and rightPrints⟩
  | orPred left right leftPrints rightPrints =>
    obtain ⟨_, leftPrints⟩ := leftPrints shaped.1 plain.1
    obtain ⟨_, rightPrints⟩ := rightPrints shaped.2 plain.2
    exact ⟨_, leftPrints.or rightPrints⟩
  | notPred inner innerPrints =>
    obtain ⟨_, innerPrints⟩ := innerPrints shaped plain
    exact ⟨_, innerPrints.not⟩

/-- What prints is parsed again. -/
theorem Prints.parse {unicode : Unicode} {p : Predicate} {shapes : List Shape}
    (prints : Prints unicode p shapes) : parse unicode (p.string unicode) = .ok p := by
  have lexed := prints.lexes [] _ trivial lexed_nil
  rw [List.append_nil] at lexed
  obtain ⟨all, lexedAll, shaped⟩ := lexed 0 _ (Nat.lt_succ_self _)
  obtain ⟨tokens, last, rfl, tokensShaped, lastShaped⟩ := List.map_eq_append_iff.1 shaped
  obtain ⟨eof, rest, rfl, isEof, restShaped⟩ := List.map_eq_cons_iff.1 lastShaped
  obtain ⟨inner, reads⟩ := prints.derives tokens tokensShaped
  have whole : (tokens ++ []) ++ [] = tokens := by
    rw [List.append_nil, List.append_nil]
  obtain ⟨derivation, denotes⟩ : ∃ derivation : Derivation .orExpr tokens,
      derivation.read (predicates unicode) = p := by
    refine derivation_of_eq (.orExpr (.andExpr inner .andEnd) .orEnd) whole ?_
    simp only [Derivation.read, reads]
  rw [parse_eq_lex_bind, lex, lexedAll]
  have parsed := ((parser_sound_and_complete unicode tokens eof rest derivation.kind_ne_eof
    (shape_eq_iff.1 isEof).1).2 derivation).2.1
  rw [Derivation.denote, denotes] at parsed
  exact parsed

/-- **Printing and reparsing a filter is the identity.** If `Parse` accepts a text and every
rune of every string literal is printed verbatim or is a quote or a backslash, the printed
predicate is accepted and gives the same predicate, which matches the same events and prints
as the same text. -/
theorem parse_string_identity (unicode : Unicode) (expr : String) (p : Predicate)
    (accepted : parse unicode expr = .ok p) (plain : p.PlainLiterals unicode) :
    ∃ q, parse unicode (p.string unicode) = .ok q ∧ q = p ∧
      (∀ a, q.matchAttrs a = p.matchAttrs a) ∧ q.string unicode = p.string unicode := by
  obtain ⟨shapes, prints⟩ := (parse_shaped expr p accepted).prints plain
  exact ⟨p, prints.parse, rfl, fun _ => rfl, rfl⟩

/-- A filter with every operator and a quote in a literal. -/
def quotedFilter : Predicate :=
  .orPred (.andPred (.notPred (.eqPred "a" "x\"")) (.existsPred "b"))
    (.likePred "c" "y*" (globRegexp "y*"))

/-- The filter is printed with its quote escaped, and parsed from that text again. -/
theorem parse_string_identity_quoted :
    parse asciiTables "not a='x\"' and exists b or c like 'y*'" = .ok quotedFilter ∧
      quotedFilter.string asciiTables = "((NOT a = \"x\\\"\" AND EXISTS b) OR c LIKE \"y*\")" ∧
      parse asciiTables (quotedFilter.string asciiTables) = .ok quotedFilter := by
  have accepted : parse asciiTables "not a='x\"' and exists b or c like 'y*'" =
      .ok quotedFilter := by
    decide +kernel
  have plain : quotedFilter.PlainLiterals asciiTables := by
    simp [quotedFilter, Predicate.PlainLiterals, PlainLiteral, asciiTables]
  obtain ⟨q, again, same, _⟩ := parse_string_identity asciiTables _ quotedFilter accepted plain
  rw [same] at again
  refine ⟨accepted, ?_, again⟩
  decide +kernel

end FluffyCore.CeFilter
