import FluffyCore.CeFilter.Grammar
import FluffyCore.Library.Results

/-!
# The parser accepts what the grammar derives

Soundness follows the parser: what a function consumed is yielded by a derivation that
reads as the predicate it returned. Completeness follows the derivation: on its tokens,
followed by anything the nonterminal cannot go on with, the parser returns its reading. The
look-ahead a repetition needs is one token, because no operand and no other chain starts
with the operator that continues it.
-/

namespace FluffyCore.CeFilter

open Library.Results Library.QuotedText

/-- A next token that is not the end is the first of the list. -/
theorem exists_cons_of_peek (tokens : List Token) (kind : TokenKind) (real : kind ≠ .tokEOF)
    (next : (peek tokens).kind = kind) : ∃ t rest, tokens = t :: rest ∧ t.kind = kind := by
  cases tokens with
  | nil => exact absurd next.symm real
  | cons t rest => exact ⟨t, rest, rfl, next⟩

/-- A token is accepted exactly if it is the next one and of the expected kind. -/
theorem expect_eq_ok_iff (unicode : Unicode) (kind : TokenKind) (desc : String)
    (tokens : List Token) (real : kind ≠ .tokEOF) (t : Token) (rest : List Token) :
    expect unicode kind desc tokens = .ok (t, rest) ↔ tokens = t :: rest ∧ t.kind = kind := by
  rw [expect]
  constructor
  · intro taken
    by_cases found : (peek tokens).kind = kind
    · obtain ⟨first, others, rfl, _⟩ := exists_cons_of_peek tokens kind real found
      rw [if_neg (not_not.2 found)] at taken
      obtain ⟨rfl, rfl⟩ := Prod.mk.inj (Except.ok.inj taken)
      exact ⟨rfl, found⟩
    · rw [if_pos found] at taken
      cases taken
  · rintro ⟨rfl, found⟩
    simp [peek, found]

/-- A string is accepted exactly if the next token is a string. -/
theorem expectString_eq_ok_iff (unicode : Unicode) (tokens : List Token) (s : String)
    (rest : List Token) :
    expectString unicode tokens = .ok (s, rest) ↔
      ∃ t, tokens = t :: rest ∧ t.kind = .tokString ∧ t.val = s := by
  rw [expectString, bind_eq_ok_iff]
  constructor
  · rintro ⟨⟨t, others⟩, taken, returned⟩
    obtain ⟨rfl, rfl⟩ := Prod.mk.inj (Except.ok.inj returned)
    obtain ⟨rfl, kind⟩ := (expect_eq_ok_iff _ _ _ _ (by decide) _ _).1 taken
    exact ⟨t, rfl, kind, rfl⟩
  · rintro ⟨t, rfl, kind, rfl⟩
    exact ⟨(t, rest), (expect_eq_ok_iff _ _ _ _ (by decide) _ _).2 ⟨rfl, kind⟩, rfl⟩

/-- A string token is accepted with its value. -/
theorem expectString_cons (unicode : Unicode) (string : Token) (isString : string.kind = .tokString)
    (rest : List Token) : expectString unicode (string :: rest) = .ok (string.val, rest) :=
  (expectString_eq_ok_iff unicode (string :: rest) _ rest).2 ⟨string, rfl, isString, rfl⟩

/-- A derivation explains a step of the parser: it yields the tokens the step consumed and
its reading satisfies what the step returned. -/
def Explains (unicode : Unicode) (nonterminal : Nonterminal) (tokens rest : List Token)
    (returned : nonterminal.Meaning Predicate → Prop) : Prop :=
  ∃ consumed, ∃ derivation : Derivation nonterminal consumed,
    tokens = consumed ++ rest ∧ returned (derivation.read (predicates unicode))

/-- The IN loop adds the strings it consumed to its set and to its list. -/
theorem parseInValues_sound (unicode : Unicode) (fuel : Nat) (vals newVals : Finset String)
    (reprs newReprs : List String) (tokens rest : List Token)
    (parsed : parseInValues unicode fuel vals reprs tokens = .ok ((newVals, newReprs), rest)) :
    Explains unicode .strings tokens rest fun strings =>
      newVals = vals ∪ strings.toFinset ∧ newReprs = reprs ++ strings.map (quote unicode) := by
  induction fuel generalizing vals reprs tokens with
  | zero => simp [parseInValues] at parsed
  | succ fuel inductionHypothesis =>
    rw [parseInValues, bind_eq_ok_iff] at parsed
    obtain ⟨⟨s, others⟩, taken, continued⟩ := parsed
    obtain ⟨string, rfl, isString, rfl⟩ := (expectString_eq_ok_iff _ _ _ _).1 taken
    dsimp only at continued
    split at continued
    · next isComma =>
      obtain ⟨comma, more, rfl, isComma⟩ := exists_cons_of_peek others .tokComma (by decide) isComma
      obtain ⟨consumed, values, rfl, sameVals, sameReprs⟩ := inductionHypothesis _ _ _ continued
      refine ⟨string :: comma :: consumed, .moreStrings string comma isString isComma values,
        rfl, ?_, ?_⟩
      · rw [sameVals]
        simp [Derivation.read]
      · rw [sameReprs]
        simp [Derivation.read]
    · obtain ⟨same, rfl⟩ := Prod.mk.inj (Except.ok.inj continued)
      obtain ⟨rfl, rfl⟩ := Prod.mk.inj same
      refine ⟨[string], .lastString string isString, rfl, ?_, rfl⟩
      simp [Derivation.read]

/-- An operator with a string after it, the shape of three of the comparisons. -/
theorem operator_string_of_ok (unicode : Unicode) (kind : TokenKind) (real : kind ≠ .tokEOF)
    (build : String → Predicate) (tokens rest : List Token) (pred : Predicate)
    (next : (peek tokens).kind = kind)
    (parsed : (do
      let (s, others) ← expectString unicode tokens.tail
      return (build s, others)) = .ok (pred, rest)) :
    ∃ operator string, tokens = operator :: string :: rest ∧ operator.kind = kind ∧
      string.kind = .tokString ∧ pred = build string.val := by
  obtain ⟨operator, others, rfl, isOperator⟩ := exists_cons_of_peek tokens kind real next
  obtain ⟨⟨s, final⟩, taken, returned⟩ := (bind_eq_ok_iff _ _ _).1 parsed
  obtain ⟨rfl, rfl⟩ := Prod.mk.inj (Except.ok.inj returned)
  obtain ⟨string, same, isString, rfl⟩ := (expectString_eq_ok_iff _ _ _ _).1 taken
  obtain rfl : others = string :: final := same
  exact ⟨operator, string, rfl, isOperator, isString, rfl⟩

/-- What follows an identifier completes a comparison. -/
theorem parseComparison_sound (unicode : Unicode) (ident : Token) (isIdent : ident.kind = .tokIdent)
    (tokens rest : List Token) (pred : Predicate)
    (parsed : parseComparison unicode ident.val tokens = .ok (pred, rest)) :
    Explains unicode .primary (ident :: tokens) rest (· = pred) := by
  rw [parseComparison] at parsed
  dsimp only at parsed
  split at parsed
  · next isEq =>
    obtain ⟨sign, string, rfl, isEq, isString, rfl⟩ :=
      operator_string_of_ok unicode .tokEq (by decide) _ _ _ _ isEq parsed
    exact ⟨_, .eqString ident sign string isIdent isEq isString, rfl, rfl⟩
  · next isNe =>
    obtain ⟨sign, string, rfl, isNe, isString, rfl⟩ :=
      operator_string_of_ok unicode .tokNe (by decide) _ _ _ _ isNe parsed
    exact ⟨_, .neString ident sign string isIdent isNe isString, rfl, rfl⟩
  · next isLike =>
    obtain ⟨word, string, rfl, isLike, isString, rfl⟩ :=
      operator_string_of_ok unicode .tokLike (by decide)
        (fun pattern => .likePred ident.val pattern (globRegexp pattern)) _ _ _ isLike parsed
    exact ⟨_, .likeString ident word string isIdent isLike isString, rfl, rfl⟩
  · next isIn =>
    obtain ⟨word, others, rfl, isIn⟩ := exists_cons_of_peek tokens .tokIn (by decide) isIn
    obtain ⟨⟨opening, opened⟩, openTaken, afterOpen⟩ := (bind_eq_ok_iff _ _ _).1 parsed
    obtain ⟨⟨⟨vals, reprs⟩, more⟩, looped, afterLoop⟩ := (bind_eq_ok_iff _ _ _).1 afterOpen
    obtain ⟨⟨closing, final⟩, closeTaken, returned⟩ := (bind_eq_ok_iff _ _ _).1 afterLoop
    obtain ⟨rfl, rfl⟩ := Prod.mk.inj (Except.ok.inj returned)
    obtain ⟨same, isOpening⟩ := (expect_eq_ok_iff _ _ _ _ (by decide) _ _).1 openTaken
    obtain rfl : others = opening :: opened := same
    obtain ⟨consumed, values, rfl, sameVals, sameReprs⟩ :=
      parseInValues_sound unicode _ _ _ _ _ _ _ looped
    obtain ⟨rfl, isClosing⟩ := (expect_eq_ok_iff _ _ _ _ (by decide) _ _).1 closeTaken
    refine ⟨_, .inList ident word opening closing isIdent isIn isOpening isClosing values,
      by simp, ?_⟩
    rw [sameVals, sameReprs]
    simp [Derivation.read, predicates]
  · cases parsed

/-- What each function of the parser consumed is explained by a derivation from its
nonterminal that reads as the predicate it returned. -/
structure Sound (unicode : Unicode) (fuel : Nat) : Prop where
  primary : ∀ tokens pred rest, parsePrimary unicode fuel tokens = .ok (pred, rest) →
    Explains unicode .primary tokens rest (· = pred)
  not : ∀ tokens pred rest, parseNot unicode fuel tokens = .ok (pred, rest) →
    Explains unicode .notExpr tokens rest (· = pred)
  and : ∀ tokens pred rest, parseAnd unicode fuel tokens = .ok (pred, rest) →
    Explains unicode .andExpr tokens rest (· = pred)
  andTail : ∀ left tokens pred rest, parseAndTail unicode fuel left tokens = .ok (pred, rest) →
    Explains unicode .andChain tokens rest (fun chain => chain left = pred)
  or : ∀ tokens pred rest, parseOr unicode fuel tokens = .ok (pred, rest) →
    Explains unicode .orExpr tokens rest (· = pred)
  orTail : ∀ left tokens pred rest, parseOrTail unicode fuel left tokens = .ok (pred, rest) →
    Explains unicode .orChain tokens rest (fun chain => chain left = pred)

/-- A primary is a parenthesised expression, an EXISTS or a comparison. -/
theorem parsePrimary_sound (unicode : Unicode) (fuel : Nat) (sound : Sound unicode fuel)
    (tokens rest : List Token) (pred : Predicate)
    (parsed : parsePrimary unicode (fuel + 1) tokens = .ok (pred, rest)) :
    Explains unicode .primary tokens rest (· = pred) := by
  rw [parsePrimary] at parsed
  dsimp only at parsed
  split at parsed
  · next isOpening =>
    obtain ⟨opening, others, rfl, isOpening⟩ :=
      exists_cons_of_peek tokens .tokLParen (by decide) isOpening
    obtain ⟨⟨inner, more⟩, nested, afterNested⟩ := (bind_eq_ok_iff _ _ _).1 parsed
    obtain ⟨⟨closing, final⟩, closeTaken, returned⟩ := (bind_eq_ok_iff _ _ _).1 afterNested
    obtain ⟨rfl, rfl⟩ := Prod.mk.inj (Except.ok.inj returned)
    obtain ⟨consumed, expr, split, same⟩ := sound.or _ _ _ nested
    obtain ⟨rfl, isClosing⟩ := (expect_eq_ok_iff _ _ _ _ (by decide) _ _).1 closeTaken
    obtain rfl : others = consumed ++ closing :: final := split
    exact ⟨_, .paren opening closing isOpening isClosing expr, by simp, same⟩
  · next isExists =>
    obtain ⟨word, others, rfl, isExists⟩ :=
      exists_cons_of_peek tokens .tokExists (by decide) isExists
    obtain ⟨⟨ident, final⟩, taken, returned⟩ := (bind_eq_ok_iff _ _ _).1 parsed
    obtain ⟨rfl, rfl⟩ := Prod.mk.inj (Except.ok.inj returned)
    obtain ⟨same, isIdent⟩ := (expect_eq_ok_iff _ _ _ _ (by decide) _ _).1 taken
    obtain rfl : others = ident :: final := same
    exact ⟨_, .existsIdent word ident isExists isIdent, rfl, rfl⟩
  · next isIdent =>
    obtain ⟨ident, others, rfl, isIdent⟩ :=
      exists_cons_of_peek tokens .tokIdent (by decide) isIdent
    exact parseComparison_sound unicode ident isIdent others rest pred parsed
  · cases parsed

/-- What the parsing functions accept is derived by the grammar and read from the derivation. -/
theorem parser_sound (unicode : Unicode) (fuel : Nat) : Sound unicode fuel := by
  induction fuel with
  | zero => constructor <;> simp [parsePrimary, parseNot, parseAnd, parseAndTail, parseOr,
      parseOrTail]
  | succ fuel sound =>
    constructor
    · exact fun tokens pred rest => parsePrimary_sound unicode fuel sound tokens rest pred
    · intro tokens pred rest parsed
      rw [parseNot] at parsed
      split at parsed
      · next isNot =>
        obtain ⟨word, others, rfl, isNot⟩ := exists_cons_of_peek tokens .tokNot (by decide) isNot
        obtain ⟨⟨inner, final⟩, nested, returned⟩ := (bind_eq_ok_iff _ _ _).1 parsed
        obtain ⟨rfl, rfl⟩ := Prod.mk.inj (Except.ok.inj returned)
        obtain ⟨consumed, operand, split, rfl⟩ := sound.not _ _ _ nested
        obtain rfl : others = consumed ++ final := split
        exact ⟨_, .not word isNot operand, rfl, rfl⟩
      · obtain ⟨consumed, operand, split, same⟩ := sound.primary _ _ _ parsed
        exact ⟨consumed, .positive operand, split, same⟩
    · intro tokens pred rest parsed
      rw [parseAnd] at parsed
      obtain ⟨⟨left, others⟩, first, chained⟩ := (bind_eq_ok_iff _ _ _).1 parsed
      obtain ⟨consumed, operand, rfl, rfl⟩ := sound.not _ _ _ first
      obtain ⟨more, chain, rfl, same⟩ := sound.andTail _ _ _ _ chained
      exact ⟨_, .andExpr operand chain, by simp, same⟩
    · intro left tokens pred rest parsed
      rw [parseAndTail] at parsed
      split at parsed
      · next isAnd =>
        obtain ⟨word, others, rfl, isAnd⟩ := exists_cons_of_peek tokens .tokAnd (by decide) isAnd
        obtain ⟨⟨right, final⟩, nested, chained⟩ := (bind_eq_ok_iff _ _ _).1 parsed
        obtain ⟨consumed, operand, split, rfl⟩ := sound.not _ _ _ nested
        obtain ⟨more, chain, rfl, same⟩ := sound.andTail _ _ _ _ chained
        obtain rfl : others = consumed ++ (more ++ rest) := split
        exact ⟨_, .andMore word isAnd operand chain, by simp, same⟩
      · obtain ⟨rfl, rfl⟩ := Prod.mk.inj (Except.ok.inj parsed)
        exact ⟨[], .andEnd, rfl, rfl⟩
    · intro tokens pred rest parsed
      rw [parseOr] at parsed
      obtain ⟨⟨left, others⟩, first, chained⟩ := (bind_eq_ok_iff _ _ _).1 parsed
      obtain ⟨consumed, operand, rfl, rfl⟩ := sound.and _ _ _ first
      obtain ⟨more, chain, rfl, same⟩ := sound.orTail _ _ _ _ chained
      exact ⟨_, .orExpr operand chain, by simp, same⟩
    · intro left tokens pred rest parsed
      rw [parseOrTail] at parsed
      split at parsed
      · next isOr =>
        obtain ⟨word, others, rfl, isOr⟩ := exists_cons_of_peek tokens .tokOr (by decide) isOr
        obtain ⟨⟨right, final⟩, nested, chained⟩ := (bind_eq_ok_iff _ _ _).1 parsed
        obtain ⟨consumed, operand, split, rfl⟩ := sound.and _ _ _ nested
        obtain ⟨more, chain, rfl, same⟩ := sound.orTail _ _ _ _ chained
        obtain rfl : others = consumed ++ (more ++ rest) := split
        exact ⟨_, .orMore word isOr operand chain, by simp, same⟩
      · obtain ⟨rfl, rfl⟩ := Prod.mk.inj (Except.ok.inj parsed)
        exact ⟨[], .orEnd, rfl, rfl⟩

/-- A primary does not start with NOT. -/
theorem peek_primary {tokens : List Token} (derivation : Derivation .primary tokens)
    (rest : List Token) : (peek (tokens ++ rest)).kind ≠ .tokNot := by
  cases derivation <;> simp [peek, *]

/-- What continues an AND chain is neither in an OR chain's place nor after it. -/
theorem peek_orChain {tokens : List Token} (derivation : Derivation .orChain tokens)
    (rest : List Token) (next : (peek rest).kind ≠ .tokAnd) :
    (peek (tokens ++ rest)).kind ≠ .tokAnd := by
  cases derivation with
  | orEnd => exact next
  | orMore word isOr operand chain => simp [peek, isOr]

/-- A primary that starts with an identifier is a comparison. -/
theorem parsePrimary_of_ident (unicode : Unicode) (ident : Token)
    (isIdent : ident.kind = .tokIdent) (fuel : Nat) (tokens : List Token) :
    parsePrimary unicode (fuel + 1) (ident :: tokens) =
      parseComparison unicode ident.val tokens := by
  simp only [parsePrimary, peek, isIdent, List.tail_cons]

/-- What the parser returns on the tokens of a derivation with this reading, followed by
tokens that the nonterminal cannot go on with. -/
def Accepted (unicode : Unicode) : (nonterminal : Nonterminal) → List Token →
    nonterminal.Meaning Predicate → Prop
  | .orExpr, tokens, pred => ∀ rest fuel, (peek rest).kind ≠ .tokOr → (peek rest).kind ≠ .tokAnd →
      5 * (tokens ++ rest).length + 4 ≤ fuel →
      parseOr unicode fuel (tokens ++ rest) = .ok (pred, rest)
  | .orChain, tokens, chain => ∀ left rest fuel, (peek rest).kind ≠ .tokOr →
      (peek rest).kind ≠ .tokAnd → 5 * (tokens ++ rest).length + 1 ≤ fuel →
      parseOrTail unicode fuel left (tokens ++ rest) = .ok (chain left, rest)
  | .andExpr, tokens, pred => ∀ rest fuel, (peek rest).kind ≠ .tokAnd →
      5 * (tokens ++ rest).length + 3 ≤ fuel →
      parseAnd unicode fuel (tokens ++ rest) = .ok (pred, rest)
  | .andChain, tokens, chain => ∀ left rest fuel, (peek rest).kind ≠ .tokAnd →
      5 * (tokens ++ rest).length + 1 ≤ fuel →
      parseAndTail unicode fuel left (tokens ++ rest) = .ok (chain left, rest)
  | .notExpr, tokens, pred => ∀ rest fuel, 5 * (tokens ++ rest).length + 2 ≤ fuel →
      parseNot unicode fuel (tokens ++ rest) = .ok (pred, rest)
  | .primary, tokens, pred => ∀ rest fuel, 5 * (tokens ++ rest).length + 1 ≤ fuel →
      parsePrimary unicode fuel (tokens ++ rest) = .ok (pred, rest)
  | .strings, tokens, strings => ∀ vals reprs rest fuel, (peek rest).kind ≠ .tokComma →
      (tokens ++ rest).length < fuel →
      parseInValues unicode fuel vals reprs (tokens ++ rest) =
        .ok ((vals ∪ strings.toFinset, reprs ++ strings.map (quote unicode)), rest)

/-- A comparison is parsed behind the attribute it is about. -/
theorem accepted_comparison (unicode : Unicode) (ident : Token) (isIdent : ident.kind = .tokIdent)
    (following : List Token) (pred : Predicate)
    (compared : ∀ rest, parseComparison unicode ident.val (following ++ rest) = .ok (pred, rest)) :
    Accepted unicode .primary (ident :: following) pred := by
  intro rest fuel enough
  obtain ⟨fuel, rfl⟩ := Nat.exists_eq_add_one.2 (show 0 < fuel by omega)
  rw [List.cons_append, parsePrimary_of_ident unicode ident isIdent, compared rest]

/-- The parser returns the reading of every derivation. -/
theorem parser_complete (unicode : Unicode) {nonterminal : Nonterminal} {tokens : List Token}
    (derivation : Derivation nonterminal tokens) :
    Accepted unicode nonterminal tokens (derivation.read (predicates unicode)) := by
  induction derivation with
  | orExpr operand chain operandAccepted chainAccepted =>
    intro rest fuel notOr notAnd enough
    obtain ⟨fuel, rfl⟩ := Nat.exists_eq_add_one.2 (show 0 < fuel by omega)
    simp only [List.length_append] at enough
    rw [parseOr, bind_eq_ok_iff, List.append_assoc]
    refine ⟨_, operandAccepted _ fuel (peek_orChain chain rest notAnd) ?_,
      chainAccepted _ rest fuel notOr notAnd ?_⟩ <;> simp only [List.length_append] <;> omega
  | orEnd =>
    intro left rest fuel notOr _ enough
    obtain ⟨fuel, rfl⟩ := Nat.exists_eq_add_one.2 (show 0 < fuel by omega)
    rw [List.nil_append, parseOrTail, if_neg notOr]
    rfl
  | orMore word isOr operand chain operandAccepted chainAccepted =>
    intro left rest fuel notOr notAnd enough
    obtain ⟨fuel, rfl⟩ := Nat.exists_eq_add_one.2 (show 0 < fuel by omega)
    simp only [List.length_append, List.length_cons] at enough
    rw [List.cons_append, parseOrTail, peek, if_pos isOr, List.tail_cons, bind_eq_ok_iff,
      List.append_assoc]
    refine ⟨_, operandAccepted _ fuel (peek_orChain chain rest notAnd) ?_,
      chainAccepted _ rest fuel notOr notAnd ?_⟩ <;> simp only [List.length_append] <;> omega
  | andExpr operand chain operandAccepted chainAccepted =>
    intro rest fuel notAnd enough
    obtain ⟨fuel, rfl⟩ := Nat.exists_eq_add_one.2 (show 0 < fuel by omega)
    simp only [List.length_append] at enough
    rw [parseAnd, bind_eq_ok_iff, List.append_assoc]
    refine ⟨_, operandAccepted _ fuel ?_, chainAccepted _ rest fuel notAnd ?_⟩ <;>
      simp only [List.length_append] <;> omega
  | andEnd =>
    intro left rest fuel notAnd enough
    obtain ⟨fuel, rfl⟩ := Nat.exists_eq_add_one.2 (show 0 < fuel by omega)
    rw [List.nil_append, parseAndTail, if_neg notAnd]
    rfl
  | andMore word isAnd operand chain operandAccepted chainAccepted =>
    intro left rest fuel notAnd enough
    obtain ⟨fuel, rfl⟩ := Nat.exists_eq_add_one.2 (show 0 < fuel by omega)
    simp only [List.length_append, List.length_cons] at enough
    rw [List.cons_append, parseAndTail, peek, if_pos isAnd, List.tail_cons, bind_eq_ok_iff,
      List.append_assoc]
    refine ⟨_, operandAccepted _ fuel ?_, chainAccepted _ rest fuel notAnd ?_⟩ <;>
      simp only [List.length_append] <;> omega
  | not word isNot operand operandAccepted =>
    intro rest fuel enough
    obtain ⟨fuel, rfl⟩ := Nat.exists_eq_add_one.2 (show 0 < fuel by omega)
    simp only [List.length_append, List.length_cons] at enough
    rw [List.cons_append, parseNot, peek, if_pos isNot, List.tail_cons, bind_eq_ok_iff]
    refine ⟨_, operandAccepted rest fuel ?_, rfl⟩
    simp only [List.length_append]
    omega
  | positive operand operandAccepted =>
    intro rest fuel enough
    obtain ⟨fuel, rfl⟩ := Nat.exists_eq_add_one.2 (show 0 < fuel by omega)
    rw [parseNot, if_neg (peek_primary operand rest)]
    exact operandAccepted rest fuel (by omega)
  | paren opening closing isOpening isClosing expr exprAccepted =>
    intro rest fuel enough
    obtain ⟨fuel, rfl⟩ := Nat.exists_eq_add_one.2 (show 0 < fuel by omega)
    simp only [List.length_append, List.length_cons, List.length_nil] at enough
    have nested := exprAccepted (closing :: rest) fuel (by simp [peek, isClosing])
      (by simp [peek, isClosing]) (by simp only [List.length_append, List.length_cons]; omega)
    have closed := (expect_eq_ok_iff unicode .tokRParen "')'" (closing :: rest) (by decide)
      closing rest).2 ⟨rfl, isClosing⟩
    simp only [List.cons_append, List.append_assoc, List.nil_append, parsePrimary, peek, isOpening,
      List.tail_cons, nested, closed, bind, Except.bind]
    rfl
  | existsIdent word ident isExists isIdent =>
    intro rest fuel enough
    obtain ⟨fuel, rfl⟩ := Nat.exists_eq_add_one.2 (show 0 < fuel by omega)
    have taken := (expect_eq_ok_iff unicode .tokIdent "attribute name" (ident :: rest) (by decide)
      ident rest).2 ⟨rfl, isIdent⟩
    simp only [List.cons_append, List.nil_append, parsePrimary, peek, isExists, List.tail_cons,
      taken, bind, Except.bind]
    rfl
  | @inList listed ident word opening closing isIdent isIn isOpening isClosing values accepted =>
    refine accepted_comparison unicode ident isIdent _ _ fun rest => ?_
    have opened := (expect_eq_ok_iff unicode .tokLParen "'('"
      (opening :: (listed ++ closing :: rest)) (by decide) _ _).2 ⟨rfl, isOpening⟩
    have closed := (expect_eq_ok_iff unicode .tokRParen "')'" (closing :: rest) (by decide)
      closing rest).2 ⟨rfl, isClosing⟩
    have looped := accepted ∅ [] (closing :: rest) _ (by simp [peek, isClosing])
      (Nat.lt_succ_self _)
    simp only [List.cons_append, List.append_assoc, List.nil_append, parseComparison, peek, isIn,
      List.tail_cons, opened, looped, closed, bind, Except.bind]
    simp [pure, Except.pure, Derivation.read, predicates]
  | likeString ident word string isIdent isLike isString =>
    refine accepted_comparison unicode ident isIdent _ _ fun rest => ?_
    have taken := expectString_cons unicode string isString rest
    simp only [List.cons_append, List.nil_append, parseComparison, peek, isLike, List.tail_cons,
      taken, bind, Except.bind]
    rfl
  | eqString ident sign string isIdent isEq isString =>
    refine accepted_comparison unicode ident isIdent _ _ fun rest => ?_
    have taken := expectString_cons unicode string isString rest
    simp only [List.cons_append, List.nil_append, parseComparison, peek, isEq, List.tail_cons,
      taken, bind, Except.bind]
    rfl
  | neString ident sign string isIdent isNe isString =>
    refine accepted_comparison unicode ident isIdent _ _ fun rest => ?_
    have taken := expectString_cons unicode string isString rest
    simp only [List.cons_append, List.nil_append, parseComparison, peek, isNe, List.tail_cons,
      taken, bind, Except.bind]
    rfl
  | lastString string isString =>
    intro vals reprs rest fuel notComma enough
    obtain ⟨fuel, rfl⟩ := Nat.exists_eq_add_one.2 (show 0 < fuel by omega)
    have taken := expectString_cons unicode string isString rest
    simp only [List.cons_append, List.nil_append, parseInValues, taken, bind, Except.bind,
      notComma, if_false, pure, Except.pure, Derivation.read]
    simp
  | moreStrings string comma isString isComma values valuesAccepted =>
    intro vals reprs rest fuel notComma enough
    obtain ⟨fuel, rfl⟩ := Nat.exists_eq_add_one.2 (show 0 < fuel by omega)
    simp only [List.length_append, List.length_cons] at enough
    rw [List.cons_append, parseInValues, bind_eq_ok_iff]
    refine ⟨_, expectString_cons unicode string isString _, ?_⟩
    dsimp only
    rw [List.cons_append, peek, if_pos isComma, List.tail_cons,
      valuesAccepted _ _ rest fuel notComma (by simp only [List.length_append]; omega)]
    simp [Derivation.read]

/-- No derivation yields an end token. -/
theorem Derivation.kind_ne_eof {nonterminal : Nonterminal} {tokens : List Token}
    (derivation : Derivation nonterminal tokens) : ∀ t ∈ tokens, t.kind ≠ .tokEOF := by
  induction derivation <;> grind

/-- `Parse` after lexing: one expression, and then the end. -/
def parseTokens (unicode : Unicode) (tokens : List Token) : Except ParseError Predicate := do
  let (pred, rest) ← parseOr unicode (parseBudget tokens.length) tokens
  if (peek rest).kind = .tokEOF then return pred
  else .error (.failure ("unexpected token " ++ (peek rest).string unicode ++ " at position " ++
    toString (peek rest).pos))

/-- Parsing a text is lexing it and parsing its tokens. -/
theorem parse_eq_lex_bind (unicode : Unicode) (expr : String) :
    parse unicode expr = lex unicode expr >>= parseTokens unicode := rfl

/-- Two token lists without an end token, each before one, are the same. -/
theorem eq_of_append_eof (first second : List Token) (eof : Token) (others rest : List Token)
    (isEof : eof.kind = .tokEOF) (firstReal : ∀ t ∈ first, t.kind ≠ .tokEOF)
    (secondReal : ∀ t ∈ second, t.kind ≠ .tokEOF) (ended : (peek rest).kind = .tokEOF)
    (same : first ++ eof :: others = second ++ rest) : first = second ∧ rest = eof :: others := by
  induction first generalizing second with
  | nil =>
    cases second with
    | nil => exact ⟨rfl, same.symm⟩
    | cons t more =>
      obtain ⟨rfl, _⟩ := List.cons.inj same
      exact absurd isEof (secondReal _ List.mem_cons_self)
  | cons t more inductionHypothesis =>
    cases second with
    | nil =>
      obtain rfl : rest = t :: (more ++ eof :: others) := same.symm
      exact absurd ended (firstReal t List.mem_cons_self)
    | cons u further =>
      obtain ⟨rfl, tails⟩ := List.cons.inj same
      obtain ⟨rfl, ends⟩ := inductionHypothesis further
        (fun x inside => firstReal x (List.mem_cons_of_mem _ inside))
        (fun x inside => secondReal x (List.mem_cons_of_mem _ inside)) tails
      exact ⟨rfl, ends⟩

/-- A map between readings that respects every operation. -/
structure Reading.Hom {μ ν : Type} (source : Reading μ) (target : Reading ν) (map : μ → ν) :
    Prop where
  or : ∀ x y, map (source.or x y) = target.or (map x) (map y)
  and : ∀ x y, map (source.and x y) = target.and (map x) (map y)
  not : ∀ x, map (source.not x) = target.not (map x)
  existsIdent : ∀ key, map (source.existsIdent key) = target.existsIdent key
  inList : ∀ key vals, map (source.inList key vals) = target.inList key vals
  likeString : ∀ key pattern, map (source.likeString key pattern) = target.likeString key pattern
  eqString : ∀ key val, map (source.eqString key val) = target.eqString key val
  neString : ∀ key val, map (source.neString key val) = target.neString key val

/-- The meanings of one derivation in two readings. -/
def Nonterminal.Maps {μ ν : Type} (map : μ → ν) :
    (nonterminal : Nonterminal) → nonterminal.Meaning μ → nonterminal.Meaning ν → Prop
  | .orChain, f, g => ∀ left, map (f left) = g (map left)
  | .andChain, f, g => ∀ left, map (f left) = g (map left)
  | .strings, xs, ys => xs = ys
  | .orExpr, x, y => map x = y
  | .andExpr, x, y => map x = y
  | .notExpr, x, y => map x = y
  | .primary, x, y => map x = y

/-- A map that respects the operations respects the meaning of derivations. -/
theorem Derivation.read_maps {μ ν : Type} {source : Reading μ} {target : Reading ν} {map : μ → ν}
    (hom : source.Hom target map) {nonterminal : Nonterminal} {tokens : List Token}
    (derivation : Derivation nonterminal tokens) :
    nonterminal.Maps map (derivation.read source) (derivation.read target) := by
  induction derivation with
  | orExpr operand chain operandMaps chainMaps => exact (chainMaps _).trans (congrArg _ operandMaps)
  | orEnd => exact fun _ => rfl
  | orMore word isOr operand chain operandMaps chainMaps =>
    exact fun left => (chainMaps _).trans (congrArg _ ((hom.or _ _).trans (congrArg _ operandMaps)))
  | andExpr operand chain operandMaps chainMaps =>
    exact (chainMaps _).trans (congrArg _ operandMaps)
  | andEnd => exact fun _ => rfl
  | andMore word isAnd operand chain operandMaps chainMaps =>
    exact fun left =>
      (chainMaps _).trans (congrArg _ ((hom.and _ _).trans (congrArg _ operandMaps)))
  | not word isNot operand operandMaps => exact (hom.not _).trans (congrArg _ operandMaps)
  | positive operand operandMaps => exact operandMaps
  | paren opening closing isOpening isClosing expr exprMaps => exact exprMaps
  | existsIdent word ident isExists isIdent => exact hom.existsIdent _
  | inList ident word opening closing isIdent isIn isOpening isClosing values valuesMap =>
    exact (hom.inList _ _).trans (congrArg _ valuesMap)
  | likeString ident word string isIdent isLike isString => exact hom.likeString _ _
  | eqString ident sign string isIdent isEq isString => exact hom.eqString _ _
  | neString ident sign string isIdent isNe isString => exact hom.neString _ _
  | lastString string isString => rfl
  | moreStrings string comma isString isComma values valuesMap => exact congrArg _ valuesMap

/-- `Match` respects the operations. -/
theorem match_hom (unicode : Unicode) (a : Attrs) :
    (predicates unicode).Hom (truth a) (fun pred => pred.matchAttrs a) where
  or _ _ := rfl
  and _ _ := rfl
  not _ := rfl
  existsIdent _ := rfl
  inList key vals := by
    cases present : a.lookup key <;> simp [predicates, truth, Predicate.matchAttrs, present]
  likeString key pattern := by
    cases present : a.lookup key <;> simp [predicates, truth, Predicate.matchAttrs, present]
  eqString key val := by
    rw [Bool.eq_iff_iff]
    cases present : a.lookup key <;> simp [predicates, truth, Predicate.matchAttrs, present]
  neString key val := by
    rw [Bool.eq_iff_iff]
    cases present : a.lookup key <;> simp [predicates, truth, Predicate.matchAttrs, present]

/-- The parser is sound and complete for the grammar. On every token list up to its first end
token, parsing succeeds exactly when the tokens before it are derivable from an expression.
It then has consumed all of them, returns the predicate that each derivation denotes, and
that predicate matches an event exactly when the derivation is true of it. -/
theorem parser_sound_and_complete (unicode : Unicode) (tokens : List Token) (eof : Token)
    (others : List Token) (real : ∀ t ∈ tokens, t.kind ≠ .tokEOF) (isEof : eof.kind = .tokEOF) :
    ((∃ pred, parseTokens unicode (tokens ++ eof :: others) = .ok pred) ↔
      Nonempty (Derivation .orExpr tokens)) ∧
    ∀ derivation : Derivation .orExpr tokens,
      parseOr unicode (parseBudget (tokens ++ eof :: others).length) (tokens ++ eof :: others) =
        .ok (derivation.denote unicode, eof :: others) ∧
      parseTokens unicode (tokens ++ eof :: others) = .ok (derivation.denote unicode) ∧
      ∀ a, (derivation.denote unicode).matchAttrs a = derivation.value a := by
  have returned : ∀ derivation : Derivation .orExpr tokens,
      parseOr unicode (parseBudget (tokens ++ eof :: others).length) (tokens ++ eof :: others) =
        .ok (derivation.denote unicode, eof :: others) := fun derivation =>
    parser_complete unicode derivation (eof :: others) _ (by simp [peek, isEof])
      (by simp [peek, isEof]) (Nat.le_refl _)
  have succeeded : ∀ derivation : Derivation .orExpr tokens,
      parseTokens unicode (tokens ++ eof :: others) = .ok (derivation.denote unicode) := by
    intro derivation
    rw [parseTokens, bind_eq_ok_iff]
    exact ⟨_, returned derivation, if_pos isEof⟩
  refine ⟨⟨?_, fun ⟨derivation⟩ => ⟨_, succeeded derivation⟩⟩, fun derivation =>
    ⟨returned derivation, succeeded derivation,
      fun a => derivation.read_maps (match_hom unicode a)⟩⟩
  rintro ⟨pred, parsed⟩
  rw [parseTokens, bind_eq_ok_iff] at parsed
  obtain ⟨⟨found, rest⟩, ran, ended⟩ := parsed
  dsimp only at ended
  split at ended
  · next atEnd =>
    obtain ⟨consumed, derivation, split, _⟩ := (parser_sound unicode _).or _ _ _ ran
    obtain ⟨rfl, _⟩ := eq_of_append_eof tokens consumed eof others rest isEof real
      derivation.kind_ne_eof atEnd split
    exact ⟨derivation⟩
  · cases ended

/-- The tokens of `NOT a = "x" AND EXISTS b OR EXISTS c`. -/
def mixedOperators : List Token :=
  [⟨.tokNot, "NOT", 0⟩, ⟨.tokIdent, "a", 4⟩, ⟨.tokEq, "=", 6⟩, ⟨.tokString, "x", 8⟩,
    ⟨.tokAnd, "AND", 12⟩, ⟨.tokExists, "EXISTS", 16⟩, ⟨.tokIdent, "b", 23⟩, ⟨.tokOr, "OR", 25⟩,
    ⟨.tokExists, "EXISTS", 28⟩, ⟨.tokIdent, "c", 35⟩]

def mixedDerivation : Derivation .orExpr mixedOperators :=
  .orExpr
    (.andExpr (.not _ rfl (.positive (.eqString _ _ _ rfl rfl rfl)))
      (.andMore _ rfl (.positive (.existsIdent _ _ rfl rfl)) .andEnd))
    (.orMore _ rfl (.andExpr (.positive (.existsIdent _ _ rfl rfl)) .andEnd) .orEnd)

/-- NOT binds tighter than AND, and AND tighter than OR. -/
theorem parser_sound_and_complete_mixedOperators :
    parseTokens asciiTables (mixedOperators ++ [⟨.tokEOF, "", 36⟩]) =
      .ok (.orPred (.andPred (.notPred (.eqPred "a" "x")) (.existsPred "b")) (.existsPred "c")) :=
  ((parser_sound_and_complete asciiTables mixedOperators ⟨.tokEOF, "", 36⟩ [] (by decide) rfl).2
    mixedDerivation).2.1

end FluffyCore.CeFilter
