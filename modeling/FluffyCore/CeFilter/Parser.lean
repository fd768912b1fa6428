import FluffyCore.CeFilter.Lexer

/-!
# The recursive descent parser

    expr     = or_expr
    or_expr  = and_expr  { OR  and_expr  }
    and_expr = not_expr  { AND not_expr  }
    not_expr = NOT not_expr | primary
    primary  = "(" expr ")" | EXISTS ident | ident IN "(" string { "," string } ")"
             | ident LIKE string | ident "=" string | ident "!=" string

The parser's position is the list of tokens not yet consumed. The functions call
each other, so each takes a budget of calls; `parse` supplies one that is proved
to be enough for every token list.
-/

namespace FluffyCore.CeFilter

open Library.QuotedText

/-- The next token; past the end, an end token at offset zero. -/
def peek : List Token → Token
  | [] => ⟨.tokEOF, "", 0⟩
  | t :: _ => t

/-- Consume a token of the given kind or report what stands there instead. -/
def expect (unicode : Unicode) (kind : TokenKind) (desc : String) (tokens : List Token) :
    Except ParseError (Token × List Token) :=
  let t := peek tokens
  if t.kind ≠ kind then
    .error (.failure ("expected " ++ desc ++ ", got " ++ t.string unicode ++ " at position " ++
      toString t.pos))
  else .ok (t, tokens.tail)

def expectString (unicode : Unicode) (tokens : List Token) :
    Except ParseError (String × List Token) := do
  let (t, rest) ← expect unicode .tokString "string literal" tokens
  return (t.val, rest)

/-- The loop over the strings of an IN list, up to the first token that is not a
comma. The values go into a set, their quoted texts into a list. -/
def parseInValues (unicode : Unicode) : Nat → Finset String → List String → List Token →
    Except ParseError ((Finset String × List String) × List Token)
  | 0, _, _, _ => .error .fuelExhausted
  | fuel + 1, vals, reprs, tokens => do
    let (s, rest) ← expectString unicode tokens
    let vals := insert s vals
    let reprs := reprs ++ [quote unicode s]
    if (peek rest).kind = .tokComma then parseInValues unicode fuel vals reprs rest.tail
    else return ((vals, reprs), rest)

def parseComparison (unicode : Unicode) (key : String) (tokens : List Token) :
    Except ParseError (Predicate × List Token) :=
  let op := peek tokens
  match op.kind with
  | .tokEq => do
    let (s, rest) ← expectString unicode tokens.tail
    return (.eqPred key s, rest)
  | .tokNe => do
    let (s, rest) ← expectString unicode tokens.tail
    return (.nePred key s, rest)
  | .tokLike => do
    let (pattern, rest) ← expectString unicode tokens.tail
    match globToRegexp pattern with
    | .error message =>
      .error (.failure ("invalid LIKE pattern " ++ quote unicode pattern ++ ": " ++ message))
    | .ok rx => return (.likePred key pattern rx, rest)
  | .tokIn => do
    let (_, opened) ← expect unicode .tokLParen "'('" tokens.tail
    let ((vals, reprs), rest) ← parseInValues unicode (opened.length + 1) ∅ [] opened
    let (_, closed) ← expect unicode .tokRParen "')'" rest
    return (.inPred key vals (", ".intercalate reprs), closed)
  | _ => .error (.failure ("expected operator (=, !=, LIKE, IN) after " ++ quote unicode key ++
      ", got " ++ op.string unicode ++ " at position " ++ toString op.pos))

mutual

def parseOr (unicode : Unicode) : Nat → List Token → Except ParseError (Predicate × List Token)
  | 0, _ => .error .fuelExhausted
  | fuel + 1, tokens => do
    let (left, rest) ← parseAnd unicode fuel tokens
    parseOrTail unicode fuel left rest

/-- The loop of `parseOr`: it folds the operands it finds to the left. -/
def parseOrTail (unicode : Unicode) : Nat → Predicate → List Token →
    Except ParseError (Predicate × List Token)
  | 0, _, _ => .error .fuelExhausted
  | fuel + 1, left, tokens =>
    if (peek tokens).kind = .tokOr then do
      let (right, rest) ← parseAnd unicode fuel tokens.tail
      parseOrTail unicode fuel (.orPred left right) rest
    else .ok (left, tokens)

def parseAnd (unicode : Unicode) : Nat → List Token → Except ParseError (Predicate × List Token)
  | 0, _ => .error .fuelExhausted
  | fuel + 1, tokens => do
    let (left, rest) ← parseNot unicode fuel tokens
    parseAndTail unicode fuel left rest

/-- The loop of `parseAnd`. -/
def parseAndTail (unicode : Unicode) : Nat → Predicate → List Token →
    Except ParseError (Predicate × List Token)
  | 0, _, _ => .error .fuelExhausted
  | fuel + 1, left, tokens =>
    if (peek tokens).kind = .tokAnd then do
      let (right, rest) ← parseNot unicode fuel tokens.tail
      parseAndTail unicode fuel (.andPred left right) rest
    else .ok (left, tokens)

def parseNot (unicode : Unicode) : Nat → List Token → Except ParseError (Predicate × List Token)
  | 0, _ => .error .fuelExhausted
  | fuel + 1, tokens =>
    if (peek tokens).kind = .tokNot then do
      let (inner, rest) ← parseNot unicode fuel tokens.tail
      return (.notPred inner, rest)
    else parsePrimary unicode fuel tokens

def parsePrimary (unicode : Unicode) : Nat → List Token →
    Except ParseError (Predicate × List Token)
  | 0, _ => .error .fuelExhausted
  | fuel + 1, tokens =>
    let t := peek tokens
    match t.kind with
    | .tokLParen => do
      let (inner, rest) ← parseOr unicode fuel tokens.tail
      let (_, closed) ← expect unicode .tokRParen "')'" rest
      return (inner, closed)
    | .tokExists => do
      let (ident, rest) ← expect unicode .tokIdent "attribute name" tokens.tail
      return (.existsPred ident.val, rest)
    | .tokIdent => parseComparison unicode t.val tokens.tail
    | _ => .error (.failure ("unexpected token " ++ t.string unicode ++ " at position " ++
        toString t.pos))

end

/-- The calls a token list of some length can need. -/
def parseBudget (length : Nat) : Nat := 5 * length + 4

/-- Compile an expression: lex it, parse one `expr` and require that it ends there. -/
def parse (unicode : Unicode) (expr : String) : Except ParseError Predicate := do
  let tokens ← lex unicode expr
  let (pred, rest) ← parseOr unicode (parseBudget tokens.length) tokens
  if (peek rest).kind = .tokEOF then return pred
  else .error (.failure ("unexpected token " ++ (peek rest).string unicode ++ " at position " ++
    toString (peek rest).pos))

/-- A step that ends within its budget and leaves fewer tokens than a bound. -/
structure Productive {α : Type} (bound : Nat) (result : Except ParseError (α × List Token)) :
    Prop where
  finishes : result ≠ .error .fuelExhausted
  consumes : ∀ value rest, result = .ok (value, rest) → rest.length < bound

/-- Sequencing keeps a budget: the second step starts from the tokens the first
one left. -/
theorem Productive.bind {α β : Type} {bound final : Nat}
    {first : Except ParseError (α × List Token)}
    {second : α × List Token → Except ParseError (β × List Token)}
    (productive : Productive bound first)
    (next : ∀ value rest, rest.length < bound → Productive final (second (value, rest))) :
    Productive final (first >>= second) := by
  cases ran : first with
  | error e =>
    refine ⟨?_, ?_⟩
    · intro failed
      have exhausted : e = .fuelExhausted := Except.error.inj failed
      exact productive.finishes (by rw [ran, exhausted])
    · intro value rest succeeded
      cases succeeded
  | ok reached =>
    exact next reached.1 reached.2 (productive.consumes reached.1 reached.2 ran)

/-- A result that leaves fewer tokens than the bound is productive. -/
theorem Productive.pure {α : Type} {bound : Nat} (value : α) (rest : List Token)
    (shorter : rest.length < bound) :
    Productive bound (.ok (value, rest) : Except ParseError (α × List Token)) := by
  refine ⟨by simp, ?_⟩
  intro result remaining same
  simp only [Except.ok.injEq, Prod.mk.injEq] at same
  exact same.2 ▸ shorter

/-- A reported error is productive. -/
theorem Productive.fail {α : Type} {bound : Nat} (message : String) :
    Productive bound (.error (.failure message) : Except ParseError (α × List Token)) :=
  ⟨by simp, by simp⟩

/-- A list whose next token is not the default one is not empty. -/
theorem tail_shorter (tokens : List Token) (present : (peek tokens).kind ≠ .tokEOF) :
    tokens.tail.length < tokens.length := by
  cases tokens with
  | nil => exact absurd rfl present
  | cons t rest => simp

/-- Expecting a token takes it or reports an error. -/
theorem expect_productive (unicode : Unicode) (kind : TokenKind) (desc : String)
    (tokens : List Token) (real : kind ≠ .tokEOF) :
    Productive tokens.length (expect unicode kind desc tokens) := by
  unfold expect
  by_cases found : (peek tokens).kind = kind
  · simp only [found, ne_eq, not_true_eq_false, if_false]
    exact Productive.pure _ _ (tail_shorter tokens (found ▸ real))
  · simp only [found, ne_eq, not_false_eq_true, if_true]
    exact Productive.fail _

/-- Expecting a string takes it or reports an error. -/
theorem expectString_productive (unicode : Unicode) (tokens : List Token) :
    Productive tokens.length (expectString unicode tokens) :=
  (expect_productive unicode .tokString "string literal" tokens (by decide)).bind
    (fun t rest shorter => Productive.pure t.val rest shorter)

/-- The IN loop takes a string and a comma in every round that goes on. -/
theorem parseInValues_productive (unicode : Unicode) (fuel : Nat) (vals : Finset String)
    (reprs : List String) (tokens : List Token) (enough : tokens.length < fuel) :
    Productive tokens.length (parseInValues unicode fuel vals reprs tokens) := by
  induction fuel generalizing vals reprs tokens with
  | zero => omega
  | succ fuel inductionHypothesis =>
    apply (expectString_productive unicode tokens).bind
    intro s rest shorter
    dsimp only
    split
    · next comma =>
      have fewer : rest.tail.length < rest.length := tail_shorter rest (by simp [comma])
      have inner := inductionHypothesis (insert s vals) (reprs ++ [quote unicode s]) rest.tail
        (by omega)
      refine ⟨inner.finishes, ?_⟩
      intro value remaining succeeded
      have consumed := inner.consumes value remaining succeeded
      omega
    · exact Productive.pure _ _ shorter

/-- A comparison takes at least its operator or reports an error. -/
theorem parseComparison_productive (unicode : Unicode) (key : String) (tokens : List Token) :
    Productive tokens.length (parseComparison unicode key tokens) := by
  unfold parseComparison
  dsimp only
  split
  · next kind =>
    have fewer := tail_shorter tokens (by simp [kind])
    apply (expectString_productive unicode tokens.tail).bind
    intro s rest shorter
    exact Productive.pure _ _ (shorter.trans fewer)
  · next kind =>
    have fewer := tail_shorter tokens (by simp [kind])
    apply (expectString_productive unicode tokens.tail).bind
    intro s rest shorter
    exact Productive.pure _ _ (shorter.trans fewer)
  · next kind =>
    have fewer := tail_shorter tokens (by simp [kind])
    apply (expectString_productive unicode tokens.tail).bind
    intro pattern rest shorter
    exact Productive.pure _ _ (shorter.trans fewer)
  · next kind =>
    have fewer := tail_shorter tokens (by simp [kind])
    apply (expect_productive unicode .tokLParen "'('" tokens.tail (by decide)).bind
    intro _ opened openedShorter
    apply (parseInValues_productive unicode (opened.length + 1) ∅ [] opened
      (Nat.lt_succ_self _)).bind
    intro _ rest shorter
    apply (expect_productive unicode .tokRParen "')'" rest (by decide)).bind
    intro _ closed closedShorter
    exact Productive.pure _ _ (by dsimp only; omega)
  · exact Productive.fail _

/-- The budgets of the six functions at once. A function that hands its tokens on
unchanged needs one call more than the function it calls; every other call starts
after a token was taken, which frees five. -/
structure Sufficient (unicode : Unicode) (fuel : Nat) : Prop where
  primary : ∀ tokens, 5 * tokens.length + 1 ≤ fuel →
    Productive tokens.length (parsePrimary unicode fuel tokens)
  not : ∀ tokens, 5 * tokens.length + 2 ≤ fuel →
    Productive tokens.length (parseNot unicode fuel tokens)
  and : ∀ tokens, 5 * tokens.length + 3 ≤ fuel →
    Productive tokens.length (parseAnd unicode fuel tokens)
  andTail : ∀ left tokens, 5 * tokens.length + 1 ≤ fuel →
    Productive (tokens.length + 1) (parseAndTail unicode fuel left tokens)
  or : ∀ tokens, 5 * tokens.length + 4 ≤ fuel →
    Productive tokens.length (parseOr unicode fuel tokens)
  orTail : ∀ left tokens, 5 * tokens.length + 1 ≤ fuel →
    Productive (tokens.length + 1) (parseOrTail unicode fuel left tokens)

/-- Fewer remaining tokens satisfy any larger bound. -/
theorem Productive.mono {α : Type} {bound larger : Nat}
    {result : Except ParseError (α × List Token)} (productive : Productive bound result)
    (le : bound ≤ larger) : Productive larger result :=
  ⟨productive.finishes, fun value rest ran => (productive.consumes value rest ran).trans_le le⟩

/-- With enough fuel for its tokens no parsing function runs out of it. -/
theorem parser_sufficient (unicode : Unicode) (fuel : Nat) : Sufficient unicode fuel := by
  induction fuel with
  | zero => constructor <;> intros <;> omega
  | succ fuel inductionHypothesis =>
    refine ⟨?_, ?_, ?_, ?_, ?_, ?_⟩
    · intro tokens enough
      simp only [parsePrimary]
      split
      · next kind =>
        have fewer := tail_shorter tokens (by simp [kind])
        apply (inductionHypothesis.or tokens.tail (by omega)).bind
        intro inner rest shorter
        apply (expect_productive unicode .tokRParen "')'" rest (by decide)).bind
        intro _ closed closedShorter
        exact Productive.pure _ _ (by dsimp only; omega)
      · next kind =>
        have fewer := tail_shorter tokens (by simp [kind])
        apply (expect_productive unicode .tokIdent "attribute name" tokens.tail (by decide)).bind
        intro ident rest shorter
        exact Productive.pure _ _ (shorter.trans fewer)
      · next kind =>
        have fewer := tail_shorter tokens (by simp [kind])
        exact (parseComparison_productive unicode _ tokens.tail).mono fewer.le
      · exact Productive.fail _
    · intro tokens enough
      simp only [parseNot]
      split
      · next kind =>
        have fewer := tail_shorter tokens (by simp [kind])
        apply (inductionHypothesis.not tokens.tail (by omega)).bind
        intro inner rest shorter
        exact Productive.pure _ _ (shorter.trans fewer)
      · exact inductionHypothesis.primary tokens (by omega)
    · intro tokens enough
      simp only [parseAnd]
      apply (inductionHypothesis.not tokens (by omega)).bind
      intro left rest shorter
      exact (inductionHypothesis.andTail left rest (by omega)).mono shorter
    · intro left tokens enough
      simp only [parseAndTail]
      split
      · next kind =>
        have fewer := tail_shorter tokens (by simp [kind])
        apply (inductionHypothesis.not tokens.tail (by omega)).bind
        intro right rest shorter
        exact (inductionHypothesis.andTail _ rest (by omega)).mono (by omega)
      · exact Productive.pure _ _ (Nat.lt_succ_self _)
    · intro tokens enough
      simp only [parseOr]
      apply (inductionHypothesis.and tokens (by omega)).bind
      intro left rest shorter
      exact (inductionHypothesis.orTail left rest (by omega)).mono shorter
    · intro left tokens enough
      simp only [parseOrTail]
      split
      · next kind =>
        have fewer := tail_shorter tokens (by simp [kind])
        apply (inductionHypothesis.and tokens.tail (by omega)).bind
        intro right rest shorter
        exact (inductionHypothesis.orTail _ rest (by omega)).mono (by omega)
      · exact Productive.pure _ _ (Nat.lt_succ_self _)

/-- Compiling an expression always ends with a predicate or a reported error. -/
theorem parse_finishes (unicode : Unicode) (expr : String) :
    parse unicode expr ≠ .error .fuelExhausted := by
  unfold parse
  cases lexed : lex unicode expr with
  | error e =>
    intro failed
    have exhausted : e = .fuelExhausted := Except.error.inj failed
    exact lex_finishes unicode expr (by rw [lexed, exhausted])
  | ok tokens =>
    have productive := (parser_sufficient unicode (parseBudget tokens.length)).or tokens
      (Nat.le_refl _)
    intro failed
    cases ran : parseOr unicode (parseBudget tokens.length) tokens with
    | error e =>
      have exhausted : e = .fuelExhausted := by simpa [bind, Except.bind, ran] using failed
      exact productive.finishes (by rw [ran, exhausted])
    | ok reached =>
      simp only [bind, Except.bind, ran] at failed
      split at failed <;> simp [pure, Except.pure] at failed

end FluffyCore.CeFilter
