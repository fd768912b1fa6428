import FluffyCore.CeFilter.Parser

/-!
# The documented grammar

The grammar stated at `Parse`, with its derivations as trees over the tokens they yield. A
repetition is a chain of operators and operands. A derivation is read in two ways with one
fold: as a predicate tree and as the boolean value it has on an event. The fold takes a
chain from the left and passes through parentheses, so both readings have the precedence
and the association that the grammar writes down.
-/

namespace FluffyCore.CeFilter

open Library.QuotedText

/-- The nonterminals, with one for each repetition: `{ OR and_expr }`, `{ AND not_expr }` and
the strings of an IN list. -/
inductive Nonterminal where
  | orExpr
  | orChain
  | andExpr
  | andChain
  | notExpr
  | primary
  | strings

/-- The derivations of a token list from a nonterminal, one constructor for each
alternative. -/
inductive Derivation : Nonterminal → List Token → Type where
  | orExpr {first rest : List Token} (operand : Derivation .andExpr first)
      (chain : Derivation .orChain rest) : Derivation .orExpr (first ++ rest)
  | orEnd : Derivation .orChain []
  | orMore {first rest : List Token} (word : Token) (isOr : word.kind = .tokOr)
      (operand : Derivation .andExpr first) (chain : Derivation .orChain rest) :
      Derivation .orChain (word :: (first ++ rest))
  | andExpr {first rest : List Token} (operand : Derivation .notExpr first)
      (chain : Derivation .andChain rest) : Derivation .andExpr (first ++ rest)
  | andEnd : Derivation .andChain []
  | andMore {first rest : List Token} (word : Token) (isAnd : word.kind = .tokAnd)
      (operand : Derivation .notExpr first) (chain : Derivation .andChain rest) :
      Derivation .andChain (word :: (first ++ rest))
  | not {inner : List Token} (word : Token) (isNot : word.kind = .tokNot)
      (operand : Derivation .notExpr inner) : Derivation .notExpr (word :: inner)
  | positive {tokens : List Token} (operand : Derivation .primary tokens) :
      Derivation .notExpr tokens
  | paren {inner : List Token} (opening closing : Token) (isOpening : opening.kind = .tokLParen)
      (isClosing : closing.kind = .tokRParen) (expr : Derivation .orExpr inner) :
      Derivation .primary (opening :: (inner ++ [closing]))
  | existsIdent (word ident : Token) (isExists : word.kind = .tokExists)
      (isIdent : ident.kind = .tokIdent) : Derivation .primary [word, ident]
  | inList {listed : List Token} (ident word opening closing : Token)
      (isIdent : ident.kind = .tokIdent) (isIn : word.kind = .tokIn)
      (isOpening : opening.kind = .tokLParen) (isClosing : closing.kind = .tokRParen)
      (values : Derivation .strings listed) :
      Derivation .primary (ident :: word :: opening :: (listed ++ [closing]))
  | likeString (ident word string : Token) (isIdent : ident.kind = .tokIdent)
      (isLike : word.kind = .tokLike) (isString : string.kind = .tokString) :
      Derivation .primary [ident, word, string]
  | eqString (ident sign string : Token) (isIdent : ident.kind = .tokIdent)
      (isEq : sign.kind = .tokEq) (isString : string.kind = .tokString) :
      Derivation .primary [ident, sign, string]
  | neString (ident sign string : Token) (isIdent : ident.kind = .tokIdent)
      (isNe : sign.kind = .tokNe) (isString : string.kind = .tokString) :
      Derivation .primary [ident, sign, string]
  | lastString (string : Token) (isString : string.kind = .tokString) :
      Derivation .strings [string]
  | moreStrings {listed : List Token} (string comma : Token) (isString : string.kind = .tokString)
      (isComma : comma.kind = .tokComma) (values : Derivation .strings listed) :
      Derivation .strings (string :: comma :: listed)

/-- What the operators and the comparisons of the grammar stand for. -/
structure Reading (μ : Type) where
  or : μ → μ → μ
  and : μ → μ → μ
  not : μ → μ
  existsIdent : String → μ
  inList : String → List String → μ
  likeString : String → String → μ
  eqString : String → String → μ
  neString : String → String → μ

/-- What a derivation of a nonterminal stands for. A chain continues what stands on its
left. -/
abbrev Nonterminal.Meaning (μ : Type) : Nonterminal → Type
  | .orChain | .andChain => μ → μ
  | .strings => List String
  | .orExpr | .andExpr | .notExpr | .primary => μ

/-- Read a derivation. -/
def Derivation.read {μ : Type} (reading : Reading μ) {nonterminal : Nonterminal}
    {tokens : List Token} : Derivation nonterminal tokens → nonterminal.Meaning μ
  | .orExpr operand chain => chain.read reading (operand.read reading)
  | .orEnd => fun left => left
  | .orMore _ _ operand chain => fun left =>
      chain.read reading (reading.or left (operand.read reading))
  | .andExpr operand chain => chain.read reading (operand.read reading)
  | .andEnd => fun left => left
  | .andMore _ _ operand chain => fun left =>
      chain.read reading (reading.and left (operand.read reading))
  | .not _ _ operand => reading.not (operand.read reading)
  | .positive operand => operand.read reading
  | .paren _ _ _ _ expr => expr.read reading
  | .existsIdent _ ident _ _ => reading.existsIdent ident.val
  | .inList ident _ _ _ _ _ _ _ values => reading.inList ident.val (values.read reading)
  | .likeString ident _ string _ _ _ => reading.likeString ident.val string.val
  | .eqString ident _ string _ _ _ => reading.eqString ident.val string.val
  | .neString ident _ string _ _ _ => reading.neString ident.val string.val
  | .lastString string _ => [string.val]
  | .moreStrings string _ _ _ values => string.val :: values.read reading

/-- The regular expression of a glob pattern. -/
def globRegexp (pattern : String) : Regexp := ⟨pattern.toList.map globItem⟩

/-- Derivations as predicate trees. -/
def predicates (unicode : Unicode) : Reading Predicate where
  or := .orPred
  and := .andPred
  not := .notPred
  existsIdent := .existsPred
  inList key vals := .inPred key vals.toFinset (", ".intercalate (vals.map (quote unicode)))
  likeString key pattern := .likePred key pattern (globRegexp pattern)
  eqString := .eqPred
  neString := .nePred

/-- Derivations as truth values on an event. -/
def truth (a : Attrs) : Reading Bool where
  or := Bool.or
  and := Bool.and
  not := Bool.not
  existsIdent key := (a.lookup key).isSome
  inList key vals := (a.lookup key).any (· ∈ vals)
  likeString key pattern := (a.lookup key).any (globRegexp pattern).matchString
  eqString key val := a.lookup key = some val
  neString key val := a.lookup key ≠ some val

/-- The predicate a derivation of an expression denotes. -/
def Derivation.denote (unicode : Unicode) {tokens : List Token}
    (derivation : Derivation .orExpr tokens) : Predicate :=
  derivation.read (predicates unicode)

/-- The boolean value of a derivation of an expression on an event. -/
def Derivation.value (a : Attrs) {tokens : List Token}
    (derivation : Derivation .orExpr tokens) : Bool :=
  derivation.read (truth a)

end FluffyCore.CeFilter
