import FluffyCore.Nats.Substitution
import FluffyCore.Library.MapLoop

/-!
# Reading a subject back into a message

The server compares the subject of a request with the parameterized subject of its
endpoint, segment by segment, and sets the fields that placeholders name. It splits
the two in different ways: the parameterized subject by an expression that takes words
and placeholders, the subject at the dots outside braces.
-/

namespace FluffyCore.Nats

open Library.MapLoop Library.Replacement

/-- A character of `\w`. -/
def wordChar (c : Char) : Bool := c.isAlphanum || c == '_'

/-- Scan for words and placeholders after skipping some characters of one. -/
def parseTokensFrom : Nat → Text → List Text
  | _, [] => []
  | skip + 1, _ :: rest => parseTokensFrom skip rest
  | 0, c :: rest =>
      if wordChar c then
        let word := c :: rest.takeWhile wordChar
        word :: parseTokensFrom (word.length - 1) rest
      else
        match matchPlaceholder (c :: rest) with
        | some name => placeholderText name :: parseTokensFrom (name.length + 2) rest
        | none => parseTokensFrom 0 rest

def parseTokens (expr : Text) : List Text := parseTokensFrom 0 expr

/-- The state of the loop in `tokenizeRouteWithNesting`. -/
structure Nesting where
  tokens : List Text
  currentToken : Text
  depth : Int

/-- Close the current token, unless it is empty. -/
def Nesting.flush (state : Nesting) : Nesting :=
  if state.currentToken = [] then state
  else { state with tokens := state.tokens ++ [state.currentToken], currentToken := [] }

def Nesting.write (state : Nesting) (r : Char) (depth : Int) : Nesting :=
  { state with currentToken := state.currentToken ++ [r], depth := depth }

/-- One round of the loop. -/
def Nesting.next (state : Nesting) (r : Char) : Nesting :=
  if r = '.' ∧ state.depth = 0 then state.flush
  else if r = '{' then state.write r (state.depth + 1)
  else if r = '}' then state.write r (state.depth - 1)
  else state.write r state.depth

def tokenizeRouteWithNesting (route : Text) : List Text :=
  (route.foldl Nesting.next ⟨[], [], 0⟩).flush.tokens

def isParameterToken (token : Text) : Bool :=
  ['$', '{'].isPrefixOf token && ['}'].isSuffixOf token

/-- The loop that matches tokens: a static token must be the route's, a parameter takes
what the route has. -/
def matchTokens : List Text → List Text → FiniteMap Text Text →
    Except SubjectError (FiniteMap Text Text)
  | token :: tokens, routeToken :: routeTokens, params =>
      if isParameterToken token then
        matchTokens tokens routeTokens (params.insert (token.drop 2).dropLast routeToken)
      else if token ≠ routeToken then .error (.segmentMismatch token routeToken)
      else matchTokens tokens routeTokens params
  | _, _, params => .ok params

def extractRouteParams (route parameterizedRoute : Text) :
    Except SubjectError (FiniteMap Text Text) :=
  let tokens := parseTokens parameterizedRoute
  let routeTokens := tokenizeRouteWithNesting route
  if routeTokens.length ≠ tokens.length then
    .error (.tokenCount routeTokens.length tokens.length)
  else matchTokens tokens routeTokens ∅

/-- The number a text of decimal digits stands for. -/
def parseDigits (text : Text) : Option Nat :=
  if text ≠ [] ∧ text.all Char.isDigit then
    some (text.foldl (fun number c => 10 * number + (c.toNat - '0'.toNat)) 0)
  else none

/-- `strconv.ParseInt` with base 10 and 64 bits. -/
def parseInt64 : Text → Option Int
  | '-' :: digits =>
      match parseDigits digits with
      | some number => if number ≤ 2 ^ 63 then some (-number) else none
      | none => none
  | '+' :: digits =>
      match parseDigits digits with
      | some number => if number < 2 ^ 63 then some number else none
      | none => none
  | digits =>
      match parseDigits digits with
      | some number => if number < 2 ^ 63 then some number else none
      | none => none

/-- The parameterized subject of an endpoint in `HandleRequest`. -/
def fixedParameterizedToken (groupName parameterizedToken : Text) : Text :=
  if groupName ≠ [] then groupName ++ '.' :: parameterizedToken else parameterizedToken

variable {Message Payload : Type}

/-- One round of the loop over the path map. An integer is marshalled as its decimal
text, as is the number of that text. Fields of other kinds are left alone. -/
def Codec.injectParam (codec : Codec Message Payload) (params : FiniteMap Text Text)
    (payload : Payload) (k : Text) : Except SubjectError Payload :=
  let v := (params.lookup k).getD []
  match codec.get payload k with
  | .error err => .error (.library err)
  | .ok (.string _) => .ok (codec.set payload k (.string v))
  | .ok (.float64 _) =>
      match parseInt64 v with
      | none => .error (.invalidInt v)
      | some i64 => .ok (codec.set payload k (.float64 (toString i64).toList))
  | .ok _ => .ok payload

/-- `InjectParameterizedRoutesIntoProtoMessage`, when the path map is visited in some
order. -/
def Codec.injectParameterizedRoutes (codec : Codec Message Payload)
    (route parameterizedRoute : Text) (m : Message) (order : List Text) :
    Except SubjectError Message :=
  match codec.payload m with
  | .error err => .error (.library err)
  | .ok payload =>
      match extractRouteParams route parameterizedRoute with
      | .error err => .error err
      | .ok pathMap =>
          match order.foldlM (codec.injectParam pathMap) payload with
          | .error err => .error err
          | .ok payload =>
              match codec.message payload with
              | .error err => .error (.library err)
              | .ok m => .ok m

end FluffyCore.Nats
