import FluffyCore.Nats.Substitution
import Mathlib.Data.List.Nodup

/-!
# The subjects of generated code

The generator emits three pieces of code for a unary method that must agree on a
subject: the endpoint that listens for it, the method of the NATS client, and the map
a gRPC client interceptor takes subjects from. The endpoint and the client put the
name of the group in front. The map does not, so the interceptor publishes on a
subject with fewer tokens than the endpoint's.
-/

namespace FluffyCore.Nats

open Library.Replacement

/-- The handler annotation of a method. -/
structure HandlerRule where
  wildcardToken : Text
  parameterizedToken : Text

/-- A method of a proto service, as the generator reads it. -/
structure Method where
  name : Text
  handler : Option HandlerRule
  ignored : Bool

/-- A proto service with its package and its leading comment. -/
structure Service where
  package : Text
  name : Text
  comment : Text
  methods : List Method

structure NATSMicroHandlerInfo where
  wildcardToken : Text
  parameterizedToken : Text

/-- A character of `\s`. -/
def spaceChar (c : Char) : Bool := c == ' ' || c == '\t' || c == '\n' || c.toNat == 12 || c == '\r'

def namespaceTag : Text := "fluffycore:nats:namespace:".toList

/-- The first match of the namespace expression, from its tag on. -/
def extractNatsNamespace : Text → Option Text
  | [] => none
  | c :: rest =>
      let value := ((c :: rest).drop namespaceTag.length).takeWhile (!spaceChar ·)
      if namespaceTag <+: c :: rest ∧ value ≠ [] then some (namespaceTag ++ value)
      else extractNatsNamespace rest

def extractLastPart (text : Text) : Text := (text.splitOn ':').getLast?.getD []

def getServiceNamespace (service : Service) : Text :=
  match extractNatsNamespace service.comment with
  | some found => extractLastPart found
  | none => []

/-- A token with a dot before it, unless it is empty. -/
def dotted (token : Text) : Text := if token ≠ [] then '.' :: token else token

section Generator

variable (goCamelCase : Text → Text)

def Method.goName (method : Method) : Text := goCamelCase method.name

def Service.goName (service : Service) : Text := goCamelCase service.name

def hrvFromMethod (method : Method) : NATSMicroHandlerInfo :=
  match method.handler with
  | none => ⟨method.goName goCamelCase, method.goName goCamelCase⟩
  | some hr =>
      { wildcardToken := method.goName goCamelCase ++ dotted hr.wildcardToken
        parameterizedToken := method.goName goCamelCase ++ dotted hr.parameterizedToken }

/-- The name of the service's group: the package and the service, after the namespace
if there is one. -/
def Service.groupName (service : Service) : Text :=
  let namespaceName := getServiceNamespace service
  (if namespaceName ≠ [] then namespaceName ++ ['.'] else namespaceName) ++
    (service.package ++ '.' :: service.goName goCamelCase)

/-- The key of a method in the generated map. -/
def methodKey (service : Service) (method : Method) : Text :=
  '/' :: (service.package ++ '.' ::
    (service.goName goCamelCase ++ '/' :: method.goName goCamelCase))

/-- The full method name a gRPC client passes to its interceptors. -/
def fullMethodName (service : Service) (method : Method) : Text :=
  '/' :: (service.package ++ '.' :: (service.name ++ '/' :: method.name))

/-- The generated map from methods to handler infos. -/
def handlerRuleMap (service : Service) : List (Text × NATSMicroHandlerInfo) :=
  (service.methods.filter (!·.ignored)).map fun method =>
    (methodKey goCamelCase service method, hrvFromMethod goCamelCase method)

/-- `MethodToSubject` of the service. -/
def methodToSubject (service : Service) (method : Text) : Option Text :=
  ((handlerRuleMap goCamelCase service).lookup method).map (·.wildcardToken)

/-- The subject an endpoint listens on: the one given to it, after the group's name. -/
def listeningSubject (service : Service) (method : Method) : Text :=
  service.groupName goCamelCase ++ '.' :: (hrvFromMethod goCamelCase method).wildcardToken

variable {Message Payload : Type} (codec : Codec Message Payload)

/-- The subject the generated client method publishes on. -/
def clientSubject (service : Service) (method : Method) (m : Message) : Except SubjectError Text :=
  codec.replaceTokens
    (service.groupName goCamelCase ++
      '.' :: (hrvFromMethod goCamelCase method).parameterizedToken) m

/-- The subject the generated interceptor publishes on. -/
def interceptorSubject (service : Service) (fullMethod : Text) (m : Message) :
    Except SubjectError Text :=
  match methodToSubject goCamelCase service fullMethod with
  | none => .error (.library (.status .internal "methodToSubject failed"))
  | some subject => codec.replaceTokens subject m

end Generator

/-- NATS matching of a subject's tokens: a star takes one token, a final ">" one or more. -/
def tokensMatch : List Text → List Text → Bool
  | [['>']], _ :: _ => true
  | expected :: pattern, token :: subject =>
      (expected == ['*'] || expected == token) && tokensMatch pattern subject
  | [], [] => true
  | _, _ => false

def subjectMatches (pattern subject : Text) : Bool :=
  tokensMatch (pattern.splitOn '.') (subject.splitOn '.')

/-- A pattern is not longer than a subject it matches. -/
theorem length_le_of_tokensMatch (pattern subject : List Text)
    (matched : tokensMatch pattern subject = true) : pattern.length ≤ subject.length := by
  fun_induction tokensMatch pattern subject with
  | case1 => simp
  | case2 expected pattern token subject _ inductionHypothesis =>
    have later := inductionHypothesis (Bool.and_eq_true_iff.1 matched).2
    simpa using later
  | case3 => exact le_rfl
  | case4 => cases matched

/-- A star and an equal token match, and the rests may. -/
theorem tokensMatch_cons (expected token : Text) (pattern subject : List Text)
    (fits : expected = ['*'] ∨ expected = token) (rest : tokensMatch pattern subject = true) :
    tokensMatch (expected :: pattern) (token :: subject) = true := by
  by_cases final : expected = ['>'] ∧ pattern = []
  · rw [final.1, final.2]
    rfl
  · rw [tokensMatch, rest, Bool.and_true]
    · simpa using fits
    · intro isFinal empty
      exact final ⟨isFinal, empty⟩

/-- A text has one token more than it has dots. -/
theorem length_splitOn (text : Text) : (text.splitOn '.').length = text.count '.' + 1 := by
  induction text with
  | nil => rfl
  | cons c rest inductionHypothesis =>
    rw [List.splitOn_cons_eq_if_modifyHead, List.count_cons]
    split
    · next dot => simp [inductionHypothesis]
    · next other => simp [inductionHypothesis]

/-- Replacing placeholders adds no dot to a subject. -/
theorem count_replaceTokens_le {Message Payload : Type} (codec : Codec Message Payload)
    (parameterizedToken : Text) (m : Message) (subject : Text)
    (replaced : codec.replaceTokens parameterizedToken m = .ok subject) :
    subject.count '.' ≤ parameterizedToken.count '.' := by
  unfold Codec.replaceTokens at replaced
  split at replaced
  · cases replaced
  · next payload decoded =>
    generalize findPlaceholders parameterizedToken = placeholders at replaced
    induction placeholders generalizing parameterizedToken with
    | nil =>
      obtain rfl := Except.ok.inj replaced
      exact le_rfl
    | cons name rest inductionHypothesis =>
      rw [List.foldlM_cons] at replaced
      cases found : codec.fieldText payload name with
      | error err =>
        rw [Codec.replaceToken, found] at replaced
        cases replaced
      | ok value =>
        rw [Codec.replaceToken, found] at replaced
        have noDot : '.' ∉ value := fun dot =>
          Bool.noConfusion ((fieldText_ok codec payload name value found).2.2 _ dot)
        exact (inductionHypothesis _ replaced).trans
          (count_replaceAll_le _ _ (by simp [placeholderText]) '.' noDot _)

section Generated

variable (goCamelCase : Text → Text)

/-- Two full method names with the same package and identifiers for services agree part
by part. -/
theorem method_of_fullMethodName (package service service' method method' : Text)
    (plain : '/' ∉ service) (plain' : '/' ∉ service')
    (same : '/' :: (package ++ '.' :: (service ++ '/' :: method)) =
      '/' :: (package ++ '.' :: (service' ++ '/' :: method'))) : method = method' := by
  have rests := List.append_cancel_left (List.cons.inj same).2
  have names := (List.cons.inj rests).2
  have split := congrArg (List.splitOn '/') names
  rw [List.splitOn_append_cons_self_of_not_mem plain,
    List.splitOn_append_cons_self_of_not_mem plain'] at split
  have methods := congrArg (List.intercalate ['/']) (List.cons.inj split).2
  rwa [List.intercalate_splitOn, List.intercalate_splitOn] at methods

/-- What the interceptor finds under a method's full name is the info of the method. -/
theorem methodToSubject_fullMethodName
    (idempotent : ∀ name, goCamelCase (goCamelCase name) = goCamelCase name)
    (identifier : ∀ name, '/' ∉ name → '/' ∉ goCamelCase name) (service : Service)
    (plain : '/' ∉ service.name)
    (distinct : (service.methods.map (Method.goName goCamelCase)).Nodup) (method : Method)
    (declared : method ∈ service.methods) (subject : Text)
    (found : methodToSubject goCamelCase service (fullMethodName service method) = some subject) :
    subject = (hrvFromMethod goCamelCase method).wildcardToken := by
  obtain ⟨info, listed, rfl⟩ := Option.map_eq_some_iff.1 found
  obtain ⟨before, after, split, _⟩ := List.lookup_eq_some_iff.1 listed
  have inside : (fullMethodName service method, info) ∈ handlerRuleMap goCamelCase service := by
    simp [split]
  obtain ⟨other, kept, same⟩ := List.mem_map.1 inside
  obtain ⟨key, rfl⟩ := Prod.mk.inj same
  have goName : other.goName goCamelCase = method.name :=
    method_of_fullMethodName _ _ _ _ _ (identifier _ plain) plain key
  have sameName : other.goName goCamelCase = method.goName goCamelCase := by
    rw [Method.goName, Method.goName, ← goName, Method.goName, idempotent]
  rw [List.inj_on_of_nodup_map distinct (List.mem_of_mem_filter kept) declared sameName]

/-- The interceptor's subject has fewer tokens than the endpoint's. -/
theorem interceptorSubject_unmatched
    (idempotent : ∀ name, goCamelCase (goCamelCase name) = goCamelCase name)
    (identifier : ∀ name, '/' ∉ name → '/' ∉ goCamelCase name) (service : Service)
    (plain : '/' ∉ service.name)
    (distinct : (service.methods.map (Method.goName goCamelCase)).Nodup) (method : Method)
    (declared : method ∈ service.methods) {Message Payload : Type} (codec : Codec Message Payload)
    (m : Message) (subject : Text)
    (published : interceptorSubject goCamelCase codec service (fullMethodName service method) m =
      .ok subject) :
    subjectMatches (listeningSubject goCamelCase service method) subject = false := by
  unfold interceptorSubject at published
  split at published
  · cases published
  · next unreplaced found =>
    obtain rfl := methodToSubject_fullMethodName goCamelCase idempotent identifier service plain
      distinct method declared unreplaced found
    rw [← Bool.not_eq_true]
    intro matched
    have fewer := count_replaceTokens_le codec _ m subject published
    have enough := length_le_of_tokensMatch _ _ matched
    rw [length_splitOn, length_splitOn, listeningSubject, List.count_append,
      List.count_cons_self] at enough
    omega

/-- Both client paths publish on one subject, and the endpoint listens on it. -/
def BothReach {Message Payload : Type} (codec : Codec Message Payload) (service : Service)
    (method : Method) (m : Message) : Prop :=
  ∃ subject, clientSubject goCamelCase codec service method m = .ok subject ∧
    interceptorSubject goCamelCase codec service (fullMethodName service method) m = .ok subject ∧
    subjectMatches (listeningSubject goCamelCase service method) subject = true

/-- The interceptor does not reach the endpoint of any method, so the two client paths
never both do. -/
theorem interceptor_never_reaches
    (idempotent : ∀ name, goCamelCase (goCamelCase name) = goCamelCase name)
    (identifier : ∀ name, '/' ∉ name → '/' ∉ goCamelCase name) (service : Service)
    (plain : '/' ∉ service.name)
    (distinct : (service.methods.map (Method.goName goCamelCase)).Nodup) (method : Method)
    (declared : method ∈ service.methods) {Message Payload : Type} (codec : Codec Message Payload)
    (m : Message) : ¬ BothReach goCamelCase codec service method m := by
  rintro ⟨subject, _, published, matched⟩
  rw [interceptorSubject_unmatched goCamelCase idempotent identifier service plain distinct method
    declared codec m subject published] at matched
  cases matched

/-- The token an endpoint's subject has for a segment. -/
def Segment.wildcard : Segment → Text
  | .literal fixed => fixed.text
  | .placeholder _ => ['*']

/-- An endpoint's subject matches the tokens of a request, whatever the values are. -/
theorem tokensMatch_wildcard (value : Text → Text) (segments : List Segment) :
    tokensMatch (segments.map Segment.wildcard) (segments.map (Segment.token value)) = true := by
  induction segments with
  | nil => rfl
  | cons segment rest inductionHypothesis =>
    have fits : segment.wildcard = ['*'] ∨ segment.wildcard = segment.token value := by
      cases segment with
      | literal fixed => exact Or.inr rfl
      | placeholder path => exact Or.inl rfl
    exact tokensMatch_cons _ _ _ _ fits inductionHypothesis

/-- The client method reaches the endpoint when its rounds are separate: the subject
the endpoint listens on has a star for every placeholder of the client's. -/
theorem clientSubject_matched {Message Payload : Type} (codec : Codec Message Payload)
    (service : Service) (method : Method) (segments : List Segment) (nonempty : segments ≠ [])
    (parameterized : service.groupName goCamelCase ++ '.' ::
      (hrvFromMethod goCamelCase method).parameterizedToken = render segments)
    (wildcard : listeningSubject goCamelCase service method =
      ['.'].intercalate (segments.map Segment.wildcard)) (m : Message) (payload : Payload)
    (decoded : codec.payload m = .ok payload)
    (separate : Separate (codec.valueOf payload) segments [] (paths segments)) (subject : Text)
    (published : clientSubject goCamelCase codec service method m = .ok subject) :
    subjectMatches (listeningSubject goCamelCase service method) subject = true := by
  rw [clientSubject, parameterized] at published
  obtain ⟨payload', decoded', accepted, rfl⟩ := replaceTokens_ok codec segments m subject published
  obtain rfl := Except.ok.inj (decoded.symm.trans decoded')
  have characters := token_characters codec payload segments accepted
  have patterns : ∀ token ∈ segments.map Segment.wildcard, '.' ∉ token := by
    intro token listed
    obtain ⟨segment, inside, rfl⟩ := List.mem_map.1 listed
    cases segment with
    | literal fixed => exact fun dot => (fixed.plain _ dot).1 rfl
    | placeholder path => exact (by decide : '.' ∉ ['*'])
  rw [replaceEach_of_separate _ segments separate, wildcard, subjectMatches,
    List.splitOn_intercalate '.' patterns (by simpa using nonempty),
    List.splitOn_intercalate '.' (fun token listed => (characters token listed).1)
      (by simpa using nonempty)]
  exact tokensMatch_wildcard _ segments

end Generated

section Samples

/-- A method without an annotation. -/
def sayHello : Method := ⟨"SayHello".toList, none, false⟩

/-- The greeter service, whose names are Go names already. -/
def greeter : Service := ⟨"helloworld".toList, "Greeter".toList, [], [sayHello]⟩

/-- The client method publishes on the endpoint's subject and the interceptor on the name
of the method alone. -/
theorem interceptor_omits_group :
    clientSubject id recordCodec greeter sayHello (fun _ => none) =
        .ok "helloworld.Greeter.SayHello".toList ∧
      listeningSubject id greeter sayHello = "helloworld.Greeter.SayHello".toList ∧
      interceptorSubject id recordCodec greeter (fullMethodName greeter sayHello) (fun _ => none) =
        .ok "SayHello".toList ∧
      subjectMatches (listeningSubject id greeter sayHello) "SayHello".toList = false := by
  decide

/-- The two client paths of the greeter's method do not both reach its endpoint. -/
theorem interceptor_never_reaches_greeter :
    ¬ BothReach id recordCodec greeter sayHello fun _ => none :=
  interceptor_never_reaches id (fun _ => rfl) (fun _ plain => plain) greeter (by decide)
    (List.nodup_singleton _) sayHello (List.mem_singleton_self _) recordCodec fun _ => none

end Samples

end FluffyCore.Nats
