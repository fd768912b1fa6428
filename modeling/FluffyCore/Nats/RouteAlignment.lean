import FluffyCore.Nats.RoutableRequests

/-!
# Aligned routes

What a request shows when it arrives as it was sent. Every token of the parameterized
subject was matched with the token of the subject its own segment gave, so the literal
segments are words, the braces are balanced, and every number came back from its text.
This needs placeholders that name text and number fields of their own.
-/

namespace FluffyCore.Nats

open Library.MapLoop Library.Replacement

variable {Message Payload : Type}

/-- The names of the parameters among some tokens. -/
def parameterNames (tokens : List Text) : List Text :=
  (tokens.filter isParameterToken).map fun token => (token.drop 2).dropLast

/-- Tokens that do not name a parameter leave it alone. -/
theorem matchTokens_lookup (tokens routeTokens : List Text) (params params' : FiniteMap Text Text)
    (matched : matchTokens tokens routeTokens params = .ok params') (name : Text)
    (other : name ∉ parameterNames tokens) : params'.lookup name = params.lookup name := by
  induction tokens generalizing routeTokens params with
  | nil => cases matched; rfl
  | cons token rest inductionHypothesis =>
    cases routeTokens with
    | nil => cases matched; rfl
    | cons routeToken routeTokens =>
      rw [matchTokens] at matched
      cases parameter : isParameterToken token with
      | true =>
        simp only [parameterNames, parameter, List.filter_cons_of_pos, List.map_cons, List.mem_cons,
          not_or] at other
        simp only [parameter, if_true] at matched
        rw [inductionHypothesis _ _ matched other.2, Finmap.lookup_insert_of_ne _ other.1]
      | false =>
        simp only [parameterNames, parameter, Bool.false_eq_true, not_false_eq_true,
          List.filter_cons_of_neg] at other
        simp only [parameter, Bool.false_eq_true, if_false] at matched
        split at matched
        · cases matched
        · exact inductionHypothesis _ _ matched other

/-- What a token asks of the route's token, given the parameters that were found. -/
def Takes (params : FiniteMap Text Text) (token routeToken : Text) : Prop :=
  if isParameterToken token then params.lookup (token.drop 2).dropLast = some routeToken
  else token = routeToken

/-- Matching tokens with distinct parameters finds each parameter's own token. -/
theorem matchTokens_takes (tokens routeTokens : List Text) (params params' : FiniteMap Text Text)
    (matched : matchTokens tokens routeTokens params = .ok params')
    (sameLength : routeTokens.length = tokens.length) (distinct : (parameterNames tokens).Nodup) :
    List.Forall₂ (Takes params') tokens routeTokens := by
  induction tokens generalizing routeTokens params with
  | nil =>
    obtain rfl := List.length_eq_zero_iff.1 sameLength
    exact .nil
  | cons token rest inductionHypothesis =>
    cases routeTokens with
    | nil => cases sameLength
    | cons routeToken routeTokens =>
      have shorter : routeTokens.length = rest.length := Nat.succ.inj sameLength
      rw [matchTokens] at matched
      cases parameter : isParameterToken token with
      | true =>
        simp only [parameterNames, parameter, List.filter_cons_of_pos, List.map_cons,
          List.nodup_cons] at distinct
        simp only [parameter, if_true] at matched
        refine .cons ?_ (inductionHypothesis _ _ matched shorter distinct.2)
        rw [Takes, if_pos parameter, matchTokens_lookup rest routeTokens _ params' matched _
          distinct.1, Finmap.lookup_insert]
      | false =>
        simp only [parameterNames, parameter, Bool.false_eq_true, not_false_eq_true,
          List.filter_cons_of_neg] at distinct
        simp only [parameter, Bool.false_eq_true, if_false] at matched
        split at matched
        · cases matched
        · next same =>
          refine .cons ?_ (inductionHypothesis _ _ matched shorter distinct)
          rw [Takes, if_neg (by simp [parameter])]
          exact not_not.1 same

/-- A text that is read as a number has digits, and nothing else. -/
theorem parseDigits_digits (text : Text) (number : Nat) (parsed : parseDigits text = some number) :
    text ≠ [] ∧ ∀ c ∈ text, c.isDigit := by
  unfold parseDigits at parsed
  split at parsed
  · next digits => exact ⟨digits.1, List.all_eq_true.1 digits.2⟩
  · cases parsed

/-- A text that is read as a number has a digit and no dot. -/
theorem parseInt64_characters (text : Text) (i64 : Int) (parsed : parseInt64 text = some i64) :
    '.' ∉ text ∧ ∃ c ∈ text, wordChar c := by
  have digits : ∀ digits number, parseDigits digits = some number →
      '.' ∉ digits ∧ ∃ c ∈ digits, wordChar c := by
    intro digits number found
    obtain ⟨nonempty, all⟩ := parseDigits_digits digits number found
    obtain ⟨c, rest, rfl⟩ := List.exists_cons_of_ne_nil nonempty
    refine ⟨fun dot => Bool.noConfusion (all _ dot), c, List.mem_cons_self, ?_⟩
    simp [wordChar, Char.isAlphanum, all c List.mem_cons_self]
  have signed : ∀ sign rest number, sign ≠ '.' → parseDigits rest = some number →
      '.' ∉ sign :: rest ∧ ∃ c ∈ sign :: rest, wordChar c := by
    intro sign rest number notDot found
    obtain ⟨noDot, c, inside, word⟩ := digits rest number found
    exact ⟨by simp [noDot, Ne.symm notDot], c, List.mem_cons_of_mem sign inside, word⟩
  unfold parseInt64 at parsed
  split at parsed
  · split at parsed
    · next rest number found => exact signed _ _ number (by decide) found
    · cases parsed
  · split at parsed
    · next rest number found => exact signed _ _ number (by decide) found
    · cases parsed
  · split at parsed
    · next rest _ _ number found => exact digits _ number found
    · cases parsed

variable (codec : Codec Message Payload) (payload : Payload)

/-- A route's token that leaves a text or number field as it is. -/
def Codec.Keeps (name routeToken : Text) : Prop :=
  codec.get payload name = .ok (.string routeToken) ∨
    ∃ text i64, codec.get payload name = .ok (.float64 text) ∧
      parseInt64 routeToken = some i64 ∧ (toString i64).toList = text

/-- What a token asks of the route's token, if the message is to stay as it is. -/
def Codec.Accepts (token routeToken : Text) : Prop :=
  if isParameterToken token then codec.Keeps payload (token.drop 2).dropLast routeToken
  else token = routeToken

/-- A token that leaves a field without dots as it is has no dot, either. -/
theorem Codec.Keeps.no_dot {codec : Codec Message Payload} {payload : Payload} {name : Text}
    {routeToken : Text} (keeps : codec.Keeps payload name routeToken)
    (value : Undotted (codec.valueOf payload name)) : '.' ∉ routeToken := by
  rcases keeps with got | ⟨text, i64, _, parsed, _⟩
  · rw [Codec.valueOf, got] at value
    exact value.2
  · exact (parseInt64_characters routeToken i64 parsed).1

/-- A token without word characters that waits to be matched. -/
structure Waiting (token : Text) : Prop where
  undotted : Undotted token
  balanced : braceDepth token = 0
  wordless : ∀ c ∈ token, wordChar c = false

/-- A token without word characters is no number, so a field it leaves as it is holds the token
itself. -/
theorem Codec.Keeps.of_waiting {codec : Codec Message Payload} {payload : Payload} {name : Text}
    {token : Text} (keeps : codec.Keeps payload name token) (waiting : Waiting token) :
    codec.valueOf payload name = token := by
  rcases keeps with got | ⟨text, i64, _, parsed, _⟩
  · rw [Codec.valueOf, got]
    rfl
  · obtain ⟨_, c, inside, word⟩ := parseInt64_characters token i64 parsed
    rw [waiting.wordless c inside] at word
    cases word

/-- The accepted tokens of a segment that was split off. -/
theorem accepts_placeholder (path : Path) (routeToken : Text)
    (accepts : codec.Accepts payload (placeholderText path.name) routeToken) :
    codec.Keeps payload path.name routeToken := by
  rw [Codec.Accepts, if_pos (isParameterToken_placeholder _), paramName_placeholder] at accepts
  exact accepts

/-- A word of a literal segment accepts itself only. -/
theorem accepts_word (fixed : Literal) (word routeToken : Text)
    (found : word ∈ parseTokens fixed.text) (accepts : codec.Accepts payload word routeToken) :
    word = routeToken := by
  have plain : '$' ∉ word := fun dollar =>
    fixed.no_dollar (word_of_parseTokens fixed.text fixed.no_dollar word found _ dollar).1
  rw [Codec.Accepts, isParameterToken_of_no_dollar word plain] at accepts
  exact accepts

/-- A legal literal segment has no braces, so they are balanced. -/
theorem braceDepth_literal (fixed : Literal) (legal : (Segment.literal fixed).Legal) :
    braceDepth fixed.text = 0 := by
  rw [braceDepth, List.count_eq_zero_of_not_mem legal.2.1, List.count_eq_zero_of_not_mem legal.2.2]
  rfl

/-- All segments but the last have a property when the first has it, unless it is the last one,
and so have those behind it. -/
theorem forall_mem_dropLast_cons {property : Segment → Prop} {segment : Segment}
    {rest : List Segment} (first : rest ≠ [] → property segment)
    (others : ∀ other ∈ rest.dropLast, property other) :
    ∀ other ∈ (segment :: rest).dropLast, property other := by
  cases rest with
  | nil => nofun
  | cons next rest =>
    rw [List.dropLast_cons_cons]
    exact List.forall_mem_cons.2 ⟨first (by simp), others⟩

/-- Every segment gave one token of the subject, and every value comes back from it. -/
structure Aligned (segments : List Segment) : Prop where
  words : ∀ segment ∈ segments, segment.IsWord
  balanced : ∀ segment ∈ segments.dropLast,
    braceDepth (segment.token (codec.valueOf payload)) = 0
  numbers : ∀ path ∈ paths segments, ∀ text,
    codec.get payload path.name = .ok (.float64 text) → IntegerText text

variable {codec} {payload}

/-- No segments are aligned. -/
theorem Aligned.nil : Aligned codec payload [] where
  words := List.forall_mem_nil _
  balanced := List.forall_mem_nil _
  numbers := List.forall_mem_nil _

/-- A literal segment of word characters goes before aligned segments. -/
theorem Aligned.literal {fixed : Literal} {rest : List Segment}
    (legal : (Segment.literal fixed).Legal) (words : (Segment.literal fixed).IsWord)
    (aligned : Aligned codec payload rest) : Aligned codec payload (.literal fixed :: rest) where
  words := List.forall_mem_cons.2 ⟨words, aligned.words⟩
  balanced := forall_mem_dropLast_cons (fun _ => braceDepth_literal fixed legal) aligned.balanced
  numbers := aligned.numbers

/-- A number whose own text leaves it as it is comes back from its text. -/
theorem Codec.Keeps.integerText {name text : Text}
    (keeps : codec.Keeps payload name (codec.valueOf payload name))
    (got : codec.get payload name = .ok (.float64 text)) : IntegerText text := by
  have value : codec.valueOf payload name = text := by
    rw [Codec.valueOf, got]
    rfl
  rw [value] at keeps
  rcases keeps with isString | ⟨text', i64, isNumber, parsed, printed⟩
  · cases isString.symm.trans got
  · obtain rfl := FieldValue.float64.inj (Except.ok.inj (isNumber.symm.trans got))
    exact ⟨i64, parsed, printed⟩

/-- A placeholder whose value comes back from its text goes before aligned segments, if the braces
of the value are balanced or no segment follows. -/
theorem Aligned.placeholder {path : Path} {rest : List Segment}
    (keeps : codec.Keeps payload path.name (codec.valueOf payload path.name))
    (balanced : rest ≠ [] → braceDepth (codec.valueOf payload path.name) = 0)
    (aligned : Aligned codec payload rest) :
    Aligned codec payload (.placeholder path :: rest) where
  words := List.forall_mem_cons.2 ⟨trivial, aligned.words⟩
  balanced := forall_mem_dropLast_cons balanced aligned.balanced
  numbers := List.forall_mem_cons.2 ⟨fun _ => keeps.integerText, aligned.numbers⟩

/-- A word of a literal segment does not accept a token that waits. -/
theorem Waiting.not_accepts_word {token : Text} (waiting : Waiting token) (fixed : Literal)
    (word : Text) (found : word ∈ parseTokens fixed.text) :
    ¬ codec.Accepts payload word token := by
  intro accepts
  obtain rfl := accepts_word codec payload fixed word token found accepts
  obtain ⟨c, inside⟩ := List.exists_mem_of_ne_nil _ waiting.undotted.1
  have isWord := (word_of_parseTokens fixed.text fixed.no_dollar word found c inside).2
  rw [waiting.wordless c inside] at isWord
  cases isWord

variable (codec) (payload) in
/-- The pieces of the segments accept the tokens of a subject only if the segments are
aligned. Tokens of literal segments without words are not asked for, so they wait, and
whatever is matched with one of them has no words either: once a token waits, one waits
at the end. -/
def OnlyAligned (segments : List Segment) : Prop :=
  ∀ waiting : List Text, (∀ token ∈ waiting, Waiting token) →
    List.Forall₂ (codec.Accepts payload) (segments.flatMap Segment.pieces)
      (tokenizeRouteWithNesting (['.'].intercalate
        (waiting ++ segments.map (Segment.token (codec.valueOf payload))))) →
    waiting = [] ∧ Aligned codec payload segments

/-- Where no segments are left, nothing can be waiting: the first token that waits has no piece to
be matched with. -/
theorem onlyAligned_nil : OnlyAligned codec payload [] := by
  intro waiting wait accepts
  refine ⟨?_, Aligned.nil⟩
  cases waiting with
  | nil => rfl
  | cons token rest =>
    have first := wait token List.mem_cons_self
    rw [List.map_nil, List.append_nil,
      tokenize_cons_of_balanced token rest first.undotted first.balanced] at accepts
    cases accepts

/-- A literal segment without words leaves its own token waiting, which the rest does not allow.
One with words is matched with its first word, and then it is that word. -/
theorem OnlyAligned.literal {fixed : Literal} {rest : List Segment}
    (legal : (Segment.literal fixed).Legal) (undotted : Undotted fixed.text)
    (later : OnlyAligned codec payload rest) :
    OnlyAligned codec payload (.literal fixed :: rest) := by
  intro waiting wait accepts
  have balanced := braceDepth_literal fixed legal
  rw [List.flatMap_cons, List.map_cons] at accepts
  cases pieces : parseTokens fixed.text with
  | nil =>
    have wordless := wordless_of_parseTokens fixed.text fixed.no_dollar pieces
    obtain ⟨empty, _⟩ := later (waiting ++ [fixed.text])
      (List.forall_mem_append.2 ⟨wait, List.forall_mem_singleton.2 ⟨undotted, balanced, wordless⟩⟩)
      (by simpa [Segment.pieces, pieces, Segment.token] using accepts)
    simp at empty
  | cons word words =>
    have found : word ∈ parseTokens fixed.text := by simp [pieces]
    simp only [Segment.pieces, pieces, List.cons_append] at accepts
    cases waiting with
    | cons token others =>
      have first := wait token List.mem_cons_self
      rw [List.cons_append,
        tokenize_cons_of_balanced token _ first.undotted first.balanced] at accepts
      exact absurd (List.forall₂_cons.1 accepts).1 (first.not_accepts_word fixed word found)
    | nil =>
      rw [List.nil_append, Segment.token,
        tokenize_cons_of_balanced _ _ undotted balanced] at accepts
      obtain ⟨accepted, others⟩ := List.forall₂_cons.1 accepts
      obtain rfl : word = fixed.text := accepts_word codec payload fixed word _ found accepted
      have isWord : (Segment.literal fixed).IsWord := fun c inside =>
        (word_of_parseTokens fixed.text fixed.no_dollar _ found c inside).2
      have alone := isWord.pieces legal.1.1
      obtain rfl : words = [] := by simpa [Segment.pieces, pieces, Segment.text] using alone
      obtain ⟨_, aligned⟩ := later [] (List.forall_mem_nil _) others
      exact ⟨rfl, aligned.literal legal isWord⟩

/-- A placeholder takes the first token that waits and leaves its value waiting in its place. If
nothing waits, it takes its own value, because a token that was merged from several has a dot. -/
theorem OnlyAligned.placeholder {path : Path} {rest : List Segment}
    (undotted : Undotted (codec.valueOf payload path.name))
    (later : OnlyAligned codec payload rest) :
    OnlyAligned codec payload (.placeholder path :: rest) := by
  intro waiting wait accepts
  rw [List.flatMap_cons, List.map_cons] at accepts
  simp only [Segment.pieces, List.singleton_append, Segment.token] at accepts
  cases waiting with
  | cons token others =>
    obtain ⟨first, wait'⟩ := List.forall_mem_cons.1 wait
    rw [List.cons_append,
      tokenize_cons_of_balanced token _ first.undotted first.balanced] at accepts
    obtain ⟨accepted, remaining⟩ := List.forall₂_cons.1 accepts
    have same := (accepts_placeholder codec payload path token accepted).of_waiting first
    -- The value has no words, so it waits in the place of the token it was matched with.
    obtain ⟨empty, _⟩ := later (others ++ [token])
      (List.forall_mem_append.2 ⟨wait', List.forall_mem_singleton.2 first⟩)
      (by simpa [same] using remaining)
    simp at empty
  | nil =>
    obtain ⟨first, others, split, merged | ⟨rfl, rfl, balanced⟩⟩ := tokenize_cons
      _ (rest.map (Segment.token (codec.valueOf payload))) undotted
    · rw [List.nil_append, split] at accepts
      have keeps := accepts_placeholder codec payload path first (List.forall₂_cons.1 accepts).1
      exact absurd merged.1 (keeps.no_dot undotted)
    · rw [List.nil_append, split] at accepts
      obtain ⟨accepted, remaining⟩ := List.forall₂_cons.1 accepts
      obtain ⟨_, aligned⟩ := later [] (List.forall_mem_nil _) remaining
      exact ⟨rfl, aligned.placeholder (accepts_placeholder codec payload path _ accepted)
        fun more => balanced (by simpa using more)⟩

variable (codec) (payload)

/-- The tokens of a parameterized subject match the tokens of the subject, and leave the
message as it is, only if they are aligned. -/
theorem aligned_of_accepts (segments : List Segment)
    (legal : ∀ segment ∈ segments, segment.Legal)
    (valid : ∀ segment ∈ segments, Undotted (segment.token (codec.valueOf payload))) :
    OnlyAligned codec payload segments := by
  induction segments with
  | nil => exact onlyAligned_nil
  | cons segment rest inductionHypothesis =>
    obtain ⟨legal₁, legal'⟩ := List.forall_mem_cons.1 legal
    obtain ⟨valid₁, valid'⟩ := List.forall_mem_cons.1 valid
    have later := inductionHypothesis legal' valid'
    cases segment with
    | literal fixed => exact later.literal legal₁ valid₁
    | placeholder path => exact later.placeholder valid₁

/-- Every placeholder names a text or number field of its own, and the message shows when
one of these fields is changed. -/
structure Observed (m : Message) (segments : List Segment) : Prop where
  settable : ∀ name ∈ names segments, ∃ text, codec.get payload name = .ok (.string text) ∨
    codec.get payload name = .ok (.float64 text)
  distinct : (names segments).Nodup
  get_set : ∀ p value, ∀ k ∈ names segments, codec.get (codec.set p k value) k = .ok value
  get_set_of_ne : ∀ p value, ∀ j ∈ names segments, ∀ k ∈ names segments, k ≠ j →
    codec.get (codec.set p j value) k = codec.get p k
  shown : ∀ p, codec.message p = .ok m → ∀ name ∈ names segments,
    codec.get p name = codec.get payload name

/-- What one round leaves in a field of its own: the text it was given. -/
def Codec.Given (text : Text) (before after : Except GoError FieldValue) : Prop :=
  (∀ old, before = .ok (.string old) → after = .ok (.string text)) ∧
    ∀ old, before = .ok (.float64 old) → ∃ i64, parseInt64 text = some i64 ∧
      after = .ok (.float64 (toString i64).toList)

/-- One round gives its own field the text of the route, and leaves the other fields. -/
theorem injectParam_get (m : Message) (segments : List Segment)
    (observed : Observed codec payload m segments) (params : FiniteMap Text Text)
    (p p' : Payload) (k : Text) (named : k ∈ names segments)
    (injected : codec.injectParam params p k = .ok p') :
    Codec.Given ((params.lookup k).getD []) (codec.get p k) (codec.get p' k) ∧
      ∀ other ∈ names segments, other ≠ k → codec.get p' other = codec.get p other := by
  unfold Codec.injectParam at injected
  dsimp only at injected
  split at injected
  · cases injected
  · next old got =>
    obtain rfl := Except.ok.inj injected
    rw [got, observed.get_set p _ k named]
    exact ⟨⟨fun _ _ => rfl, nofun⟩, fun other listed differ =>
      observed.get_set_of_ne p _ k named other listed differ⟩
  · next old got =>
    split at injected
    · cases injected
    · next i64 parsed =>
      obtain rfl := Except.ok.inj injected
      rw [got, observed.get_set p _ k named]
      exact ⟨⟨nofun, fun _ _ => ⟨i64, parsed, rfl⟩⟩, fun other listed differ =>
        observed.get_set_of_ne p _ k named other listed differ⟩
  · next value notString notNumber got =>
    obtain rfl := Except.ok.inj injected
    refine ⟨⟨fun old isString => ?_, fun old isNumber => ?_⟩, fun _ _ _ => rfl⟩
    · exact absurd (Except.ok.inj (got.symm.trans isString)) (notString old)
    · exact absurd (Except.ok.inj (got.symm.trans isNumber)) (notNumber old)

/-- The loop leaves every visited field with the text it was given, in any order. -/
theorem foldlM_injectParam_get (m : Message) (segments : List Segment)
    (observed : Observed codec payload m segments) (params : FiniteMap Text Text)
    (order : List Text) (distinct : order.Nodup) (named : ∀ k ∈ order, k ∈ names segments)
    (p p' : Payload) (injected : order.foldlM (codec.injectParam params) p = .ok p') :
    (∀ k ∈ order, Codec.Given ((params.lookup k).getD []) (codec.get p k) (codec.get p' k)) ∧
      ∀ other ∈ names segments, other ∉ order → codec.get p' other = codec.get p other := by
  induction order generalizing p with
  | nil =>
    obtain rfl := Except.ok.inj injected
    exact ⟨nofun, fun _ _ _ => rfl⟩
  | cons k rest inductionHypothesis =>
    rw [List.foldlM_cons] at injected
    cases first : codec.injectParam params p k with
    | error err =>
      rw [first] at injected
      cases injected
    | ok p₁ =>
      rw [first] at injected
      rw [List.nodup_cons] at distinct
      obtain ⟨given, frame⟩ := injectParam_get codec payload m segments observed params p p₁ k
        (named k List.mem_cons_self) first
      obtain ⟨later, frames⟩ := inductionHypothesis distinct.2
        (fun other listed => named other (List.mem_cons_of_mem k listed)) p₁ injected
      refine ⟨List.forall_mem_cons.2 ⟨?_, fun other listed => ?_⟩, fun other listed absent => ?_⟩
      · rw [frames k (named k List.mem_cons_self) distinct.1]
        exact given
      · have differ : other ≠ k := fun same => distinct.1 (same ▸ listed)
        have kept := frame other (named other (List.mem_cons_of_mem k listed)) differ
        rw [← kept]
        exact later other listed
      · rw [List.mem_cons, not_or] at absent
        rw [frames other listed absent.2, frame other listed absent.1]

/-- The parameters of a parameterized subject are its placeholders. -/
theorem parameterNames_pieces (segments : List Segment) :
    parameterNames (segments.flatMap Segment.pieces) = names segments := by
  induction segments with
  | nil => rfl
  | cons segment rest inductionHypothesis =>
    have split : parameterNames ((segment :: rest).flatMap Segment.pieces) =
        parameterNames segment.pieces ++ parameterNames (rest.flatMap Segment.pieces) := by
      simp [parameterNames]
    rw [split, inductionHypothesis]
    cases segment with
    | literal fixed =>
      have static : (parseTokens fixed.text).filter isParameterToken = [] := by
        refine List.filter_eq_nil_iff.2 fun word found => ?_
        have plain : '$' ∉ word := fun dollar =>
          fixed.no_dollar (word_of_parseTokens fixed.text fixed.no_dollar word found _ dollar).1
        simp [isParameterToken_of_no_dollar word plain]
      simp [parameterNames, Segment.pieces, static, names, paths]
    | placeholder path =>
      simp [parameterNames, Segment.pieces, isParameterToken_placeholder, paramName_placeholder,
        names, paths]

/-- What a call that succeeds did: it ran the loop and decoded the payload. -/
theorem injectParameterizedRoutes_ok (route parameterizedRoute : Text) (m returned : Message)
    (decoded : codec.payload m = .ok payload) (params : FiniteMap Text Text)
    (extracted : extractRouteParams route parameterizedRoute = .ok params) (order : List Text)
    (injected : codec.injectParameterizedRoutes route parameterizedRoute m order = .ok returned) :
    ∃ p, order.foldlM (codec.injectParam params) payload = .ok p ∧
      codec.message p = .ok returned := by
  simp only [Codec.injectParameterizedRoutes, decoded, extracted] at injected
  split at injected
  · cases injected
  · next p ran =>
    split at injected
    · cases injected
    · next m' made =>
      obtain rfl := Except.ok.inj injected
      exact ⟨p, ran, made⟩

/-- In a message that came back as it was every parameter keeps its field. -/
theorem keeps_of_shown (m : Message) (segments : List Segment)
    (observed : Observed codec payload m segments) (params : FiniteMap Text Text)
    (named : ∀ name r, params.lookup name = some r → name ∈ names segments) (order : List Text)
    (visits : IterationOrder params order) (p : Payload)
    (ran : order.foldlM (codec.injectParam params) payload = .ok p)
    (returned : codec.message p = .ok m) (name r : Text) (given : params.lookup name = some r) :
    codec.Keeps payload name r := by
  have inside : ∀ k ∈ order, k ∈ names segments := by
    intro k visited
    obtain ⟨r, found⟩ :=
      Option.isSome_iff_exists.1 (Finmap.lookup_isSome.2 ((visits.2 k).1 visited))
    exact named k r found
  have visited : name ∈ order := (visits.2 name).2 (Finmap.lookup_isSome.1 (by rw [given]; rfl))
  obtain ⟨gives, _⟩ := foldlM_injectParam_get codec payload m segments observed params order
    visits.1 inside payload p ran
  have same := observed.shown p returned name (inside name visited)
  obtain ⟨ofString, ofNumber⟩ := gives name visited
  rw [given, same] at ofString ofNumber
  obtain ⟨text, isString | isNumber⟩ := observed.settable name (inside name visited)
  · exact Or.inl (ofString text isString)
  · obtain ⟨i64, parsed, printed⟩ := ofNumber text isNumber
    exact Or.inr ⟨_, i64, printed, parsed, rfl⟩

/-- A request that comes back as it was sent meets the condition, if the placeholders
name text and number fields of their own. -/
theorem routable_of_injectParameterizedRoutes (m : Message) (segments : List Segment)
    (legal : ∀ segment ∈ segments, segment.Legal)
    (accepted : ∀ name ∈ names segments,
      codec.fieldText payload name = .ok (codec.valueOf payload name))
    (decoded : codec.payload m = .ok payload) (observed : Observed codec payload m segments)
    (separate : Separate (codec.valueOf payload) segments [] (paths segments))
    (params : FiniteMap Text Text)
    (extracted : extractRouteParams
      (['.'].intercalate (segments.map (Segment.token (codec.valueOf payload))))
      (render segments) = .ok params) (order : List Text) (visits : IterationOrder params order)
    (returned : codec.injectParameterizedRoutes
      (['.'].intercalate (segments.map (Segment.token (codec.valueOf payload))))
      (render segments) m order = .ok m) : Routable codec payload segments := by
  obtain ⟨p, ran, shown⟩ := injectParameterizedRoutes_ok codec payload _ _ m m decoded params
    extracted order returned
  unfold extractRouteParams at extracted
  dsimp only at extracted
  split at extracted
  · cases extracted
  · next sameLength =>
    rw [parseTokens_render] at extracted sameLength
    have named : ∀ name r, params.lookup name = some r → name ∈ names segments := by
      intro name r found
      by_contra absent
      rw [← parameterNames_pieces] at absent
      rw [matchTokens_lookup _ _ _ _ extracted name absent] at found
      cases found
    have keeps := keeps_of_shown codec payload m segments observed params named order visits p ran
      shown
    have takes := matchTokens_takes _ _ _ _ extracted (not_not.1 sameLength)
      (parameterNames_pieces segments ▸ observed.distinct)
    have accepts : ∀ token routeToken, Takes params token routeToken →
        codec.Accepts payload token routeToken := by
      intro token routeToken takes
      unfold Takes at takes
      unfold Codec.Accepts
      split
      · next parameter =>
        rw [if_pos parameter] at takes
        exact keeps _ _ takes
      · next static =>
        rw [if_neg static] at takes
        exact takes
    obtain ⟨_, aligned⟩ := aligned_of_accepts codec payload segments legal
      (token_undotted codec payload segments legal accepted) [] (List.forall_mem_nil _)
      (takes.imp accepts)
    exact ⟨separate, aligned.words, aligned.balanced, aligned.numbers⟩

end FluffyCore.Nats
