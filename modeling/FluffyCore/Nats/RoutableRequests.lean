import FluffyCore.Nats.RouteTokens

/-!
# Routable requests

The client makes the subject of a request from its message, and the server reads the
subject back into the message. The message comes out as it went in when the rounds of
the client are separate, the literal segments are words, the braces are balanced in
every token but the last, and every number is the text of a 64-bit integer.
-/

namespace FluffyCore.Nats

open Library.MapLoop Library.Replacement

variable {Message Payload : Type}

/-- A message survives JSON, and setting a field to the value it has changes nothing. -/
structure Codec.Faithful (codec : Codec Message Payload) : Prop where
  roundTrip : ∀ m payload, codec.payload m = .ok payload → codec.message payload = .ok m
  set_get : ∀ payload k value, codec.get payload k = .ok value →
    codec.set payload k value = payload

/-- A literal segment that is a legal token without braces. -/
def Segment.Legal : Segment → Prop
  | .literal fixed => IsToken fixed.text ∧ '{' ∉ fixed.text ∧ '}' ∉ fixed.text
  | .placeholder _ => True

/-- A number that comes back from its text. -/
def IntegerText (text : Text) : Prop :=
  ∃ i64, parseInt64 text = some i64 ∧ (toString i64).toList = text

/-- The condition under which a request arrives as it was sent. -/
structure Routable (codec : Codec Message Payload) (payload : Payload)
    (segments : List Segment) : Prop where
  separate : Separate (codec.valueOf payload) segments [] (paths segments)
  words : ∀ segment ∈ segments, segment.IsWord
  balanced : ∀ segment ∈ segments.dropLast,
    braceDepth (segment.token (codec.valueOf payload)) = 0
  numbers : ∀ path ∈ paths segments, ∀ text,
    codec.get payload path.name = .ok (.float64 text) → IntegerText text

/-- A placeholder is recognized as a parameter. -/
theorem isParameterToken_placeholder (name : Text) :
    isParameterToken (placeholderText name) = true := by
  simp [isParameterToken, placeholderText, List.isSuffixOf]

/-- A token without a dollar sign is not taken for a parameter. -/
theorem isParameterToken_of_no_dollar (token : Text) (plain : '$' ∉ token) :
    isParameterToken token = false := by
  cases token with
  | nil => rfl
  | cons c rest =>
    have other : '$' ≠ c := fun same => plain (same ▸ List.mem_cons_self)
    simp [isParameterToken, other]

/-- The server finds the name of a placeholder between its brackets. -/
theorem paramName_placeholder (name : Text) : ((placeholderText name).drop 2).dropLast = name := by
  simp [placeholderText]

/-- Segments and their own tokens match, and each placeholder takes its value. -/
theorem matchTokens_segments (value : Text → Text) (segments : List Segment)
    (params : FiniteMap Text Text) :
    ∃ params', matchTokens (segments.map Segment.text) (segments.map (Segment.token value)) params =
        .ok params' ∧
      ∀ name, params'.lookup name =
        if name ∈ names segments then some (value name) else params.lookup name := by
  induction segments generalizing params with
  | nil => exact ⟨params, rfl, fun name => rfl⟩
  | cons segment rest inductionHypothesis =>
    cases segment with
    | literal fixed =>
      obtain ⟨params', matched, lookups⟩ := inductionHypothesis params
      refine ⟨params', ?_, lookups⟩
      simp [matchTokens, Segment.text, Segment.token,
        isParameterToken_of_no_dollar fixed.text fixed.no_dollar, matched]
    | placeholder path =>
      obtain ⟨params', matched, lookups⟩ := inductionHypothesis
        (params.insert path.name (value path.name))
      refine ⟨params', ?_, fun name => ?_⟩
      · simp [matchTokens, Segment.text, Segment.token, isParameterToken_placeholder,
          paramName_placeholder, matched]
      · rw [lookups]
        have listed : names (.placeholder path :: rest) = path.name :: names rest := rfl
        simp only [listed, List.mem_cons]
        by_cases later : name ∈ names rest
        · simp [later]
        · by_cases same : name = path.name
          · subst same
            simp [later]
          · simp [later, same, Finmap.lookup_insert_of_ne _ same]

section Sufficient

variable (codec : Codec Message Payload) (payload : Payload)

/-- A field that is set to the text it was sent as keeps its value. -/
theorem injectParam_same (faithful : codec.Faithful) (params : FiniteMap Text Text) (k : Text)
    (accepted : codec.fieldText payload k = .ok (codec.valueOf payload k))
    (given : params.lookup k = some (codec.valueOf payload k))
    (number : ∀ text, codec.get payload k = .ok (.float64 text) → IntegerText text) :
    codec.injectParam params payload k = .ok payload := by
  unfold Codec.injectParam
  cases got : codec.get payload k with
  | error err =>
    rw [Codec.fieldText, got] at accepted
    cases accepted
  | ok value =>
    have text : codec.valueOf payload k = value.text := by rw [Codec.valueOf, got]
    rw [given, text]
    cases value with
    | string sent => exact congrArg Except.ok (faithful.set_get payload k _ got)
    | int sent => rfl
    | float64 sent =>
      obtain ⟨i64, parsed, printed⟩ := number sent got
      simp only [Option.getD_some, FieldValue.text, parsed, printed]
      exact congrArg Except.ok (faithful.set_get payload k _ got)
    | other sent => rfl

/-- Rounds that keep the payload keep it in any order. -/
theorem foldlM_injectParam_same (params : FiniteMap Text Text) (order : List Text)
    (same : ∀ k ∈ order, codec.injectParam params payload k = .ok payload) :
    order.foldlM (codec.injectParam params) payload = .ok payload := by
  induction order with
  | nil => rfl
  | cons k rest inductionHypothesis =>
    rw [List.foldlM_cons, same k List.mem_cons_self]
    exact inductionHypothesis fun other listed => same other (List.mem_cons_of_mem k listed)

variable (segments : List Segment) (legal : ∀ segment ∈ segments, segment.Legal)
  (accepted : ∀ name ∈ names segments,
    codec.fieldText payload name = .ok (codec.valueOf payload name))

include legal in
/-- Segments that are legal have texts that are not empty. -/
theorem text_nonempty : ∀ segment ∈ segments, segment.text ≠ [] := by
  intro segment listed
  cases segment with
  | literal fixed => exact (legal _ listed).1.1
  | placeholder path => simp [Segment.text, placeholderText]

include legal accepted in
/-- The tokens that are meant may stand between dots. -/
theorem token_undotted :
    ∀ segment ∈ segments, Undotted (segment.token (codec.valueOf payload)) := by
  intro segment listed
  have token : IsToken (segment.token (codec.valueOf payload)) := by
    cases segment with
    | literal fixed => exact (legal _ listed).1
    | placeholder path =>
      exact (fieldText_ok codec payload _ _ (accepted _ (mem_names _ path listed))).2
  exact ⟨token.1, fun dot => Bool.noConfusion (token.2 _ dot)⟩

include legal accepted in
/-- The server takes the values of the fields off the subject. -/
theorem extractRouteParams_of_routable (routable : Routable codec payload segments) :
    ∃ params, extractRouteParams
        (['.'].intercalate (segments.map (Segment.token (codec.valueOf payload))))
        (render segments) = .ok params ∧
      ∀ name, params.lookup name =
        if name ∈ names segments then some (codec.valueOf payload name) else none := by
  have valid : ∀ token ∈ segments.map (Segment.token (codec.valueOf payload)), Undotted token := by
    intro token listed
    obtain ⟨segment, inside, rfl⟩ := List.mem_map.1 listed
    exact token_undotted codec payload segments legal accepted segment inside
  have split := (tokenize_eq_iff _ valid).2 (by
    intro token listed
    rw [← List.map_dropLast] at listed
    obtain ⟨segment, inside, rfl⟩ := List.mem_map.1 listed
    exact routable.balanced segment inside)
  have parsed := parseTokens_of_words segments (text_nonempty segments legal) routable.words
  obtain ⟨params, matched, lookups⟩ := matchTokens_segments (codec.valueOf payload) segments ∅
  refine ⟨params, ?_, fun name => ?_⟩
  · unfold extractRouteParams
    simp only [parsed, split, List.length_map, ne_eq, not_true_eq_false, if_false, matched]
  · rw [lookups, Finmap.lookup_empty]

include legal accepted in
/-- The server gives the message back under the condition. -/
theorem injectParameterizedRoutes_of_routable (faithful : codec.Faithful) (m : Message)
    (decoded : codec.payload m = .ok payload) (routable : Routable codec payload segments)
    (params : FiniteMap Text Text)
    (extracted : extractRouteParams
      (['.'].intercalate (segments.map (Segment.token (codec.valueOf payload))))
      (render segments) = .ok params) (order : List Text) (visits : IterationOrder params order) :
    codec.injectParameterizedRoutes
      (['.'].intercalate (segments.map (Segment.token (codec.valueOf payload))))
      (render segments) m order = .ok m := by
  obtain ⟨params', extracted', lookups⟩ :=
    extractRouteParams_of_routable codec payload segments legal accepted routable
  obtain rfl : params = params' := Except.ok.inj (extracted.symm.trans extracted')
  have unchanged : order.foldlM (codec.injectParam params) payload = .ok payload := by
    refine foldlM_injectParam_same codec payload params order fun k visited => ?_
    have present := (visits.2 k).1 visited
    have named : k ∈ names segments := by
      by_contra absent
      rw [← Finmap.lookup_isSome, lookups, if_neg absent] at present
      cases present
    have given := lookups k
    rw [if_pos named] at given
    obtain ⟨path, listed, rfl⟩ := List.mem_map.1 named
    exact injectParam_same codec payload faithful params _ (accepted _ named) given
      (routable.numbers path listed)
  simp only [Codec.injectParameterizedRoutes, decoded, extracted, unchanged,
    faithful.roundTrip m payload decoded]

end Sufficient

end FluffyCore.Nats
