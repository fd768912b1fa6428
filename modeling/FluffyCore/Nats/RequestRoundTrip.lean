import FluffyCore.Nats.RouteAlignment

/-!
# Requests that arrive as they were sent

A request whose subject was made from its message arrives as it was sent if the message
is routable. For fields the server sets, named once, it does so only then. A group whose
name has a hyphen is a legal group and not a routable one.
-/

namespace FluffyCore.Nats

open Library.MapLoop Library.Replacement

variable {Message Payload : Type}

/-- The server takes a request and gives the message back, in every order of its loop. -/
def Codec.Returns (codec : Codec Message Payload) (route parameterizedRoute : Text) (m : Message) :
    Prop :=
  ∃ params, extractRouteParams route parameterizedRoute = .ok params ∧
    ∀ order, IterationOrder params order →
      codec.injectParameterizedRoutes route parameterizedRoute m order = .ok m

/-- The subject of two runs of segments is that of both, with a dot between. -/
theorem render_append (group parameterized : List Segment) (grouped : group ≠ [])
    (nonempty : parameterized ≠ []) :
    render (group ++ parameterized) = render group ++ '.' :: render parameterized := by
  induction group with
  | nil => exact absurd rfl grouped
  | cons segment rest inductionHypothesis =>
    cases rest with
    | nil =>
      obtain ⟨next, others, rfl⟩ := List.exists_cons_of_ne_nil nonempty
      simp [render]
    | cons next others =>
      have later := inductionHypothesis (by simp)
      simp only [render, List.cons_append, List.map_cons, List.map_append] at later ⊢
      rw [List.intercalate_cons_cons, later, List.intercalate_cons_cons]
      simp

/-- The segments of an endpoint in a legal group are legal if its own are. -/
theorem legal_segments {group : List Literal} {parameterized : List Segment}
    (legalGroup : ∀ fixed ∈ group, (Segment.literal fixed).Legal)
    (legal : ∀ segment ∈ parameterized, segment.Legal) :
    ∀ segment ∈ group.map Segment.literal ++ parameterized, segment.Legal := by
  refine List.forall_mem_append.2 ⟨fun segment listed => ?_, legal⟩
  obtain ⟨fixed, inside, rfl⟩ := List.mem_map.1 listed
  exact legalGroup fixed inside

/-- The parameterized subject of an endpoint in a group is that of its segments. -/
theorem fixedParameterizedToken_render (group : List Literal) (grouped : group ≠ [])
    (parameterized : List Segment) (nonempty : parameterized ≠ [])
    (legalGroup : ∀ fixed ∈ group, (Segment.literal fixed).Legal) :
    fixedParameterizedToken (render (group.map .literal)) (render parameterized) =
      render (group.map .literal ++ parameterized) := by
  have named : render (group.map .literal) ≠ [] := by
    obtain ⟨fixed, rest, rfl⟩ := List.exists_cons_of_ne_nil grouped
    obtain ⟨⟨nonempty, _⟩, _⟩ := legalGroup fixed List.mem_cons_self
    cases rest <;> simp [render, Segment.text, nonempty]
  rw [fixedParameterizedToken, if_pos named, render_append _ _ (by simpa using grouped) nonempty]

/-- A routable message comes back from the subject that was made of it. -/
theorem returns_of_routable (codec : Codec Message Payload) (faithful : codec.Faithful)
    (segments : List Segment) (legal : ∀ segment ∈ segments, segment.Legal) (m : Message)
    (payload : Payload) (decoded : codec.payload m = .ok payload)
    (routable : Routable codec payload segments) (subject : Text)
    (replaced : codec.replaceTokens (render segments) m = .ok subject) :
    codec.Returns subject (render segments) m := by
  obtain ⟨payload', decoded', accepted, rfl⟩ := replaceTokens_ok codec segments m subject replaced
  obtain rfl : payload = payload' := Except.ok.inj (decoded.symm.trans decoded')
  rw [replaceEach_of_separate _ _ routable.separate]
  obtain ⟨params, extracted, _⟩ := extractRouteParams_of_routable codec payload _ legal accepted
    routable
  exact ⟨params, extracted, injectParameterizedRoutes_of_routable codec payload _ legal accepted
    faithful m decoded routable params extracted⟩

/-- A request whose subject was made from its message arrives as it was sent if the
message is routable. For messages whose placeholders name text and number fields of
their own, and rounds that are separate, it does so only then. -/
theorem request_returns_iff (codec : Codec Message Payload) (faithful : codec.Faithful)
    (group : List Literal) (grouped : group ≠ []) (parameterized : List Segment)
    (nonempty : parameterized ≠ [])
    (legalGroup : ∀ fixed ∈ group, (Segment.literal fixed).Legal)
    (legal : ∀ segment ∈ parameterized, segment.Legal) (m : Message) (subject : Text)
    (replaced : codec.replaceTokens (fixedParameterizedToken (render (group.map .literal))
      (render parameterized)) m = .ok subject) :
    ∃ payload, codec.payload m = .ok payload ∧
      (Routable codec payload (group.map .literal ++ parameterized) →
        codec.Returns subject (fixedParameterizedToken (render (group.map .literal))
          (render parameterized)) m) ∧
      (Observed codec payload m (group.map .literal ++ parameterized) →
        Separate (codec.valueOf payload) (group.map .literal ++ parameterized) []
          (paths (group.map .literal ++ parameterized)) →
        (codec.Returns subject (fixedParameterizedToken (render (group.map .literal))
            (render parameterized)) m ↔
          Routable codec payload (group.map .literal ++ parameterized))) := by
  have legal' := legal_segments legalGroup legal
  rw [fixedParameterizedToken_render group grouped parameterized nonempty legalGroup]
    at replaced ⊢
  obtain ⟨payload, decoded, accepted, made⟩ := replaceTokens_ok codec _ m subject replaced
  have sufficient (routable : Routable codec payload (group.map .literal ++ parameterized)) :=
    returns_of_routable codec faithful _ legal' m payload decoded routable subject replaced
  refine ⟨payload, decoded, sufficient, fun observed separate => ⟨fun returns => ?_, sufficient⟩⟩
  rw [made, replaceEach_of_separate _ _ separate] at returns
  obtain ⟨params, extracted, returned⟩ := returns
  obtain ⟨order, visits⟩ := exists_iterationOrder params
  exact routable_of_injectParameterizedRoutes codec payload m _ legal' accepted decoded observed
    separate params extracted order visits (returned order visits)

section Samples

/-- Records survive as they are. -/
theorem recordCodec_faithful : recordCodec.Faithful := by
  refine ⟨fun m payload decoded => ?_, fun payload k value got => ?_⟩
  · obtain rfl := Except.ok.inj decoded
    rfl
  · have held : payload k = some value := by
      simp only [recordCodec] at got
      split at got
      · next held => rw [held, Except.ok.inj got]
      · cases got
    exact Function.update_eq_self_iff.2 held.symm

/-- A literal segment from a text. -/
def word (text : String)
    (plain : ∀ c ∈ text.toList, c ≠ '.' ∧ c ≠ '$' ∧ c ≠ '*' ∧ c ≠ '>') : Literal :=
  ⟨text.toList, plain⟩

/-- A group whose name has a hyphen. -/
def hyphenGroup : Literal := word "my-group" (by simp)

/-- A request of a group with a hyphen in its name is rejected: the server takes the name
for two tokens. -/
theorem hyphen_group_rejected :
    (Segment.literal hyphenGroup).Legal ∧
      recordCodec.replaceTokens (fixedParameterizedToken (render [.literal hyphenGroup])
          (render twoSegments)) (twoFields ['u'] ['x']) = .ok "my-group.u.x".toList ∧
      ∀ order, recordCodec.injectParameterizedRoutes "my-group.u.x".toList
        (fixedParameterizedToken (render [.literal hyphenGroup]) (render twoSegments))
        (twoFields ['u'] ['x']) order = .error (.tokenCount 3 4) := by
  refine ⟨?_, by decide, fun order => ?_⟩
  · exact ⟨validateSubjectToken_ok [] _ rfl, by decide, by decide⟩
  · have rejected : extractRouteParams "my-group.u.x".toList
        (fixedParameterizedToken (render [.literal hyphenGroup]) (render twoSegments)) =
        .error (.tokenCount 3 4) := by rfl
    simp only [Codec.injectParameterizedRoutes, recordCodec, rejected]

/-- A message with a text and a number. -/
def textAndNumber (name : Text) : Option FieldValue :=
  if name = ['a'] then some (.string "u-1".toList)
  else if name = ['b'] then some (.float64 "42".toList) else none

/-- A request of a group of words arrives as it was sent. -/
theorem request_returns_iff_text_and_number :
    recordCodec.replaceTokens (fixedParameterizedToken
        (render ([word "orgs" (by simp)].map .literal)) (render twoSegments)) textAndNumber =
        .ok "orgs.u-1.42".toList ∧
      recordCodec.Returns "orgs.u-1.42".toList (fixedParameterizedToken
        (render ([word "orgs" (by simp)].map .literal)) (render twoSegments)) textAndNumber := by
  have replaced : recordCodec.replaceTokens (fixedParameterizedToken
      (render ([word "orgs" (by simp)].map .literal)) (render twoSegments)) textAndNumber =
      .ok "orgs.u-1.42".toList := by decide
  obtain ⟨payload, decoded, returns, _⟩ := request_returns_iff recordCodec recordCodec_faithful
    [word "orgs" (by simp)] (by simp) twoSegments (by simp [twoSegments])
    (List.forall_mem_singleton.2 ⟨validateSubjectToken_ok [] _ rfl, by decide, by decide⟩)
    (by simp [twoSegments, field, Segment.Legal]) textAndNumber _ replaced
  obtain rfl := Except.ok.inj decoded
  refine ⟨replaced, returns ⟨by decide, ?_, ?_, ?_⟩⟩
  · have letters : ∀ c ∈ "orgs".toList, wordChar c = true := List.all_eq_true.1 (by decide)
    exact List.forall_mem_cons.2 ⟨letters, by simp [twoSegments, field, Segment.IsWord]⟩
  · exact List.forall_mem_cons.2 ⟨by decide, List.forall_mem_singleton.2 (by decide)⟩
  · refine List.forall_mem_cons.2
      ⟨fun text got => ?_, List.forall_mem_singleton.2 fun text got => ?_⟩
    · cases Except.ok.inj got
    · obtain rfl := FieldValue.float64.inj (Except.ok.inj got)
      exact ⟨42, by decide, by decide⟩

end Samples

end FluffyCore.Nats
