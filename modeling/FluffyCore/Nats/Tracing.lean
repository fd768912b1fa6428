import FluffyCore.Nats.ErrorReplies

/-!
# Tracing calls over NATS

A client gives each call a span of its own and passes the span it was called in on as the
parent. The interceptor of the called service does the same with what came in: the caller's
span becomes the parent, and the service works in a new span. The correlation id is made up
once and then handed on.

A service that calls on does so with the metadata it was given. A chain of such calls has one
correlation id, and each link names the span before it.
-/

namespace FluffyCore.Nats

open Library.MapLoop

/-- `wellknown.XCorrelationIDName`. -/
def xCorrelationIDName : String := "x-correlation-id"

/-- `wellknown.XSpanName`. -/
def xSpanName : String := "x-span"

/-- `wellknown.XParentName`. -/
def xParentName : String := "x-parent"

/-- `wellknown.XRequestID`. -/
def xRequestID : String := "x-request-id"

/-- The keys that tracing uses. -/
def tracingKeys : List String := [xCorrelationIDName, xSpanName, xParentName, xRequestID]

/-- An id as `GenerateUniqueID` makes it. -/
structure UniqueID where
  text : String
  plain : Plain text
  nonempty : text ≠ ""

/-- The ids that are at hand for one use of the tracing code. -/
structure FreshIDs where
  correlation : UniqueID
  span : UniqueID

/-- `MD.Set`. -/
def mdSet (md : Metadata) (key : String) (vals : List String) : Metadata :=
  if vals = [] then md else md.insert key vals

/-- The first part of `EnsureOutboundSpanTracing`: a correlation id, if there is none. -/
def addCorrelationID (fresh : FreshIDs) (md : Metadata) : Metadata :=
  if values md xCorrelationIDName = [] then
    mdSet md xCorrelationIDName [fresh.correlation.text]
  else md

/-- The second part: the span, if there is one, is turned into the parent. -/
def turnSpanIntoParent (md : Metadata) : Metadata :=
  let xData := values md xSpanName
  if xData ≠ [] then (mdSet (md.erase xParentName) xParentName xData).erase xSpanName else md

/-- `EnsureOutboundSpanTracing` of the client. -/
def ensureOutboundSpanTracing (fresh : FreshIDs) (ctx : Context) : Context :=
  let md := turnSpanIntoParent (addCorrelationID fresh (ctx.getD ∅))
  some (mdSet md xSpanName [fresh.span.text])

/-- A client whose only context modifier is the tracing one. -/
def tracingClient (tokenSource : Option (Except GoError String)) (fresh : FreshIDs) : NATSClient :=
  ⟨tokenSource, [fun ctx => .ok (ensureOutboundSpanTracing fresh ctx)]⟩

/-- What the interceptor writes into the log of a request. -/
structure LoggerFields where
  correlation : String
  parent : Option String
  span : String
deriving DecidableEq

/-- What the interceptor leaves: the metadata for the handler, the log fields, and the headers
of the response. -/
structure Intercepted where
  incoming : Metadata
  logger : LoggerFields
  responseRequestID : String
  responseCorrelationID : String

/-- The loop of the interceptor over the incoming metadata, for one of the two names it looks
for. An entry without a value makes it panic. -/
def lookFor (toLower : String → String) (md : Metadata) (name : String) (order : List String)
    (default : String) : Option String :=
  order.foldlM (fun found key =>
    if toLower key = name then (values md key).head? else some found) default

/-- `EnsureCorrelationIDUnaryServerInterceptor` up to the call of the handler, when its loop
visits the incoming metadata in some order. -/
def ensureCorrelationID (toLower : String → String) (fresh : FreshIDs) (md : Metadata)
    (order : List String) : Option Intercepted := do
  let found ← lookFor toLower md xCorrelationIDName order ""
  let requestID ← lookFor toLower md xRequestID order "0"
  let correlationID := if found = "" then fresh.correlation.text else found
  let md := if found = "" then md.insert xCorrelationIDName [correlationID] else md
  let items := values md xSpanName
  let md := match items with
    | item :: _ => md.insert xParentName [item]
    | [] => md
  let md := md.insert xSpanName [fresh.span.text]
  return ⟨md, ⟨correlationID, items.head?, fresh.span.text⟩, requestID, correlationID⟩

/-- Lower case for header keys. -/
structure Lowering where
  toLower : String → String
  idempotent : ∀ key, toLower (toLower key) = toLower key
  authorization : toLower headerAuthorization = metadataKeyAuthorization
  tracing : ∀ key ∈ tracingKeys, toLower key = key

/-- What the gRPC connection behind the handler delivers: the tracing values as they were
sent, and every key in lower case with a value. -/
structure Delivered (lowering : Lowering) (sent received : Metadata) : Prop where
  tracing : ∀ key ∈ tracingKeys, values received key = values sent key
  lower : ∀ key ∈ received, lowering.toLower key = key
  held : ∀ key ∈ received, values received key ≠ []

section Values

/-- Inserting values changes the values of their key only. -/
theorem values_insert (md : Metadata) (key tested : String) (vals : List String) :
    values (md.insert key vals) tested = if tested = key then vals else values md tested := by
  by_cases same : tested = key
  · subst same
    simp [values]
  · simp [values, same, Finmap.lookup_insert_of_ne]

/-- Erasing a key leaves it without values and changes no other key. -/
theorem values_erase (md : Metadata) (key tested : String) :
    values (md.erase key) tested = if tested = key then [] else values md tested := by
  by_cases same : tested = key
  · subst same
    simp [values]
  · simp [values, same, Finmap.lookup_erase_ne]

/-- Setting values that are not empty changes the values of their key only. -/
theorem values_mdSet (md : Metadata) (key tested : String) (vals : List String)
    (nonempty : vals ≠ []) :
    values (mdSet md key vals) tested = if tested = key then vals else values md tested := by
  rw [mdSet, if_neg nonempty, values_insert]

/-- Setting a key adds no other key. -/
theorem mem_mdSet {md : Metadata} {key tested : String} {vals : List String}
    (inside : tested ∈ mdSet md key vals) : tested = key ∨ tested ∈ md := by
  unfold mdSet at inside
  split at inside
  · exact Or.inr inside
  · exact Finmap.mem_insert.1 inside

end Values

section Client

variable (fresh : FreshIDs)

/-- A correlation id is added if there is none, and nothing else changes. -/
theorem values_addCorrelationID (md : Metadata) (tested : String) :
    values (addCorrelationID fresh md) tested =
      if tested = xCorrelationIDName ∧ values md xCorrelationIDName = [] then
        [fresh.correlation.text]
      else values md tested := by
  unfold addCorrelationID
  by_cases missing : values md xCorrelationIDName = []
  · rw [if_pos missing, values_mdSet _ _ _ _ (by simp)]
    simp [missing]
  · simp [missing]

/-- The span, if there is one, takes the place of the parent. Apart from the span itself nothing
else changes. -/
theorem values_turnSpanIntoParent (md : Metadata) (tested : String) (other : tested ≠ xSpanName) :
    values (turnSpanIntoParent md) tested =
      if tested = xParentName ∧ values md xSpanName ≠ [] then values md xSpanName
      else values md tested := by
  unfold turnSpanIntoParent
  by_cases spanned : values md xSpanName = []
  · simp [spanned]
  · simp only [spanned, ne_eq, not_false_eq_true, if_true, and_true]
    rw [values_erase, if_neg other, values_mdSet _ _ _ _ spanned, values_erase]
    split
    · rfl
    · rfl

/-- The tracing values of an outgoing call. -/
theorem values_ensureOutboundSpanTracing (ctx : Context) :
    let md := ctx.getD ∅
    let out := (ensureOutboundSpanTracing fresh ctx).getD ∅
    values out xCorrelationIDName = (if values md xCorrelationIDName = [] then
        [fresh.correlation.text] else values md xCorrelationIDName) ∧
      values out xSpanName = [fresh.span.text] ∧
      (values md xSpanName ≠ [] → values out xParentName = values md xSpanName) := by
  intro md out
  have set : ∀ tested, values out tested = if tested = xSpanName then [fresh.span.text] else
      values (turnSpanIntoParent (addCorrelationID fresh md)) tested := fun tested =>
    values_mdSet _ _ _ _ (by simp)
  refine ⟨?_, ?_, fun spanned => ?_⟩
  · rw [set, if_neg (by decide), values_turnSpanIntoParent _ _ (by decide),
      if_neg (by simp [xCorrelationIDName, xParentName]), values_addCorrelationID]
    simp
  · rw [set, if_pos rfl]
  · have kept : values (addCorrelationID fresh md) xSpanName = values md xSpanName := by
      rw [values_addCorrelationID, if_neg (by simp [xSpanName, xCorrelationIDName])]
    rw [set, if_neg (by decide), values_turnSpanIntoParent _ _ (by decide), kept,
      if_pos ⟨rfl, spanned⟩]

/-- Tracing adds no other keys. -/
theorem mem_ensureOutboundSpanTracing (ctx : Context) (key : String)
    (inside : key ∈ (ensureOutboundSpanTracing fresh ctx).getD ∅) :
    key ∈ tracingKeys ∨ key ∈ ctx.getD ∅ := by
  have correlated : key ∈ addCorrelationID fresh (ctx.getD ∅) →
      key ∈ tracingKeys ∨ key ∈ ctx.getD ∅ := by
    intro inside
    unfold addCorrelationID at inside
    split at inside
    · exact (mem_mdSet inside).imp_left fun same => by simp [same, tracingKeys]
    · exact Or.inr inside
  rcases mem_mdSet inside with same | inside
  · exact Or.inl (by simp [same, tracingKeys])
  · simp only [turnSpanIntoParent] at inside
    split at inside
    · rcases mem_mdSet (Finmap.mem_erase.1 inside).2 with same | inside
      · exact Or.inl (by simp [same, tracingKeys])
      · exact correlated (Finmap.mem_erase.1 inside).2
    · exact correlated inside

end Client

section Arrival

variable (lowering : Lowering)

/-- A key that no other key is filed under arrives with its first value. -/
theorem values_requestMetadata (headers : Header) (order : List String)
    (visits : IterationOrder (convertToStringMap headers) order) (key : String)
    (lower : lowering.toLower key = key)
    (alone : ∀ other ∈ headers, lowering.toLower other = key → other = key) :
    values (requestMetadata lowering.toLower headers order) key =
      (values headers key).head?.toList := by
  have flattened : (convertToStringMap headers).lookup key = (values headers key).head? := by
    rw [lookup_convertToStringMap, values]
    cases headers.lookup key <;> rfl
  have filed : ∀ visited, visited ∈ order ∧ lowering.toLower visited = key ↔
      visited = key ∧ key ∈ order := by
    intro visited
    constructor
    · rintro ⟨listed, lowered⟩
      have held := Finmap.lookup_isSome.2 ((visits.2 visited).1 listed)
      rw [lookup_convertToStringMap] at held
      have inside : visited ∈ headers := by
        rw [← Finmap.lookup_isSome]
        cases found : headers.lookup visited with
        | none => simp [found] at held
        | some _ => rfl
      obtain rfl := alone visited inside lowered
      exact ⟨rfl, listed⟩
    · rintro ⟨rfl, listed⟩
      exact ⟨listed, lower⟩
  rw [values, requestMetadata, metadataNew, lookup_appendEach]
  cases found : (values headers key).head? with
  | none =>
    have absent : key ∉ order := by
      rw [visits.2, ← Finmap.lookup_isSome, flattened, found]
      simp
    have nothing : order.filter (lowering.toLower · = key) = [] := by
      rw [List.filter_eq_nil_iff]
      intro visited listed lowered
      exact absent ((filed visited).1 ⟨listed, by simpa using lowered⟩).2
    simp [nothing]
  | some value =>
    have listed : key ∈ order := by
      rw [visits.2, ← Finmap.lookup_isSome, flattened, found]
      rfl
    have one : order.filter (lowering.toLower · = key) = [key] := by
      refine filter_eq_singleton order visits.1 _ key fun visited => ?_
      rw [decide_eq_true_iff, filed]
      simp [listed]
    simp [one, flattened, found]

/-- The wire carries every value of a key. -/
theorem values_wireHeader (wire : Wire) (headers : Header) (key : String) :
    values (wire.header headers) key = (values headers key).map wire.carry := by
  rw [values, lookup_wireHeader, values]
  cases headers.lookup key <;> rfl

/-- The wire adds and drops no key. -/
theorem mem_wireHeader (wire : Wire) (headers : Header) (key : String) :
    key ∈ wire.header headers ↔ key ∈ headers := by
  rw [← Finmap.lookup_isSome, lookup_wireHeader, Option.isSome_map, Finmap.lookup_isSome]

/-- The loop of the interceptor finds the first value of a name. -/
theorem lookFor_eq (md : Metadata) (lower : ∀ key ∈ md, lowering.toLower key = key)
    (held : ∀ key ∈ md, values md key ≠ []) (order : List String)
    (visits : IterationOrder md order) (name default : String) :
    lookFor lowering.toLower md name order default =
      some ((values md name).head?.getD default) := by
  have loop : ∀ (keys : List String) (found : String), (∀ key ∈ keys, key ∈ md) →
      keys.foldlM (fun found key => if lowering.toLower key = name then (values md key).head?
        else some found) found =
      some (if name ∈ keys then (values md name).head?.getD default else found) := by
    intro keys
    induction keys with
    | nil => intro found _; rfl
    | cons key rest inductionHypothesis =>
      intro found inside
      have later := fun found => inductionHypothesis found
        fun visited listed => inside visited (List.mem_cons_of_mem _ listed)
      have here := inside key List.mem_cons_self
      rw [List.foldlM_cons, lower key here]
      by_cases same : key = name
      · subst same
        obtain ⟨value, rest', holds⟩ := List.exists_cons_of_ne_nil (held key here)
        simp [holds, later]
      · simp [same, Ne.symm same, later]
  rw [lookFor, loop order default fun key listed => (visits.2 key).1 listed]
  split
  · rfl
  · next absent =>
    have missing : values md name = [] := by
      by_contra holds
      exact absent ((visits.2 name).2 (mem_of_values holds))
    simp [missing]

end Arrival

section Chains

variable (lowering : Lowering) (wire : Wire)

/-- A call of a service as tracing sees it: the ids both sides had at hand, the parent in the
headers of the call, and what the interceptor made of it. -/
structure Visit where
  client : FreshIDs
  server : FreshIDs
  callParent : List String
  out : Intercepted

/-- A visit that comes from a call with some outgoing metadata, over the wire and the
connection behind the handler, with loops in any order. -/
def Hop (ctx : Context) (visit : Visit) : Prop :=
  ∃ tokenSource headers order received visited,
    (tracingClient tokenSource visit.client).createNATSRequestHeaders ctx = .ok headers ∧
      IterationOrder (convertToStringMap (wire.header headers)) order ∧
      Delivered lowering (requestMetadata lowering.toLower (wire.header headers) order) received ∧
      IterationOrder received visited ∧
      ensureCorrelationID lowering.toLower visit.server received visited = some visit.out ∧
      visit.callParent = values headers xParentName

/-- Services that call on with the metadata they were given. -/
inductive CallChain : Context → List Visit → Prop where
  | last (ctx : Context) : CallChain ctx []
  | call {ctx : Context} {visit : Visit} {visits : List Visit} (hop : Hop lowering wire ctx visit)
      (rest : CallChain (some visit.out.incoming) visits) : CallChain ctx (visit :: visits)

/-- Every key of the outgoing metadata is in lower case. -/
def LowerKeys (ctx : Context) : Prop := ∀ key ∈ ctx.getD ∅, lowering.toLower key = key

/-- The headers of a traced call hold the values of its metadata, and only the client's own
header is not in lower case. -/
theorem tracingHeaders (tokenSource : Option (Except GoError String)) (fresh : FreshIDs)
    (ctx : Context) (headers : Header)
    (created : (tracingClient tokenSource fresh).createNATSRequestHeaders ctx = .ok headers) :
    (∀ key, key ≠ headerAuthorization →
      values headers key = values ((ensureOutboundSpanTracing fresh ctx).getD ∅) key) ∧
      ∀ key ∈ headers, key = headerAuthorization ∨
        key ∈ (ensureOutboundSpanTracing fresh ctx).getD ∅ := by
  have modified : (tracingClient tokenSource fresh).modify ctx =
      .ok (ensureOutboundSpanTracing fresh ctx) := rfl
  simp only [NATSClient.createNATSRequestHeaders, modified, copyMetadata_eq] at created
  split at created
  · obtain rfl := Except.ok.inj created
    exact ⟨fun key _ => rfl, fun key inside => Or.inr inside⟩
  · cases created
  · obtain rfl := Except.ok.inj created
    refine ⟨fun key other => ?_, fun key inside => Finmap.mem_insert.1 inside⟩
    rw [headerSet, values_insert, if_neg other]

/-- One value of the outgoing metadata reaches the interceptor. -/
theorem value_reaches (fresh : FreshIDs) (ctx : Context) (lower : LowerKeys lowering ctx)
    (tokenSource : Option (Except GoError String)) (headers : Header) (order : List String)
    (received : Metadata)
    (created : (tracingClient tokenSource fresh).createNATSRequestHeaders ctx = .ok headers)
    (visits : IterationOrder (convertToStringMap (wire.header headers)) order)
    (delivered : Delivered lowering
      (requestMetadata lowering.toLower (wire.header headers) order) received)
    (key value : String) (traced : key ∈ tracingKeys)
    (held : values ((ensureOutboundSpanTracing fresh ctx).getD ∅) key = [value])
    (plain : Plain value) : values received key = [value] := by
  obtain ⟨same, inside⟩ := tracingHeaders tokenSource fresh ctx headers created
  have own : key ≠ metadataKeyAuthorization ∧ key ≠ headerAuthorization := by
    refine ⟨?_, ?_⟩ <;> rintro rfl <;> exact absurd traced (by decide)
  have alone : ∀ other ∈ wire.header headers, lowering.toLower other = key → other = key := by
    intro other listed lowered
    rcases inside other ((mem_wireHeader wire headers other).1 listed) with rfl | outgoing
    · exact absurd (lowered.symm.trans lowering.authorization) own.1
    · rcases mem_ensureOutboundSpanTracing fresh ctx other outgoing with added | old
      · exact (lowering.tracing other added).symm.trans lowered
      · exact (lower other old).symm.trans lowered
  rw [delivered.tracing key traced, values_requestMetadata lowering _ order visits key
    (lowering.tracing key traced) alone, values_wireHeader, same key own.2, held]
  simp [wire.carry_plain value plain]

/-- What the interceptor makes of a request that names its correlation and its caller's
span. -/
theorem ensureCorrelationID_eq (fresh : FreshIDs) (received : Metadata) (visited : List String)
    (lower : ∀ key ∈ received, lowering.toLower key = key)
    (held : ∀ key ∈ received, values received key ≠ [])
    (visits : IterationOrder received visited) (correlation span : String)
    (named : correlation ≠ "") (correlated : values received xCorrelationIDName = [correlation])
    (spanned : values received xSpanName = [span]) :
    ensureCorrelationID lowering.toLower fresh received visited =
      some ⟨(received.insert xParentName [span]).insert xSpanName [fresh.span.text],
        ⟨correlation, some span, fresh.span.text⟩,
        (values received xRequestID).head?.getD "0", correlation⟩ := by
  simp only [ensureCorrelationID, lookFor_eq lowering received lower held visited visits,
    correlated, List.head?_cons, Option.getD_some, bind, Option.bind, named, if_false, spanned]
  rfl

/-- A hop hands the correlation id on, makes the caller's span the parent, and leaves the
service in a span of its own. -/
theorem hop_traced (ctx : Context) (visit : Visit) (hop : Hop lowering wire ctx visit)
    (lower : LowerKeys lowering ctx) (correlation : String) (plain : Plain correlation)
    (named : correlation ≠ "")
    (sent : values ((ensureOutboundSpanTracing visit.client ctx).getD ∅) xCorrelationIDName =
      [correlation]) :
    visit.out.logger = ⟨correlation, some visit.client.span.text, visit.server.span.text⟩ ∧
      visit.out.responseCorrelationID = correlation ∧
      LowerKeys lowering (some visit.out.incoming) ∧
      values visit.out.incoming xCorrelationIDName = [correlation] ∧
      values visit.out.incoming xSpanName = [visit.server.span.text] := by
  obtain ⟨tokenSource, headers, order, received, visited, created, visits, delivered, visits',
    intercepted, _⟩ := hop
  have reaches := value_reaches lowering wire visit.client ctx lower tokenSource headers order
    received created visits delivered
  have spanSent := (values_ensureOutboundSpanTracing visit.client ctx).2.1
  have correlated := reaches _ _ (by simp [tracingKeys]) sent plain
  have spanned := reaches _ _ (by simp [tracingKeys]) spanSent visit.client.span.plain
  rw [ensureCorrelationID_eq lowering visit.server received visited delivered.lower delivered.held
    visits' correlation _ named correlated spanned] at intercepted
  rw [← Option.some.inj intercepted]
  refine ⟨rfl, rfl, fun key inside => ?_, ?_, ?_⟩
  · rcases Finmap.mem_insert.1 inside with rfl | inside
    · exact lowering.tracing _ (by simp [tracingKeys])
    · rcases Finmap.mem_insert.1 inside with rfl | inside
      · exact lowering.tracing _ (by simp [tracingKeys])
      · exact delivered.lower key inside
  · rw [values_insert, if_neg (by decide), values_insert, if_neg (by decide), correlated]
  · rw [values_insert, if_pos rfl]

/-- The first call of a service names the service's span as its parent. -/
theorem callParent_of_span (ctx : Context) (visit : Visit) (hop : Hop lowering wire ctx visit)
    (span : String) (inSpan : values (ctx.getD ∅) xSpanName = [span]) :
    visit.callParent = [span] := by
  obtain ⟨tokenSource, headers, _, _, _, created, _, _, _, _, parent⟩ := hop
  have same := (tracingHeaders tokenSource visit.client ctx headers created).1 xParentName
    (by decide)
  have turned := (values_ensureOutboundSpanTracing visit.client ctx).2.2 (by simp [inSpan])
  rw [parent, same, turned, inSpan]

/-- What tracing says of the visits of a chain: one correlation id, each service in a span of
its own below the span of the call, and each call below the span of the service before. -/
structure Traced (correlation : String) (visits : List Visit) : Prop where
  logged : ∀ visit ∈ visits, visit.out.logger =
    ⟨correlation, some visit.client.span.text, visit.server.span.text⟩
  responded : ∀ visit ∈ visits, visit.out.responseCorrelationID = correlation
  linked : visits.IsChain fun earlier later => later.callParent = [earlier.server.span.text]

/-- A chain without visits is traced. -/
theorem Traced.nil (correlation : String) : Traced correlation [] :=
  ⟨by simp, by simp, List.isChain_nil⟩

/-- A hop with some correlation id before a chain with the same one. -/
theorem Traced.cons (ctx : Context) (visit : Visit) (visits : List Visit)
    (hop : Hop lowering wire ctx visit) (lower : LowerKeys lowering ctx)
    (rest : CallChain lowering wire (some visit.out.incoming) visits) (correlation : String)
    (plain : Plain correlation) (named : correlation ≠ "")
    (sent : values ((ensureOutboundSpanTracing visit.client ctx).getD ∅) xCorrelationIDName =
      [correlation])
    (later : LowerKeys lowering (some visit.out.incoming) →
      values visit.out.incoming xCorrelationIDName = [correlation] → Traced correlation visits) :
    Traced correlation (visit :: visits) := by
  obtain ⟨logged, responded, lower', correlated, spanned⟩ :=
    hop_traced lowering wire ctx visit hop lower correlation plain named sent
  have traced := later lower' correlated
  refine ⟨List.forall_mem_cons.2 ⟨logged, traced.logged⟩,
    List.forall_mem_cons.2 ⟨responded, traced.responded⟩, ?_⟩
  cases rest with
  | last => exact List.isChain_singleton _
  | call hop' rest' =>
    exact List.isChain_cons_cons.2
      ⟨callParent_of_span lowering wire _ _ hop' _ spanned, traced.linked⟩

/-- A chain that starts with a correlation id keeps it. -/
theorem traced_of_correlated (ctx : Context) (visits : List Visit)
    (chain : CallChain lowering wire ctx visits) (lower : LowerKeys lowering ctx)
    (correlation : String) (plain : Plain correlation) (named : correlation ≠ "")
    (correlated : values (ctx.getD ∅) xCorrelationIDName = [correlation]) :
    Traced correlation visits := by
  induction chain with
  | last ctx => exact .nil correlation
  | @call ctx visit visits hop rest inductionHypothesis =>
    have sent := (values_ensureOutboundSpanTracing visit.client ctx).1
    rw [correlated, if_neg (by simp)] at sent
    exact .cons lowering wire ctx visit visits hop lower rest correlation plain named sent
      inductionHypothesis

/-- Along every chain of calls there is one correlation id: the one the chain started with,
or the one its first client made up. Each service works in its own span, below the span of
the call that reached it, and each call names the span of the service it came from. -/
theorem call_chain_traced (ctx : Context) (visits : List Visit)
    (chain : CallChain lowering wire ctx visits) (lower : LowerKeys lowering ctx)
    (single : values (ctx.getD ∅) xCorrelationIDName = [] ∨ ∃ correlation, Plain correlation ∧
      correlation ≠ "" ∧ values (ctx.getD ∅) xCorrelationIDName = [correlation]) :
    ∃ correlation, Traced correlation visits ∧
      (∀ given ∈ values (ctx.getD ∅) xCorrelationIDName, correlation = given) ∧
      ∀ first ∈ visits.head?, values (ctx.getD ∅) xCorrelationIDName = [] →
        correlation = first.client.correlation.text := by
  rcases single with missing | ⟨correlation, plain, named, correlated⟩
  · cases chain with
    | last => exact ⟨"", .nil "", by simp [missing], by simp⟩
    | @call _ visit visits hop rest =>
      have sent := (values_ensureOutboundSpanTracing visit.client ctx).1
      rw [if_pos missing] at sent
      refine ⟨visit.client.correlation.text, ?_, by simp [missing], by simp⟩
      exact .cons lowering wire ctx visit visits hop lower rest _ visit.client.correlation.plain
        visit.client.correlation.nonempty sent fun lower' correlated =>
          traced_of_correlated lowering wire _ visits rest lower' _ visit.client.correlation.plain
            visit.client.correlation.nonempty correlated
  · exact ⟨correlation, traced_of_correlated lowering wire ctx visits chain lower correlation plain
      named correlated, by simp [correlated], by simp [correlated]⟩

/-- Metadata made from headers has every key in lower case, with a value. -/
theorem delivered_requestMetadata (headers : Header) (order : List String) :
    Delivered lowering (requestMetadata lowering.toLower headers order)
      (requestMetadata lowering.toLower headers order) := by
  have filed : ∀ key ∈ requestMetadata lowering.toLower headers order,
      ∃ visited ∈ order, lowering.toLower visited = key := by
    intro key inside
    exact ((mem_appendEach _ _ _ _ _).1 inside).resolve_left Finmap.notMem_empty
  refine ⟨fun key _ => rfl, fun key inside => ?_, fun key inside => ?_⟩
  · obtain ⟨visited, _, rfl⟩ := filed key inside
    exact lowering.idempotent visited
  · obtain ⟨visited, listed, lowered⟩ := filed key inside
    rw [values, requestMetadata, metadataNew, lookup_appendEach]
    simp only [Finmap.lookup_empty, Option.getD_none, List.nil_append, ne_eq, List.map_eq_nil_iff,
      List.filter_eq_nil_iff, decide_eq_true_eq, not_forall, not_not]
    exact ⟨visited, listed, lowered⟩

/-- The interceptor does not panic on metadata that a connection delivers. -/
theorem exists_intercepted (fresh : FreshIDs) (received : Metadata) (visited : List String)
    (lower : ∀ key ∈ received, lowering.toLower key = key)
    (held : ∀ key ∈ received, values received key ≠ [])
    (visits : IterationOrder received visited) :
    ∃ out, ensureCorrelationID lowering.toLower fresh received visited = some out := by
  simp only [ensureCorrelationID, lookFor_eq lowering received lower held visited visits, bind,
    Option.bind]
  exact ⟨_, rfl⟩

/-- Every call gets through to the service. -/
theorem exists_hop (ctx : Context) (client server : FreshIDs) :
    ∃ visit : Visit, visit.client = client ∧ visit.server = server ∧
      Hop lowering wire ctx visit := by
  have created : (tracingClient none client).createNATSRequestHeaders ctx =
      .ok (copyMetadata ((ensureOutboundSpanTracing client ctx).getD ∅)) := rfl
  obtain ⟨order, visits⟩ := exists_iterationOrder (convertToStringMap
    (wire.header (copyMetadata ((ensureOutboundSpanTracing client ctx).getD ∅))))
  have delivered := delivered_requestMetadata lowering
    (wire.header (copyMetadata ((ensureOutboundSpanTracing client ctx).getD ∅))) order
  obtain ⟨visited, visits'⟩ := exists_iterationOrder (requestMetadata lowering.toLower
    (wire.header (copyMetadata ((ensureOutboundSpanTracing client ctx).getD ∅))) order)
  obtain ⟨out, intercepted⟩ := exists_intercepted lowering server _ visited delivered.lower
    delivered.held visits'
  exact ⟨⟨client, server, _, out⟩, rfl, rfl, none, _, order, _, visited, created, visits, delivered,
    visits', intercepted, rfl⟩

end Chains

section Samples

/-- A key in lower case stays as it is. -/
theorem asciiToLower_asciiToLower (key : String) :
    asciiToLower (asciiToLower key) = asciiToLower key := by
  have lowered : ∀ c : Char, c.toLower.toLower = c.toLower := by
    intro c
    delta Char.toLower
    grind
  simp [asciiToLower, Function.comp_def, lowered]

/-- Lower case of ASCII keys. -/
def asciiLowering : Lowering where
  toLower := asciiToLower
  idempotent := asciiToLower_asciiToLower
  authorization := by decide
  tracing := by decide

/-- The ids of a client or a service. -/
def sampleIDs (correlation span : String)
    (digits : ∀ text ∈ [correlation, span], text ≠ "" ∧ ∀ c ∈ text.toList, c.isDigit = true) :
    FreshIDs where
  correlation := ⟨correlation, plain_of_digits (digits _ (by simp)).2, (digits _ (by simp)).1⟩
  span := ⟨span, plain_of_digits (digits _ (by simp)).2, (digits _ (by simp)).1⟩

/-- The ids of the first client. -/
def firstIDs : FreshIDs := sampleIDs "1" "2" (by simp)

/-- The ids of everyone after it. -/
def laterIDs : FreshIDs := sampleIDs "3" "4" (by simp)

/-- Two calls in a row that start without metadata have the id of the first client. -/
theorem two_calls_traced :
    ∃ visits : List Visit, visits.length = 2 ∧ CallChain asciiLowering plainWire none visits ∧
      Traced "1" visits := by
  obtain ⟨first, isFirst, _, hop⟩ := exists_hop asciiLowering plainWire none firstIDs laterIDs
  obtain ⟨second, _, _, hop'⟩ :=
    exists_hop asciiLowering plainWire (some first.out.incoming) laterIDs
    laterIDs
  have chain : CallChain asciiLowering plainWire none [first, second] :=
    .call hop (.call hop' (.last _))
  obtain ⟨correlation, traced, _, made⟩ := call_chain_traced asciiLowering plainWire none _ chain
    (fun key inside => absurd inside Finmap.notMem_empty) (Or.inl rfl)
  obtain rfl : correlation = "1" := (made first rfl rfl).trans (by rw [isFirst]; rfl)
  exact ⟨[first, second], rfl, chain, traced⟩

end Samples

end FluffyCore.Nats
