import FluffyCore.Nats.ErrorReplies
import FluffyCore.Nats.RequestRoundTrip

/-!
# Calls over NATS

A generated client method sends its request over NATS and a generated handler passes it to
the gRPC service behind it. The functions the handler calls may fail or panic; it answers in
any case, and once. What the caller gets is what the service returned, or the status of what
went wrong.
-/

namespace FluffyCore.Nats

open Library.MapLoop

/-- How a call of a function ends. -/
inductive Outcome (α : Type) where
  | returns (value : α)
  | fails (err : ReturnedError)
  | panics

/-- A request as NATS micro hands it to a handler. -/
structure Request where
  subject : Text
  headers : Header
  data : Bytes

/-- The arguments of `HandleRequest` besides the request. A response that is no proto message
has no encoding. -/
structure Endpoint (Req Resp Message Payload : Type) where
  groupName : Text
  parameterizedToken : Text
  unmarshaler : Bytes → Outcome Req
  protoRequestMessage : Bytes → Outcome Message
  codec : Codec Message Payload
  errorText : SubjectError → String
  protoMessageToRequest : Message → Req → Outcome Req
  serviceMethod : Metadata → Req → Outcome Resp
  marshal : Resp → Option (Outcome Bytes)

/-- The orders in which two loops over maps visit their keys: `metadata.New` and the injection
of the route parameters. -/
structure Orders where
  headers : List String
  params : List Text

section Handler

variable {Req Resp Message Payload : Type}

/-- The replies of one error. -/
def respondErrorOnly (err : ReturnedError) : List Msg := (respondError err).toList

/-- The end of `HandleRequest`: the service method and its response. No result means that a
panic came up, before anything was sent. -/
def Endpoint.callService (endpoint : Endpoint Req Resp Message Payload) (ctx : Metadata)
    (innerRequest : Req) : Option (List Msg) :=
  match endpoint.serviceMethod ctx innerRequest with
  | .panics => none
  | .fails err => some (respondErrorOnly err)
  | .returns resp =>
      match endpoint.marshal resp with
      | none => some (respondErrorOnly (statusError .internal "response is not a proto.Message"))
      | some .panics => none
      | some (.fails err) => some (respondErrorOnly (statusError .internal err.text))
      | some (.returns respBytes) => some [⟨none, respBytes⟩]

/-- `HandleRequest` up to a panic. -/
def Endpoint.handle (endpoint : Endpoint Req Resp Message Payload) (toLower : String → String)
    (req : Request) (orders : Orders) : Option (List Msg) :=
  let ctx := requestMetadata toLower req.headers orders.headers
  match endpoint.unmarshaler req.data with
  | .panics => none
  | .fails err => some (respondErrorOnly (statusError .invalidArgument err.text))
  | .returns innerRequest =>
      match endpoint.protoRequestMessage req.data with
      | .panics => none
      | .fails err => some (respondErrorOnly (statusError .internal err.text))
      | .returns pm =>
          match endpoint.codec.injectParameterizedRoutes req.subject
              (fixedParameterizedToken endpoint.groupName endpoint.parameterizedToken) pm
              orders.params with
          | .error err =>
              some (respondErrorOnly (statusError .invalidArgument (endpoint.errorText err)))
          | .ok rr =>
              match endpoint.protoMessageToRequest rr innerRequest with
              | .panics => none
              | .fails err => some (respondErrorOnly (statusError .invalidArgument err.text))
              | .returns innerRequest => endpoint.callService ctx innerRequest

/-- The replies `HandleRequest` sends. The deferred function answers a panic. -/
def Endpoint.handleRequest (endpoint : Endpoint Req Resp Message Payload)
    (toLower : String → String) (req : Request) (orders : Orders) : List Msg :=
  match endpoint.handle toLower req orders with
  | some replies => replies
  | none => respondErrorOnly (statusError .internal "internal error")

/-- An error response is one reply. -/
theorem length_respondErrorOnly (err : ReturnedError) : (respondErrorOnly err).length = 1 := by
  obtain ⟨header, sent, _⟩ := respondError_eq err
  rw [respondErrorOnly, sent]
  rfl

/-- Calling the service sends one reply, an error of the service included, unless it panics. -/
theorem length_callService (endpoint : Endpoint Req Resp Message Payload) (ctx : Metadata)
    (innerRequest : Req) (replies : List Msg)
    (sent : endpoint.callService ctx innerRequest = some replies) : replies.length = 1 := by
  unfold Endpoint.callService at sent
  split at sent
  · cases sent
  · obtain rfl := Option.some.inj sent
    exact length_respondErrorOnly _
  · split at sent
    all_goals cases sent
    · exact length_respondErrorOnly _
    · exact length_respondErrorOnly _
    · rfl

/-- A handler that does not panic sends one reply, whether it fails before the call or after
it. -/
theorem length_handle (endpoint : Endpoint Req Resp Message Payload) (toLower : String → String)
    (req : Request) (orders : Orders) (replies : List Msg)
    (sent : endpoint.handle toLower req orders = some replies) : replies.length = 1 := by
  unfold Endpoint.handle at sent
  repeat' split at sent
  all_goals first
    | exact length_callService endpoint _ _ replies sent
    | (cases sent; exact length_respondErrorOnly _)
    | cases sent

/-- Every request is answered exactly once, whatever the functions behind the handler do. -/
theorem handleRequest_answers_once (endpoint : Endpoint Req Resp Message Payload)
    (toLower : String → String) (req : Request) (orders : Orders) :
    (endpoint.handleRequest toLower req orders).length = 1 := by
  unfold Endpoint.handleRequest
  split
  · next replies sent => exact length_handle endpoint toLower req orders replies sent
  · exact length_respondErrorOnly _

end Handler

section Client

/-- The errors that `statusFromTransportError` asks for. -/
inductive Sentinel where
  | errNoResponders
  | deadlineExceeded
  | errTimeout
  | canceled
  | errConnectionClosed
  | errDisconnected
deriving DecidableEq

/-- The error of a request that got no reply: the known errors it wraps, and its text. -/
structure TransportError where
  wraps : List Sentinel
  text : String

def statusFromTransportError (err : TransportError) : GrpcStatus :=
  let message := "nats request failed: " ++ err.text
  if .errNoResponders ∈ err.wraps then ⟨Code.unavailable.number, message⟩
  else if .deadlineExceeded ∈ err.wraps ∨ .errTimeout ∈ err.wraps then
    ⟨Code.deadlineExceeded.number, message⟩
  else if .canceled ∈ err.wraps then ⟨Code.canceled.number, message⟩
  else if .errConnectionClosed ∈ err.wraps ∨ .errDisconnected ∈ err.wraps then
    ⟨Code.unavailable.number, message⟩
  else ⟨Code.unknown.number, message⟩

/-- What a call option does with the subject of a call. -/
structure CallOption where
  before : Text → Except TransportError Unit
  after : Text → Except TransportError Unit

/-- A client as `RequestWithContext` uses it, with the known errors that an error of its
headers wraps. -/
structure Caller where
  client : NATSClient
  wraps : GoError → List Sentinel
  callOptions : List CallOption

/-- A way to send a message and wait for the reply, `RequestMsgWithContext`. -/
abbrev Exchange := Text → Header → Bytes → Except TransportError Msg

/-- The headers of a request. -/
def Caller.headers (caller : Caller) (ctx : Context) : Except TransportError Header :=
  (caller.client.createNATSRequestHeaders ctx).mapError fun err => ⟨caller.wraps err, err.text⟩

def Caller.requestWithContext (caller : Caller) (exchange : Exchange) (ctx : Context)
    (subject : Text) (msg : Bytes) : Except TransportError Msg := do
  let headers ← caller.headers ctx
  caller.callOptions.forM fun opt => opt.before subject
  let natsResponse ← exchange subject headers msg
  caller.callOptions.forM fun opt => opt.after subject
  return natsResponse

/-- The encoding of one kind of proto message. What was encoded is decoded again. -/
structure ProtoCodec (α : Type) where
  marshal : α → Except String Bytes
  unmarshal : Bytes → Except String α
  unmarshal_marshal : ∀ m data, marshal m = .ok data → unmarshal data = .ok m

/-- The errors of a call. -/
inductive CallError where
  | status (st : GrpcStatus)
  | subject (err : SubjectError)
  | plain (text : String)
deriving DecidableEq

variable {Message Payload Resp : Type}

/-- The end of `HandleNATSClientRequest`: what a reply says. -/
def readResponse (responses : ProtoCodec Resp) (natsResponse : Msg) : Except CallError Resp :=
  match statusFromNATSResponse (some natsResponse) with
  | some st => .error (.status st)
  | none =>
      match responses.unmarshal natsResponse.data with
      | .error err => .error (.plain ("failed to unmarshal response: " ++ err))
      | .ok response => .ok response

/-- A failed transport ends a call with its status; otherwise the call goes on. -/
def afterTransport {α : Type} (sent : Except TransportError α)
    (next : α → Except CallError Resp) : Except CallError Resp :=
  match sent with
  | .error err => .error (.status (statusFromTransportError err))
  | .ok value => next value

def handleNATSClientRequest (caller : Caller) (codec : Codec Message Payload)
    (requests : ProtoCodec Message) (responses : ProtoCodec Resp) (exchange : Exchange)
    (ctx : Context) (subject : Text) (request : Message) : Except CallError Resp :=
  match requests.marshal request with
  | .error err => .error (.plain ("failed to marshal request: " ++ err))
  | .ok msg =>
      match codec.replaceTokens subject request with
      | .error err => .error (.subject err)
      | .ok subject =>
          afterTransport (caller.requestWithContext exchange ctx subject msg) fun natsResponse =>
            readResponse responses natsResponse

end Client

section Connected

variable {Message Payload Resp : Type}

/-- The outcome of a library call that does not panic. -/
def Outcome.ofExcept {α : Type} : Except String α → Outcome α
  | .ok value => .returns value
  | .error text => .fails (.plain text)

/-- The endpoint that is generated for a method: its closures decode and encode messages. -/
def generatedEndpoint (groupName parameterizedToken : Text) (codec : Codec Message Payload)
    (errorText : SubjectError → String) (requests : ProtoCodec Message)
    (responses : ProtoCodec Resp) (serviceMethod : Metadata → Message → Outcome Resp) :
    Endpoint Message Resp Message Payload where
  groupName := groupName
  parameterizedToken := parameterizedToken
  unmarshaler data := .ofExcept (requests.unmarshal data)
  protoRequestMessage data := .ofExcept (requests.unmarshal data)
  codec := codec
  errorText := errorText
  protoMessageToRequest pm _ := .ofExcept (requests.marshal pm >>= requests.unmarshal)
  serviceMethod := serviceMethod
  marshal resp := some (.ofExcept (responses.marshal resp))

/-- A connection between a client and an endpoint. A request may fail on its way there or
back; otherwise the first reply comes back. A request without a reply runs into the client's
timeout. -/
structure Connection where
  wire : Wire
  toLower : String → String
  orders : Orders
  failure : Option TransportError
  timeout : TransportError

def Connection.exchange (connection : Connection)
    (endpoint : Endpoint Message Resp Message Payload) : Exchange := fun subject headers data =>
  match connection.failure with
  | some err => .error err
  | none =>
      match endpoint.handleRequest connection.toLower
          ⟨subject, connection.wire.header headers, data⟩ connection.orders with
      | reply :: _ => .ok (connection.wire.msg reply)
      | [] => .error connection.timeout

/-- The part of a call that is about the transport: the headers that reach the service, or
why the client got no reply it could use. -/
def Connection.transport (connection : Connection) (caller : Caller) (ctx : Context)
    (subject : Text) : Except TransportError Header := do
  let headers ← caller.headers ctx
  caller.callOptions.forM fun opt => opt.before subject
  match connection.failure with
  | some err => throw err
  | none => pure ()
  caller.callOptions.forM fun opt => opt.after subject
  return connection.wire.header headers

/-- The status a caller sees for an error of the service. -/
def Wire.seen (wire : Wire) (err : ReturnedError) : GrpcStatus :=
  ⟨arrivingCode err.convert.code, wire.carry (errorMessage err)⟩

/-- What a caller gets for the outcome of the service method. -/
def Wire.answer (wire : Wire) (responses : ProtoCodec Resp) : Outcome Resp → Except CallError Resp
  | .returns resp =>
      match responses.marshal resp with
      | .ok _ => .ok resp
      | .error text => .error (.status (wire.seen (statusError .internal text)))
  | .fails err => .error (.status (wire.seen err))
  | .panics => .error (.status ⟨Code.internal.number, "internal error"⟩)

/-- An error reply is read as the status of the error. -/
theorem readResponse_respondErrorOnly (wire : Wire) (responses : ProtoCodec Resp)
    (err : ReturnedError) :
    ∃ reply, respondErrorOnly err = [reply] ∧
      readResponse responses (wire.msg reply) = .error (.status (wire.seen err)) := by
  obtain ⟨reply, sent, read⟩ := respondError_read wire err
  refine ⟨reply, by rw [respondErrorOnly, sent]; rfl, ?_⟩
  rw [readResponse, read]
  rfl

/-- A reply with data is read as the message it encodes. -/
theorem readResponse_data (wire : Wire) (responses : ProtoCodec Resp) (resp : Resp) (data : Bytes)
    (encoded : responses.marshal resp = .ok data) :
    readResponse responses (wire.msg ⟨none, data⟩) = .ok resp := by
  have decoded := responses.unmarshal_marshal resp data encoded
  simp only [readResponse, Wire.msg, Option.map_none, statusFromNATSResponse, Option.bind_some,
    decoded]

/-- The status of a panic. -/
theorem seen_internalError (wire : Wire) :
    wire.seen (statusError .internal "internal error") =
      ⟨Code.internal.number, "internal error"⟩ := by
  have plain : Plain "internal error" := ⟨by simp, by simp, by simp⟩
  have said : errorMessage (statusError .internal "internal error") = "internal error" := by
    decide
  rw [Wire.seen, said, wire.carry_plain _ plain]
  rfl

section Answer

variable (codec : Codec Message Payload) (errorText : SubjectError → String)
  (requests : ProtoCodec Message) (responses : ProtoCodec Resp)
  (serviceMethod : Metadata → Message → Outcome Resp) (groupName parameterizedToken : Text)

/-- A handler that gets past the request leaves the caller with the answer of the service. -/
theorem callService_reads (wire : Wire) (ctx : Metadata) (m : Message) :
    ∃ reply,
      ((generatedEndpoint groupName parameterizedToken codec errorText requests responses
        serviceMethod).callService ctx m).getD
          (respondErrorOnly (statusError .internal "internal error")) = [reply] ∧
      readResponse responses (wire.msg reply) = wire.answer responses (serviceMethod ctx m) := by
  cases served : serviceMethod ctx m with
  | panics =>
    obtain ⟨reply, sent, read⟩ := readResponse_respondErrorOnly wire responses
      (statusError .internal "internal error")
    refine ⟨reply, by simp [Endpoint.callService, generatedEndpoint, served, sent], ?_⟩
    rw [read, seen_internalError]
    rfl
  | fails err =>
    obtain ⟨reply, sent, read⟩ := readResponse_respondErrorOnly wire responses err
    exact ⟨reply, by simp [Endpoint.callService, generatedEndpoint, served, sent], read⟩
  | returns resp =>
    cases encoded : responses.marshal resp with
    | error text =>
      obtain ⟨reply, sent, read⟩ := readResponse_respondErrorOnly wire responses
        (statusError .internal text)
      refine ⟨reply, ?_, by rw [read, Wire.answer, encoded]⟩
      simp [Endpoint.callService, generatedEndpoint, served, encoded, Outcome.ofExcept,
        ReturnedError.text, sent]
    | ok data =>
      refine ⟨⟨none, data⟩, ?_, ?_⟩
      · simp [Endpoint.callService, generatedEndpoint, served, encoded, Outcome.ofExcept]
      · rw [readResponse_data wire responses resp data encoded, Wire.answer, encoded]

/-- A request that arrives as it was sent is answered by the service. -/
theorem handleRequest_reads (wire : Wire) (toLower : String → String) (req : Request)
    (orders : Orders) (m : Message) (encoded : requests.marshal m = .ok req.data)
    (injected : codec.injectParameterizedRoutes req.subject
      (fixedParameterizedToken groupName parameterizedToken) m orders.params = .ok m) :
    ∃ reply,
      (generatedEndpoint groupName parameterizedToken codec errorText requests responses
        serviceMethod).handleRequest toLower req orders = [reply] ∧
      readResponse responses (wire.msg reply) =
        wire.answer responses
          (serviceMethod (requestMetadata toLower req.headers orders.headers) m) := by
  have decoded := requests.unmarshal_marshal m req.data encoded
  have reached : (generatedEndpoint groupName parameterizedToken codec errorText requests responses
      serviceMethod).handle toLower req orders =
      (generatedEndpoint groupName parameterizedToken codec errorText requests responses
        serviceMethod).callService (requestMetadata toLower req.headers orders.headers) m := by
    simp only [Endpoint.handle, generatedEndpoint, decoded, Outcome.ofExcept, injected, encoded,
      bind, Except.bind]
  obtain ⟨reply, sent, read⟩ := callService_reads codec errorText requests responses serviceMethod
    groupName parameterizedToken wire (requestMetadata toLower req.headers orders.headers) m
  refine ⟨reply, ?_, read⟩
  rw [Endpoint.handleRequest, reached]
  cases served : (generatedEndpoint groupName parameterizedToken codec errorText requests responses
      serviceMethod).callService (requestMetadata toLower req.headers orders.headers) m with
  | none => simpa [served] using sent
  | some replies => simpa [served] using sent

/-- An exchange whose reply reads as an answer leaves the caller with it, unless the
transport fails. -/
theorem request_reads (connection : Connection) (caller : Caller) (ctx : Context) (subject : Text)
    (data : Bytes) (endpoint : Endpoint Message Resp Message Payload)
    (result : Header → Except CallError Resp)
    (answered : ∀ headers, ∃ reply, endpoint.handleRequest connection.toLower
      ⟨subject, connection.wire.header headers, data⟩ connection.orders = [reply] ∧
        readResponse responses (connection.wire.msg reply) =
          result (connection.wire.header headers)) :
    afterTransport (caller.requestWithContext (connection.exchange endpoint) ctx subject data)
        (readResponse responses) =
      afterTransport (connection.transport caller ctx subject) result := by
  cases made : caller.headers ctx with
  | error err =>
    simp only [Caller.requestWithContext, Connection.transport, made, bind, Except.bind,
      afterTransport]
  | ok headers =>
    obtain ⟨reply, handled, read⟩ := answered headers
    cases begun : caller.callOptions.forM fun opt => opt.before subject with
    | error err =>
      simp only [Caller.requestWithContext, Connection.transport, made, begun, bind, Except.bind,
        afterTransport]
    | ok _ =>
      cases failed : connection.failure with
      | some err =>
        simp only [Caller.requestWithContext, Connection.transport, Connection.exchange, made,
          begun, failed, bind, Except.bind, throw, throwThe, MonadExceptOf.throw,
          afterTransport]
      | none =>
        cases ended : caller.callOptions.forM fun opt => opt.after subject with
        | error err =>
          simp only [Caller.requestWithContext, Connection.transport, Connection.exchange, made,
            begun, failed, handled, ended, bind, Except.bind, afterTransport]
        | ok _ =>
          simp only [Caller.requestWithContext, Connection.transport, Connection.exchange, made,
            begun, failed, handled, ended, read, bind, Except.bind, pure, Except.pure,
            afterTransport]

end Answer

/-- A call of a routable request over NATS ends as the service method does for that very
request and the headers that reached it, or with the status of a failed transport. -/
theorem call_answered_by_service (codec : Codec Message Payload) (faithful : codec.Faithful)
    (errorText : SubjectError → String) (requests : ProtoCodec Message)
    (responses : ProtoCodec Resp) (serviceMethod : Metadata → Message → Outcome Resp)
    (group : List Literal) (grouped : group ≠ []) (parameterized : List Segment)
    (nonempty : parameterized ≠ [])
    (legalGroup : ∀ fixed ∈ group, (Segment.literal fixed).Legal)
    (legal : ∀ segment ∈ parameterized, segment.Legal) (m : Message) (data : Bytes)
    (encoded : requests.marshal m = .ok data) (payload : Payload)
    (decoded : codec.payload m = .ok payload)
    (routable : Routable codec payload (group.map .literal ++ parameterized)) (subject : Text)
    (replaced : codec.replaceTokens (fixedParameterizedToken (render (group.map .literal))
      (render parameterized)) m = .ok subject)
    (connection : Connection) (visits : ∀ params, extractRouteParams subject
      (fixedParameterizedToken (render (group.map .literal)) (render parameterized)) = .ok params →
        IterationOrder params connection.orders.params) (caller : Caller) (ctx : Context) :
    handleNATSClientRequest caller codec requests responses
        (connection.exchange (generatedEndpoint (render (group.map .literal)) (render parameterized)
          codec errorText requests responses serviceMethod)) ctx
        (fixedParameterizedToken (render (group.map .literal)) (render parameterized)) m =
      afterTransport (connection.transport caller ctx subject) fun headers =>
        connection.wire.answer responses (serviceMethod
          (requestMetadata connection.toLower headers connection.orders.headers) m) := by
  have pattern := fixedParameterizedToken_render group grouped parameterized nonempty legalGroup
  obtain ⟨params, extracted, returned⟩ := returns_of_routable codec faithful _
    (legal_segments legalGroup legal) m payload decoded routable subject (pattern ▸ replaced)
  have injected := returned _ (visits params (pattern ▸ extracted))
  rw [← pattern] at injected
  simp only [handleNATSClientRequest, encoded, replaced]
  exact request_reads responses connection caller ctx subject data _
    (fun headers => connection.wire.answer responses (serviceMethod
      (requestMetadata connection.toLower headers connection.orders.headers) m))
    fun headers => handleRequest_reads codec errorText requests responses serviceMethod _ _
      connection.wire connection.toLower ⟨subject, connection.wire.header headers, data⟩
      connection.orders m encoded injected

end Connected

section Samples

/-- Requests that hold the id of an organization. -/
def orgCodec : Codec Text Text where
  payload m := .ok m
  message p := .ok p
  get p name :=
    if name = "orgId".toList then .ok (.string p) else .error (.plain "key not found")
  set p name value := if name = "orgId".toList then value.text else p

/-- The codec of the sample writes back what it reads. -/
theorem orgCodec_faithful : orgCodec.Faithful := by
  refine ⟨fun m payload decoded => ?_, fun payload k value got => ?_⟩
  · obtain rfl := Except.ok.inj decoded
    rfl
  · simp only [orgCodec] at got ⊢
    split at got
    · next named =>
      obtain rfl := Except.ok.inj got
      rw [if_pos named]
      rfl
    · cases got

/-- An encoding of one request. -/
def orgRequests : ProtoCodec Text where
  marshal m := if m = "u-1".toList then .ok [1] else .error "string field contains invalid UTF-8"
  unmarshal data :=
    if data = [1] then .ok "u-1".toList else .error "cannot parse invalid wire-format data"
  unmarshal_marshal m data encoded := by
    split at encoded
    · next same =>
      obtain rfl := Except.ok.inj encoded
      rw [if_pos rfl, same]
    · cases encoded

/-- Responses that are bytes. -/
def rawResponses : ProtoCodec Bytes where
  marshal m := .ok m
  unmarshal data := .ok data
  unmarshal_marshal _ _ encoded := encoded.symm

/-- A connection that keeps header values and loses nothing. -/
def calmConnection : Connection where
  wire := plainWire
  toLower := asciiToLower
  orders := ⟨["Authorization"], ["orgId".toList]⟩
  failure := none
  timeout := ⟨[.errTimeout], "nats: timeout"⟩

/-- The subject of the sample. -/
def orgSegments : List Segment := [field "orgId" (by decide) (by decide)]

/-- The caller of a service that knows no such organization sees its status, with the line
break of the message as a blank. -/
theorem call_answered_not_found :
    handleNATSClientRequest ⟨sampleClient, fun _ => [], []⟩ orgCodec orgRequests rawResponses
        (calmConnection.exchange (generatedEndpoint
          (render ([word "orgs" (by simp)].map .literal)) (render orgSegments) orgCodec
          (fun _ => "") orgRequests rawResponses
          fun _ m => .fails (statusError .notFound (String.ofList ("no org\n".toList ++ m)))))
        none "orgs.${orgId}".toList "u-1".toList =
      .error (.status ⟨5, "no org u-1"⟩) := by
  have extracted : extractRouteParams "orgs.u-1".toList "orgs.${orgId}".toList =
      .ok ((∅ : FiniteMap Text Text).insert "orgId".toList "u-1".toList) := by rfl
  refine (call_answered_by_service orgCodec orgCodec_faithful (fun _ => "") orgRequests rawResponses
    (fun _ m => .fails (statusError .notFound (String.ofList ("no org\n".toList ++ m))))
    [word "orgs" (by simp)] (by simp) orgSegments (by simp [orgSegments])
    (List.forall_mem_singleton.2 ⟨validateSubjectToken_ok [] _ rfl, by decide, by decide⟩)
    (by simp [orgSegments, field, Segment.Legal]) "u-1".toList [1] (by decide) "u-1".toList rfl
    ⟨by decide, ?_, ?_, ?_⟩ "orgs.u-1".toList (by decide) calmConnection (fun params found => ?_)
    ⟨sampleClient, fun _ => [], []⟩ none).trans ?_
  · have letters : ∀ c ∈ "orgs".toList, wordChar c = true := List.all_eq_true.1 (by decide)
    exact List.forall_mem_cons.2 ⟨letters, by simp [orgSegments, field, Segment.IsWord]⟩
  · exact List.forall_mem_singleton.2 (by decide)
  · refine List.forall_mem_singleton.2 fun text got => ?_
    cases Except.ok.inj got
  · obtain rfl := Except.ok.inj (extracted.symm.trans found)
    refine ⟨by decide, fun key => ?_⟩
    simp [calmConnection, Finmap.mem_insert, Finmap.notMem_empty]
  · rfl

end Samples

end FluffyCore.Nats
