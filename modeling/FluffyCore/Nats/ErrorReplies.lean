import FluffyCore.GrpcStatus
import FluffyCore.Nats.Headers
import FluffyCore.Nats.RouteParams

/-!
# Error replies over NATS

A service that fails sends a reply without data whose headers describe the error: a code in
the style of HTTP for any NATS client, and the number and message of the gRPC status for
clients that know them. A client reads the status back. Header values travel as lines of
text, so line breaks become blanks before they are sent and the connection may trim blanks at
the ends.
-/

namespace FluffyCore.Nats

open Library.MapLoop

/-- The bytes of a message. -/
abbrev Bytes := List UInt8

/-- A NATS message without its subject. -/
structure Msg where
  header : Option Header
  data : Bytes

/-- `micro.ErrorHeader`. -/
def errorHeader : String := "Nats-Service-Error"

/-- `micro.ErrorCodeHeader`. -/
def errorCodeHeader : String := "Nats-Service-Error-Code"

/-- `GRPCStatusHeader`. -/
def grpcStatusHeader : String := "Grpc-Status"

/-- `GRPCMessageHeader`. -/
def grpcMessageHeader : String := "Grpc-Message"

def grpcToServiceCode (c : UInt32) : String :=
  match Code.ofNumber? c with
  | some .invalidArgument | some .outOfRange => "400"
  | some .unauthenticated => "401"
  | some .permissionDenied => "403"
  | some .notFound => "404"
  | some .alreadyExists | some .aborted => "409"
  | some .failedPrecondition => "412"
  | some .resourceExhausted => "429"
  | some .canceled => "499"
  | some .unimplemented => "501"
  | some .unavailable => "503"
  | some .deadlineExceeded => "504"
  | _ => "500"

def serviceCodeToGRPC (code : String) : Code :=
  if code = "400" then .invalidArgument
  else if code = "401" then .unauthenticated
  else if code = "403" then .permissionDenied
  else if code = "404" then .notFound
  else if code = "409" then .alreadyExists
  else if code = "412" then .failedPrecondition
  else if code = "429" then .resourceExhausted
  else if code = "499" then .canceled
  else if code = "501" then .unimplemented
  else if code = "503" then .unavailable
  else if code = "504" ∨ code = "408" then .deadlineExceeded
  else .internal

def headerSafe (s : String) : String :=
  String.ofList (s.toList.map fun c => if c = '\r' ∨ c = '\n' then ' ' else c)

/-- The error reply of NATS micro with some more headers, which replace its own. It refuses
an empty code and an empty description and sends nothing then. -/
def microError (code description : String) (data : Bytes) (headers : List (String × String)) :
    Option Msg :=
  if code = "" then none
  else if description = "" then none
  else
    let own := headerSet (headerSet ∅ errorHeader description) errorCodeHeader code
    some ⟨some (headers.foldl (fun header entry => headerSet header entry.1 entry.2) own), data⟩

/-- What `respondError` says of an error. -/
def errorMessage (err : ReturnedError) : String :=
  let st := err.convert
  headerSafe (if st.message = "" then codeString st.code else st.message)

/-- The reply `respondError` sends. -/
def respondError (err : ReturnedError) : Option Msg :=
  let st := err.convert
  let msg := errorMessage err
  microError (grpcToServiceCode st.code) msg []
    [(grpcStatusHeader, toString st.code.toNat), (grpcMessageHeader, msg)]

/-- `nats.Header.Get`: the first value of a key. -/
def headerGet (header : Header) (key : String) : String :=
  ((header.lookup key).bind List.head?).getD ""

/-- `strings.Join` with "; ". -/
def joinValues (values : List String) : String := "; ".intercalate values

def statusFromNATSResponse (msg : Option Msg) : Option GrpcStatus :=
  match msg.bind Msg.header with
  | none => none
  | some header =>
      let description := joinValues (values header errorHeader)
      let serviceCode := headerGet header errorCodeHeader
      let grpcCode := headerGet header grpcStatusHeader
      if description = "" ∧ serviceCode = "" ∧ grpcCode = "" then none
      else
        let message := headerGet header grpcMessageHeader
        let description := if message ≠ "" then message else description
        match parseInt64 grpcCode.toList with
        | some n =>
            if 0 < n ∧ n ≤ Code.unauthenticated.number.toNat then
              some ⟨UInt32.ofNat n.toNat, description⟩
            else some ⟨(serviceCodeToGRPC serviceCode).number, description⟩
        | none => some ⟨(serviceCodeToGRPC serviceCode).number, description⟩

/-- A header value without line breaks that neither starts nor ends with a blank. -/
def Plain (value : String) : Prop :=
  (∀ c ∈ value.toList, c ≠ '\r' ∧ c ≠ '\n') ∧ (∀ c ∈ value.toList.head?, c ≠ ' ' ∧ c ≠ '\t') ∧
    ∀ c ∈ value.toList.getLast?, c ≠ ' ' ∧ c ≠ '\t'

/-- What a connection makes of the header values it carries. Plain values arrive as they were
sent. -/
structure Wire where
  carry : String → String
  carry_plain : ∀ value, Plain value → carry value = value

/-- A connection that changes no value. -/
def plainWire : Wire := ⟨id, fun _ _ => rfl⟩

/-- The headers that arrive. -/
def Wire.header (wire : Wire) (sent : Header) : Header :=
  updateEach (fun key _ => (sent.lookup key).map (·.map wire.carry)) sent.keys ∅

/-- The message that arrives. -/
def Wire.msg (wire : Wire) (sent : Msg) : Msg := ⟨sent.header.map wire.header, sent.data⟩

/-- The code a client reads for a status: its own if it has a name and is not OK. -/
def arrivingCode (code : UInt32) : UInt32 :=
  if 0 < code ∧ code ≤ Code.unauthenticated.number then code else Code.internal.number

section Reading

variable (wire : Wire)

/-- The wire keeps the keys of a header, and carries each of their values. -/
theorem lookup_wireHeader (sent : Header) (key : String) :
    (wire.header sent).lookup key = (sent.lookup key).map (·.map wire.carry) := by
  rw [Wire.header, lookup_updateEach]
  split
  · rfl
  · next absent =>
    have missing : sent.lookup key = none :=
      Finmap.lookup_eq_none.2 fun inside => absent (Finmap.mem_keys.2 inside)
    rw [missing, Finmap.lookup_empty]
    rfl

/-- Setting a key gives it the value alone, and leaves the other keys. -/
theorem lookup_headerSet (headers : Header) (key value tested : String) :
    (headerSet headers key value).lookup tested =
      if tested = key then some [value] else headers.lookup tested := by
  by_cases same : tested = key
  · subst same
    simp [headerSet]
  · simp [headerSet, same, Finmap.lookup_insert_of_ne]

/-- A header with one value is read as the connection carries that value. -/
theorem headerGet_wire {sent : Header} {key value : String}
    (held : sent.lookup key = some [value]) :
    headerGet (wire.header sent) key = wire.carry value := by
  simp [headerGet, lookup_wireHeader, held]

/-- Digits are plain. -/
theorem plain_of_digits {value : String} (digits : ∀ c ∈ value.toList, c.isDigit = true) :
    Plain value := by
  have noBlank : ∀ c ∈ value.toList, c ≠ '\r' ∧ c ≠ '\n' ∧ c ≠ ' ' ∧ c ≠ '\t' := by
    intro c inside
    have digit := digits c inside
    refine ⟨?_, ?_, ?_, ?_⟩ <;> rintro rfl <;> exact absurd digit (by decide)
  refine ⟨fun c inside => ?_, fun c first => ?_, fun c last => ?_⟩
  · exact ⟨(noBlank c inside).1, (noBlank c inside).2.1⟩
  · exact (noBlank c (List.mem_of_mem_head? first)).2.2
  · exact (noBlank c (List.mem_of_getLast? last)).2.2

/-- A number is written in decimal digits. -/
theorem toList_toString (number : Nat) : (toString number).toList = Nat.toDigits 10 number := by
  simp

/-- A number is written with digits only. -/
theorem isDigit_of_mem_toString (number : Nat) :
    ∀ c ∈ (toString number).toList, c.isDigit = true := by
  rw [toList_toString]
  exact fun c inside => Nat.isDigit_of_mem_toDigits (by decide) (by decide) inside

/-- A number is read back from its digits. -/
theorem parseDigits_toString (number : Nat) :
    parseDigits (toString number).toList = some number := by
  have digits : (toString number).toList.all Char.isDigit = true :=
    List.all_eq_true.2 (isDigit_of_mem_toString number)
  rw [toList_toString] at digits ⊢
  rw [parseDigits, if_pos ⟨Nat.toDigits_ne_nil, digits⟩, Option.some_inj]
  exact Nat.ofDigitChars_toDigits (by decide) (by decide)

/-- A number that fits is read back from its text: a digit is no sign. -/
theorem parseInt64_toString (number : Nat) (fits : number < 2 ^ 63) :
    parseInt64 (toString number).toList = some (number : Int) := by
  have digits := isDigit_of_mem_toString number
  have parsed := parseDigits_toString number
  unfold parseInt64
  split
  · next rest written =>
    exact absurd (digits '-' (written ▸ List.mem_cons_self)) (by decide)
  · next rest written =>
    exact absurd (digits '+' (written ▸ List.mem_cons_self)) (by decide)
  · simp only [parsed, fits, if_true]

/-- The service code of any status is a number of three digits. -/
theorem plain_grpcToServiceCode (c : UInt32) :
    grpcToServiceCode c ≠ "" ∧ Plain (grpcToServiceCode c) := by
  unfold grpcToServiceCode
  split <;> exact ⟨by decide, plain_of_digits (List.all_eq_true.1 (by decide))⟩

/-- Without a usable number a status of no name is taken for an internal error. -/
theorem serviceCodeToGRPC_unnamed (c : UInt32)
    (unnamed : ¬ (0 < c ∧ c ≤ Code.unauthenticated.number)) :
    serviceCodeToGRPC (grpcToServiceCode c) = .internal := by
  unfold grpcToServiceCode
  split
  all_goals first
    | rfl
    | (next found => exact absurd (number_of_ofNumber? found ▸ by decide) unnamed)

/-- Making a text safe for a header removes none of its characters, so a text that is not empty
stays so. -/
theorem headerSafe_ne_empty {s : String} (nonempty : s ≠ "") : headerSafe s ≠ "" := by
  intro empty
  have characters := congrArg String.toList empty
  simp [headerSafe] at characters
  exact nonempty characters

/-- Every error has a message, as the client requires of an error reply. -/
theorem errorMessage_ne_empty (err : ReturnedError) : errorMessage err ≠ "" := by
  unfold errorMessage
  apply headerSafe_ne_empty
  split
  · exact codeString_ne_empty _
  · assumption

/-- A reply is sent whatever the error is, with its description under four headers. -/
theorem respondError_eq (err : ReturnedError) :
    ∃ header : Header, respondError err = some ⟨some header, []⟩ ∧
      header.lookup errorHeader = some [errorMessage err] ∧
      header.lookup errorCodeHeader = some [grpcToServiceCode err.convert.code] ∧
      header.lookup grpcStatusHeader = some [toString err.convert.code.toNat] ∧
      header.lookup grpcMessageHeader = some [errorMessage err] := by
  have codeSent := (plain_grpcToServiceCode err.convert.code).1
  have named := errorMessage_ne_empty err
  refine ⟨_, by rw [respondError, microError, if_neg codeSent, if_neg named], ?_⟩
  simp [lookup_headerSet, errorHeader, errorCodeHeader, grpcStatusHeader, grpcMessageHeader]

/-- The code a client takes from the number and the service code of an error. -/
theorem code_read (code : UInt32) (description : String) :
    (match parseInt64 (toString code.toNat).toList with
      | some n =>
          if 0 < n ∧ n ≤ Code.unauthenticated.number.toNat then
            some (⟨UInt32.ofNat n.toNat, description⟩ : GrpcStatus)
          else some ⟨(serviceCodeToGRPC (grpcToServiceCode code)).number, description⟩
      | none => some ⟨(serviceCodeToGRPC (grpcToServiceCode code)).number, description⟩) =
      some ⟨arrivingCode code, description⟩ := by
  have fits : code.toNat < 2 ^ 63 := by have := code.toNat_lt; omega
  have range : (0 < (code.toNat : Int) ∧ (code.toNat : Int) ≤ Code.unauthenticated.number.toNat) ↔
      0 < code ∧ code ≤ Code.unauthenticated.number := by
    rw [UInt32.lt_iff_toNat_lt, UInt32.le_iff_toNat_le]
    simp
  rw [parseInt64_toString _ fits]
  simp only [range, arrivingCode]
  split
  · simp
  · next unnamed => rw [serviceCodeToGRPC_unnamed code unnamed]

/-- Whatever the error, a reply is sent, and the client reads a status from it: the code if
it has a name, and the message as the connection carries it. -/
theorem respondError_read (err : ReturnedError) :
    ∃ reply, respondError err = some reply ∧
      statusFromNATSResponse (some (wire.msg reply)) =
        some ⟨arrivingCode err.convert.code, wire.carry (errorMessage err)⟩ := by
  obtain ⟨header, sent, described, coded, numbered, worded⟩ := respondError_eq err
  obtain ⟨codeSent, plainCode⟩ := plain_grpcToServiceCode err.convert.code
  have plainNumber : Plain (toString err.convert.code.toNat) :=
    plain_of_digits (isDigit_of_mem_toString _)
  have description : joinValues (values (wire.header header) errorHeader) =
      wire.carry (errorMessage err) := by
    rw [values, lookup_wireHeader, described]
    simp [joinValues]
  have serviceCode : headerGet (wire.header header) errorCodeHeader =
      grpcToServiceCode err.convert.code := by
    rw [headerGet_wire wire coded, wire.carry_plain _ plainCode]
  have grpcCode : headerGet (wire.header header) grpcStatusHeader =
      toString err.convert.code.toNat := by
    rw [headerGet_wire wire numbered, wire.carry_plain _ plainNumber]
  refine ⟨_, sent, ?_⟩
  simp only [statusFromNATSResponse, Wire.msg, Option.bind_some, Option.map_some, description,
    serviceCode, grpcCode, headerGet_wire wire worded, codeSent, false_and, and_false, if_false,
    ite_self]
  exact code_read _ _

end Reading

end FluffyCore.Nats
