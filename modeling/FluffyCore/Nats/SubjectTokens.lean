import FluffyCore.Status
import FluffyCore.Library.Replacement

/-!
# Subjects made from messages

A parameterized subject has placeholders that name fields of a message. The client
finds them with a regular expression, checks the text of each field and replaces one
placeholder after the other in the whole subject built so far.

How a message is turned into a payload of named fields and back is the business of
libraries, given here by a codec.
-/

namespace FluffyCore.Nats

open Library.Replacement

/-- Subjects, field paths and field values are texts. -/
abbrev Text := List Char

/-- The value of a field in a decoded payload. A number is given by its shortest decimal
text without an exponent, a value of another kind by its text in the "%v" format. -/
inductive FieldValue where
  | string (text : Text)
  | int (value : Int)
  | float64 (text : Text)
  | other (text : Text)
deriving DecidableEq

/-- The text of a value as a subject token. -/
def FieldValue.text : FieldValue → Text
  | .string text => text
  | .int value => (toString value).toList
  | .float64 text => text
  | .other text => text

/-- The libraries: messages to payloads and back through JSON, and the fields of a
payload by path. -/
structure Codec (Message Payload : Type) where
  payload : Message → Except GoError Payload
  message : Payload → Except GoError Message
  get : Payload → Text → Except GoError FieldValue
  set : Payload → Text → FieldValue → Payload

/-- The errors of the subject code, with what their messages say. -/
inductive SubjectError where
  | library (err : GoError)
  | emptyToken (name : Text)
  | invalidCharacter (name : Text) (r : Char)
  | tokenCount (route parameterizedRoute : Nat)
  | segmentMismatch (expected got : Text)
  | invalidInt (text : Text)
deriving DecidableEq

/-- The characters a subject token must not have. -/
def invalidInToken (r : Char) : Bool :=
  r == '.' || r == '*' || r == '>' || decide (r.toNat ≤ ' '.toNat) || r.toNat == 0x7f

def validateSubjectToken (name value : Text) : Except SubjectError Unit :=
  if value = [] then .error (.emptyToken name)
  else
    match value.find? invalidInToken with
    | some r => .error (.invalidCharacter name r)
    | none => .ok ()

/-- The placeholder of a name, `${name}`. -/
def placeholderText (name : Text) : Text := '$' :: '{' :: (name ++ ['}'])

/-- The name of a placeholder at the front of a text: the characters up to the first
closing brace, at least one. -/
def matchPlaceholder : Text → Option Text
  | '$' :: '{' :: rest =>
      let name := rest.takeWhile (· ≠ '}')
      if name ≠ [] ∧ '}' ∈ rest then some name else none
  | _ => none

/-- Scan for placeholders after skipping some characters of one. -/
def findPlaceholdersFrom : Nat → Text → List Text
  | _, [] => []
  | skip + 1, _ :: rest => findPlaceholdersFrom skip rest
  | 0, c :: rest =>
      match matchPlaceholder (c :: rest) with
      | some name => name :: findPlaceholdersFrom (name.length + 2) rest
      | none => findPlaceholdersFrom 0 rest

/-- `FindAllStringSubmatch` with the placeholder expression: the names of the matches. -/
def findPlaceholders (text : Text) : List Text := findPlaceholdersFrom 0 text

variable {Message Payload : Type}

/-- The checked text of a field. -/
def Codec.fieldText (codec : Codec Message Payload) (payload : Payload) (name : Text) :
    Except SubjectError Text :=
  match codec.get payload name with
  | .error err => .error (.library err)
  | .ok value =>
      match validateSubjectToken name value.text with
      | .error err => .error err
      | .ok _ => .ok value.text

/-- One round of the loop in `ReplaceTokens`. -/
def Codec.replaceToken (codec : Codec Message Payload) (payload : Payload) (replaced name : Text) :
    Except SubjectError Text :=
  match codec.fieldText payload name with
  | .error err => .error err
  | .ok value => .ok (replaceAll (placeholderText name) value replaced)

def Codec.replaceTokens (codec : Codec Message Payload) (parameterizedToken : Text) (m : Message) :
    Except SubjectError Text :=
  match codec.payload m with
  | .error err => .error (.library err)
  | .ok payload =>
      (findPlaceholders parameterizedToken).foldlM (codec.replaceToken payload) parameterizedToken

/-- The text of a field, or none. -/
def Codec.valueOf (codec : Codec Message Payload) (payload : Payload) (name : Text) : Text :=
  match codec.get payload name with
  | .ok value => value.text
  | .error _ => []

/-- A text that may stand for one token of a subject. -/
def IsToken (text : Text) : Prop := text ≠ [] ∧ ∀ r ∈ text, invalidInToken r = false

/-- A value that passes the check can stand for one token. -/
theorem validateSubjectToken_ok (name value : Text)
    (valid : validateSubjectToken name value = .ok ()) : IsToken value := by
  unfold validateSubjectToken at valid
  split at valid
  · cases valid
  · next nonempty =>
    split at valid
    · cases valid
    · next none =>
      refine ⟨nonempty, fun r inside => ?_⟩
      simpa using List.find?_eq_none.1 none r inside

/-- The text of a field is its value, checked to be one token. -/
theorem fieldText_ok (codec : Codec Message Payload) (payload : Payload) (name text : Text)
    (found : codec.fieldText payload name = .ok text) :
    text = codec.valueOf payload name ∧ IsToken text := by
  unfold Codec.fieldText at found
  unfold Codec.valueOf
  split at found
  · cases found
  · next value got =>
    split at found
    · cases found
    · next valid =>
      obtain rfl := Except.ok.inj found
      rw [got]
      exact ⟨rfl, validateSubjectToken_ok name value.text valid⟩

end FluffyCore.Nats
