import FluffyCore.Status

/-!
# Statuses of errors

A gRPC status has a number as its code. Seventeen numbers have a name; a status that comes
from elsewhere may have any other. Errors are turned into statuses: one that has a status
keeps it, one that wraps a status keeps the code and says its own text, and any other error
is of unknown kind.
-/

namespace FluffyCore

/-- The number of a code. -/
def Code.number : Code → UInt32
  | .ok => 0
  | .canceled => 1
  | .unknown => 2
  | .invalidArgument => 3
  | .deadlineExceeded => 4
  | .notFound => 5
  | .alreadyExists => 6
  | .permissionDenied => 7
  | .resourceExhausted => 8
  | .failedPrecondition => 9
  | .aborted => 10
  | .outOfRange => 11
  | .unimplemented => 12
  | .internal => 13
  | .unavailable => 14
  | .dataLoss => 15
  | .unauthenticated => 16

/-- The codes in the order of their numbers. -/
def Code.all : List Code :=
  [.ok, .canceled, .unknown, .invalidArgument, .deadlineExceeded, .notFound, .alreadyExists,
    .permissionDenied, .resourceExhausted, .failedPrecondition, .aborted, .outOfRange,
    .unimplemented, .internal, .unavailable, .dataLoss, .unauthenticated]

/-- The code a number stands for. -/
def Code.ofNumber? (number : UInt32) : Option Code := Code.all.find? (·.number == number)

/-- The name of a code, as `Code.String` prints it. -/
def Code.name : Code → String
  | .ok => "OK"
  | .canceled => "Canceled"
  | .unknown => "Unknown"
  | .invalidArgument => "InvalidArgument"
  | .deadlineExceeded => "DeadlineExceeded"
  | .notFound => "NotFound"
  | .alreadyExists => "AlreadyExists"
  | .permissionDenied => "PermissionDenied"
  | .resourceExhausted => "ResourceExhausted"
  | .failedPrecondition => "FailedPrecondition"
  | .aborted => "Aborted"
  | .outOfRange => "OutOfRange"
  | .unimplemented => "Unimplemented"
  | .internal => "Internal"
  | .unavailable => "Unavailable"
  | .dataLoss => "DataLoss"
  | .unauthenticated => "Unauthenticated"

/-- `Code.String` for any number. -/
def codeString (number : UInt32) : String :=
  match Code.ofNumber? number with
  | some code => code.name
  | none => "Code(" ++ toString number.toNat ++ ")"

/-- A gRPC status. -/
structure GrpcStatus where
  code : UInt32
  message : String
deriving DecidableEq

/-- An error as the status package sees it: one with a status of its own, which may be
missing, one that wraps such an error, or any other. Each prints its own text. -/
inductive ReturnedError where
  | status (st : Option GrpcStatus) (text : String)
  | wrapped (st : Option GrpcStatus) (text : String)
  | plain (text : String)
deriving DecidableEq

/-- The text of an error. -/
def ReturnedError.text : ReturnedError → String
  | .status _ text => text
  | .wrapped _ text => text
  | .plain text => text

/-- `status.Convert`. -/
def ReturnedError.convert : ReturnedError → GrpcStatus
  | .status (some st) _ => st
  | .wrapped (some st) text => { st with message := text }
  | .status none text => ⟨Code.unknown.number, text⟩
  | .wrapped none text => ⟨Code.unknown.number, text⟩
  | .plain text => ⟨Code.unknown.number, text⟩

/-- The text of an error that is a status. -/
def statusText (code message : String) : String :=
  "rpc error: code = " ++ code ++ " desc = " ++ message

/-- `status.Error` for a code that is not OK. -/
def statusError (code : Code) (message : String) : ReturnedError :=
  .status (some ⟨code.number, message⟩) (statusText code.name message)

/-- The text of a status or of another error. -/
def GoError.text : GoError → String
  | .status code message => statusText code.name message
  | .plain message => message

/-- An error made from a status converts to that status. -/
@[simp] theorem convert_statusError (code : Code) (message : String) :
    (statusError code message).convert = ⟨code.number, message⟩ := rfl

/-- A code that was found for a number has that number. -/
theorem number_of_ofNumber? {number : UInt32} {code : Code}
    (found : Code.ofNumber? number = some code) : code.number = number := by
  simpa using List.find?_some found

/-- Every code prints as some text. -/
theorem codeString_ne_empty (number : UInt32) : codeString number ≠ "" := by
  unfold codeString
  split
  · next code _ => cases code <;> decide
  · intro empty
    have characters := congrArg String.toList empty
    simp at characters

end FluffyCore
