/-!
# Errors

Fallible code returns either a gRPC status, which has a code and a message, or an
error of another kind.
-/

namespace FluffyCore

/-- The codes of a gRPC status. -/
inductive Code where
  | ok
  | canceled
  | unknown
  | invalidArgument
  | deadlineExceeded
  | notFound
  | alreadyExists
  | permissionDenied
  | resourceExhausted
  | failedPrecondition
  | aborted
  | outOfRange
  | unimplemented
  | internal
  | unavailable
  | dataLoss
  | unauthenticated
deriving DecidableEq

/-- An error value: a gRPC status, or any other error. -/
inductive GoError where
  | status (code : Code) (message : String)
  | plain (message : String)
deriving DecidableEq

/-- `status.FromError(err)` gives a status with code NotFound. -/
def GoError.isNotFound : GoError → Bool
  | .status code _ => code == .notFound
  | .plain _ => false

end FluffyCore
