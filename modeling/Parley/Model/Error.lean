import Parley.Error

/-!
# Why a model did not answer

A call of a model fails for a reason of its own, a `Model.Failure`.  To the rest of the program
it is an error of the service that was asked, except that a cancelled call is a cancellation.
-/

namespace Parley.Model

/-- Why a call of a model failed. -/
inductive Failure where
  | requestFailed (reason : String)
  | authFailed (reason : String)
  | rateLimited (retryAfterMs : Nat)
  | contextOverflow (reason : String)
  | invalidResponse (reason : String)
  | streamError (reason : String)
  | cancelled
  | network (reason : String)
  deriving DecidableEq, Repr

namespace Failure

/-- The wording of a failure. -/
def message : Failure → String
  | requestFailed reason => "request failed: " ++ reason
  | authFailed reason => "authentication failed: " ++ reason
  | rateLimited ms => "rate limited: retry after " ++ toString ms ++ "ms"
  | contextOverflow reason => "context overflow: " ++ reason
  | invalidResponse reason => "invalid response: " ++ reason
  | streamError reason => "stream error: " ++ reason
  | cancelled => "cancelled"
  | network reason => "network error: " ++ reason

/-- The failure as an error of the program, under the name of the service. -/
def toError (service : String) : Failure → Error
  | cancelled => .cancelled
  | other => .provider service other.message

end Failure

end Parley.Model
