import Parley.Identity

/-!
# What can go wrong

An `Error` is a cause.  Its wording is in `Error.message` and nowhere else, and whether it is
the user's to mend in `Error.isUserFacing`.
-/

namespace Parley

/-- Why the operating system refused a file operation. -/
inductive FileError where
  | notFound
  | isDirectory
  | nameTooLong
  | invalidName
  | exists
  | denied
  deriving DecidableEq, Repr

/-- The system's wording. -/
def FileError.message : FileError → String
  | .notFound => "No such file or directory (os error 2)"
  | .isDirectory => "Is a directory (os error 21)"
  | .nameTooLong => "File name too long (os error 36)"
  | .invalidName => "file name contained an unexpected NUL byte"
  | .exists => "File exists (os error 17)"
  | .denied => "Permission denied (os error 13)"

/-- Why an operation failed. -/
inductive Error where
  | sessionNotFound (key : String)
  | unknownTool (name : String)
  | duplicateName (name : String)
  /-- Arguments a tool cannot take; `field` is the one at fault, when it is one. -/
  | invalidArguments (tool : String) (field : Option String) (reason : String)
  | toolFailed (name message : String)
  | provider (name message : String)
  | iterationLimit (iterations : Nat)
  | timeout (seconds : Nat)
  | cancelled
  | channelNotFound (name : String)
  | deliveryFailed (reason : String)
  | authFailed (reason : String)
  | config (reason : String)
  /-- A settings file that is no settings. -/
  | malformedConfig (path : String)
  | file (cause : FileError)
  | json
  | internal (reason : String)
  deriving DecidableEq, Repr

namespace Error

/-- The wording of an error. -/
def message : Error → String
  | sessionNotFound key => "session not found: " ++ key
  | unknownTool name => "unknown tool: " ++ name
  | duplicateName name => "duplicate name: " ++ name
  | invalidArguments tool _ reason => "invalid arguments for " ++ tool ++ ": " ++ reason
  | toolFailed name message => "tool error: " ++ name ++ " - " ++ message
  | provider name message => "provider error: " ++ name ++ " - " ++ message
  | iterationLimit n => "iteration limit exceeded after " ++ toString n ++ " iterations"
  | timeout seconds => "timed out after " ++ toString seconds ++ "s"
  | cancelled => "cancelled"
  | channelNotFound name => "channel not found: " ++ name
  | deliveryFailed reason => "delivery failed: " ++ reason
  | authFailed reason => "authentication failed: " ++ reason
  | config reason => "config error: " ++ reason
  | malformedConfig path => "config error: " ++ path ++ ": malformed"
  | file cause => "io error: " ++ cause.message
  | json => "json error: malformed text"
  | internal reason => "internal error: " ++ reason

/-- Errors that the user can mend, and so is shown. -/
def isUserFacing : Error → Bool
  | sessionNotFound _ | unknownTool _ | duplicateName _ | invalidArguments .. => true
  | _ => false

end Error

/-- The identity a text names, or the error that says what was expected. -/
def Identity.parse (text : String) : Except Error Identity :=
  match ofText? text with
  | some i => .ok i
  | none =>
    .error (.config ("invalid channel identity '" ++ text ++ "', expected channel:chat_id"))

end Parley
