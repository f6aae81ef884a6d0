import Parley.Turn

/-!
# What a tool call comes to

A tool answers with a text, with a value or with an error; a call may also be cancelled before
its tool is done.  What the model reads of it is a text, which is cut when it is too long.
-/

namespace Parley.Tool

/-- What a call comes to. -/
inductive Result where
  | text (text : String)
  | value (value : Json)
  | error (message : String)
  | cancelled

namespace Result

/-- What the model reads. -/
def content : Result → String
  | text said => said
  | value v => v.pretty
  | error message => "Error: " ++ message
  | cancelled => "[cancelled]"

/-- Whether the call came to nothing. -/
def isError : Result → Bool
  | error _ | cancelled => true
  | _ => false

/-- How the call ended, for the transcript. -/
def status : Result → ToolStatus
  | text _ | value _ => .ok
  | error _ => .failed
  | cancelled => .cancelled

end Result

/-- An output of at most `most` characters, and a note on its length when it was longer. -/
def clipOutput (most : Nat) (output : String) : String :=
  if output.length ≤ most then output
  else
    output.takeChars most ++ "...[truncated, " ++ toString output.length ++ " total chars]"

end Parley.Tool
