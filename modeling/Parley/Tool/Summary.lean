import Parley.Json.Printer
import Parley.Text.Blank

/-!
# A tool call on one line

Before a tool runs, people are told which and with what: its name in brackets, and its arguments
in short.  Values are clipped to their first line and to a hundred characters.
-/

namespace Parley.Tool.Summary

/-- The first line of a text, in a hundred characters at most. -/
def clip (s : String) : String :=
  let line := (s.textLines.head?).getD ""
  if line.length ≤ 100 then line else line.takeChars 100 ++ "..."

/-- The text of a value that is neither a container nor `null`. -/
def scalar? : Json → Option String
  | .str s => some s
  | .int i => some (Json.int i).compact
  | .float x => some (Json.float x).compact
  | .bool b => some (Json.bool b).compact
  | _ => none

/-- The first three fields that hold scalars. -/
def fields (fields : List (String × Json)) : String :=
  let shown := fields.filterMap fun f => (scalar? f.2).map fun s => f.1 ++ "=" ++ clip s
  " ".intercalate (shown.take 3)

/-- Whom a message goes to, when its arguments say so. -/
def target (arguments : Json) : String :=
  match (arguments.get? "channel").bind Json.str?, (arguments.get? "chat_id").bind Json.str? with
  | some channel, some chat => " -> " ++ channel ++ ":" ++ chat
  | _, _ => ""

/-- The arguments of a call in short. -/
def arguments (name : String) (arguments : Json) : String :=
  if name = "message" then
    clip (((arguments.get? "content").bind Json.str?).getD "") ++ target arguments
  else
    match arguments with
    | .obj fs => fields fs
    | other => clip other.compact

/-- A call on one line. -/
def call (name : String) (arguments : Json) : String :=
  let inShort := Summary.arguments name arguments
  "[tool:" ++ name ++ "]" ++ if inShort.isEmpty then "" else " " ++ inShort

end Parley.Tool.Summary
