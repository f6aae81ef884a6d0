import Parley.Identity
import Parley.Time.Timestamp

/-!
# Turns of a conversation

A transcript is a list of turns.  A turn has an author, a content and the instant at which it
was recorded: what the user or the assistant said, a call the assistant made, or the result of a
call.  The written form is a JSON object of those three parts; its content names its own kind
under `type`.
-/

namespace Parley

/-- Who authored a turn. -/
inductive Role where
  | user
  | assistant
  | toolCall
  | toolResult
  deriving DecidableEq, Repr

/-- How a tool call ended. -/
inductive ToolStatus where
  | ok
  | failed
  | cancelled
  deriving DecidableEq, Repr

/-- What a turn says. -/
inductive Content where
  | text (text : String)
  | toolCall (callId name : String) (arguments : Json)
  | toolResult (callId name output : String) (status : ToolStatus)

/-- One entry of a transcript. -/
structure Turn where
  role : Role
  content : Content
  timestamp : Timestamp

namespace Turn

/-! ## Composing -/

/-- What the user said. -/
def user (text : String) (now : Timestamp) : Turn := ⟨.user, .text text, now⟩

/-- What the assistant said. -/
def assistant (text : String) (now : Timestamp) : Turn := ⟨.assistant, .text text, now⟩

/-- A call the assistant made. -/
def toolCall (callId name : String) (arguments : Json) (now : Timestamp) : Turn :=
  ⟨.toolCall, .toolCall callId name arguments, now⟩

/-- What a call came to. -/
def toolResult (callId name output : String) (status : ToolStatus) (now : Timestamp) : Turn :=
  ⟨.toolResult, .toolResult callId name output status, now⟩

/-! ## Reading -/

/-- The words of a turn that holds words. -/
def text? (t : Turn) : Option String :=
  match t.content with
  | .text text => some text
  | _ => none

/-- What the model reads of a turn, as one text. -/
def flat (t : Turn) : String :=
  match t.content with
  | .text text => text
  | .toolCall _ name arguments => name ++ " " ++ arguments.compact
  | .toolResult _ _ output _ => output

end Turn

/-! ## The written form -/

/-- The names of the authors. -/
def Role.names : List (String × Role) :=
  [("user", .user), ("assistant", .assistant), ("tool_call", .toolCall),
    ("tool_result", .toolResult)]

/-- The name of an author. -/
def Role.name : Role → String
  | .user => "user"
  | .assistant => "assistant"
  | .toolCall => "tool_call"
  | .toolResult => "tool_result"

/-- The names of the outcomes of a call. -/
def ToolStatus.names : List (String × ToolStatus) :=
  [("ok", .ok), ("failed", .failed), ("cancelled", .cancelled)]

/-- The name of an outcome. -/
def ToolStatus.name : ToolStatus → String
  | .ok => "ok"
  | .failed => "failed"
  | .cancelled => "cancelled"

open Json in
/-- A content as JSON, its kind first. -/
def Content.toJson : Content → Json
  | .text said => obj [("type", str "text"), ("text", str said)]
  | .toolCall callId name arguments =>
    obj [("type", str "tool_call"), ("call_id", str callId), ("name", str name),
      ("arguments", arguments)]
  | .toolResult callId name output status =>
    obj [("type", str "tool_result"), ("call_id", str callId), ("name", str name),
      ("output", str output), ("status", str status.name)]

open Json in
/-- A turn as JSON. -/
def Turn.toJson (t : Turn) : Json :=
  obj [("role", str t.role.name), ("content", t.content.toJson), ("timestamp", t.timestamp.toJson)]

open Json in
/-- A reader of contents. -/
def Content.decoder : Decoder Content :=
  Decoder.tagged "type"
    [("text", fun a t => do
        let r ← record? ["text"] a t
        some (.text (← r.required "text" Decoder.text))),
      ("tool_call", fun a t => do
        let r ← record? ["call_id", "name", "arguments"] a t
        some (.toolCall (← r.required "call_id" Decoder.text) (← r.required "name" Decoder.text)
          (← r.required "arguments" Decoder.value))),
      ("tool_result", fun a t => do
        let r ← record? ["call_id", "name", "output", "status"] a t
        some (.toolResult (← r.required "call_id" Decoder.text) (← r.required "name" Decoder.text)
          (← r.required "output" Decoder.text)
          (← r.required "status" (Decoder.oneOf ToolStatus.names))))]

open Json in
/-- A reader of turns. -/
def Turn.decoder : Decoder Turn := fun a t => do
  let r ← record? ["role", "content", "timestamp"] a t
  some ⟨← r.required "role" (Decoder.oneOf Role.names), ← r.required "content" Content.decoder,
    ← r.required "timestamp" Timestamp.decoder⟩

end Parley
