import Parley.Decimal.Literal
import Parley.Decimal.Shortest
import Parley.Model.Message

/-!
# Requests to a model

A `Request` is what the agent asks, in no service's own terms.  `Request.body` is the JSON body of
the Messages API: messages of the system role are lifted out of the conversation into one text,
after the instructions that the request has of its own, and an empty list of tools is left out.
-/

namespace Parley.Model

/-- What the model is told about a tool. -/
structure ToolDefinition where
  name : String
  description : String
  inputSchema : Json

/-- A request. -/
structure Request where
  model : String := "claude-sonnet-4-20250514"
  messages : List Message := []
  tools : Option (List ToolDefinition) := none
  maxTokens : Option Nat := some 8192
  /-- A number of single precision. -/
  temperature : Option Decimal.Binary := none
  system : Option String := none

/-- The JSON number that is written like a number of single precision. -/
def singleNumber (x : Decimal.Binary) : Json :=
  match Decimal.Literal.ofChars? (Decimal.text32 x) with
  | some l =>
    match l.value? with
    | some (.float y) => .float y
    | some (.int i) => .int i
    | none => .null
  | none => .null

open Json in
/-- A tool as JSON. -/
def ToolDefinition.toJson (t : ToolDefinition) : Json :=
  obj [("name", str t.name), ("description", str t.description), ("input_schema", t.inputSchema)]

open Json in
/-- A reader of tools. -/
def ToolDefinition.decoder : Decoder ToolDefinition := fun a t => do
  let r ← record? ["name", "description", "input_schema"] a t
  some ⟨← r.required "name" Decoder.text, ← r.required "description" Decoder.text,
    ← r.required "input_schema" Decoder.value⟩

namespace Request

/-- All instructions: the request's own, then those among the messages. -/
def instructions (r : Request) : List String :=
  r.system.toList ++ (r.messages.filter (·.role == "system")).map Message.text

/-- The messages of the conversation proper. -/
def conversation (r : Request) : List Message :=
  r.messages.filter (·.role != "system")

open Json in
/-- The body of the Messages API. -/
def body (r : Request) : Json :=
  obj
    ([("model", str r.model), ("messages", arr (r.conversation.map Message.toJson)),
        ("max_tokens", ofNat (r.maxTokens.getD 8192)), ("stream", bool true)] ++
      (r.temperature.toList.map fun x => ("temperature", singleNumber x)) ++
      (if r.instructions.isEmpty then []
        else [("system", str ("\n\n".intercalate r.instructions))]) ++
      match r.tools with
      | some (t :: ts) => [("tools", arr ((t :: ts).map ToolDefinition.toJson))]
      | _ => [])

end Request

end Parley.Model
