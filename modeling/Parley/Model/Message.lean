import Parley.Json.Decode

/-!
# What the model is told

A request to a model is a list of messages.  A message has a role and a content: a text, or a
list of blocks, which may be texts, calls of tools and results of calls.  A text and a list of
one text block say the same (`Content.blocks`), which is what lets neighbouring messages of one
role be folded together.

The size of a message is estimated in tokens, at four bytes to the token and ten tokens for the
message itself.
-/

namespace Parley.Model

/-- A part of a message. -/
inductive Block where
  | text (text : String)
  | toolUse (id name : String) (input : Json)
  /-- The result of a call; `isError` is written only when it is known. -/
  | toolResult (callId content : String) (isError : Option Bool)

/-- What a message says. -/
inductive Content where
  | text (text : String)
  | blocks (blocks : List Block)

/-- A message. -/
structure Message where
  role : String
  content : Content

/-! ## Roles -/

/-- The role of instructions. -/
def Message.system (text : String) : Message := ⟨"system", .text text⟩

/-- The role of the user, and of what tools answered. -/
def Message.user (text : String) : Message := ⟨"user", .text text⟩

/-- The role of the model. -/
def Message.assistant (text : String) : Message := ⟨"assistant", .text text⟩

/-! ## Reading a message -/

/-- The words of a block that holds words. -/
def Block.text? : Block → Option String
  | .text said => some said
  | _ => none

/-- A content as blocks. -/
def Content.toBlocks : Content → List Block
  | .text said => [.text said]
  | .blocks parts => parts

/-- The words of a message, those of different blocks on different lines. -/
def Message.text (m : Message) : String :=
  match m.content with
  | .text said => said
  | .blocks parts => "\n".intercalate (parts.filterMap Block.text?)

/-- How many bytes of a block the model reads. -/
def Block.bytes : Block → Nat
  | .text said => said.utf8ByteSize
  | .toolUse _ name input => name.utf8ByteSize + input.compact.utf8ByteSize
  | .toolResult _ content _ => content.utf8ByteSize

/-- How many bytes of a content the model reads. -/
def Content.bytes : Content → Nat
  | .text said => said.utf8ByteSize
  | .blocks parts => (parts.map Block.bytes).foldr (· + ·) 0

/-- The estimated number of tokens of a message. -/
def Message.tokens (m : Message) : Nat := m.content.bytes / 4 + 10

/-! ## The written form -/

open Json in
/-- A block as JSON, its kind first. -/
def Block.toJson : Block → Json
  | .text said => obj [("type", str "text"), ("text", str said)]
  | .toolUse id name input =>
    obj [("type", str "tool_use"), ("id", str id), ("name", str name), ("input", input)]
  | .toolResult callId content isError =>
    obj ([("type", str "tool_result"), ("tool_use_id", str callId), ("content", str content)] ++
      isError.toList.map fun b => ("is_error", bool b))

/-- A content as JSON. -/
def Content.toJson : Content → Json
  | .text said => .str said
  | .blocks parts => .arr (parts.map Block.toJson)

open Json in
/-- A message as JSON. -/
def Message.toJson (m : Message) : Json :=
  obj [("role", str m.role), ("content", m.content.toJson)]

open Json in
/-- A reader of blocks. -/
def Block.decoder : Decoder Block :=
  Decoder.tagged "type"
    [("text", fun a t => do
        let r ← record? ["text"] a t
        some (.text (← r.required "text" Decoder.text))),
      ("tool_use", fun a t => do
        let r ← record? ["id", "name", "input"] a t
        some (.toolUse (← r.required "id" Decoder.text) (← r.required "name" Decoder.text)
          (← r.required "input" Decoder.value))),
      ("tool_result", fun a t => do
        let r ← record? ["tool_use_id", "content", "is_error"] a t
        some (.toolResult (← r.required "tool_use_id" Decoder.text)
          (← r.required "content" Decoder.text) (← r.optional "is_error" Decoder.bool)))]

open Json in
/-- A reader of contents: a text if it is one, and blocks otherwise. -/
def Content.decoder : Decoder Content :=
  Decoder.firstOf
    [fun a t => (Decoder.text a t).map .text,
      fun a t => (Decoder.list Block.decoder a t).map .blocks]

open Json in
/-- A reader of messages. -/
def Message.decoder : Decoder Message := fun a t => do
  let r ← record? ["role", "content"] a t
  some ⟨← r.required "role" Decoder.text, ← r.required "content" Content.decoder⟩

end Parley.Model
