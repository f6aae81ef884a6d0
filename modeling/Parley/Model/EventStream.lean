import Parley.Json.Decode
import Parley.Model.Reply
import Parley.Text.Lossy

/-!
# The event stream of the Messages API

The service answers with server-sent events.  Bytes arrive in chunks, each of which is read as
text on its own; the text is kept until an empty line ends an event.  An event has a name and
data, the last of each that its lines give, and one without data says nothing.

What an event means depends little on what came before: `Decoder` keeps which call is open, why
the answer stopped and how many tokens it took, until the event that ends the message.  An event
that is not understood is passed over.
-/

namespace Parley.Model

namespace EventStream

/-! ## Events -/

/-- A text cut at its empty lines: the events that are whole, and the rest. -/
def cut : List Char → List (List Char) × List Char
  | [] => ([], [])
  | '\n' :: '\n' :: rest =>
    let (events, tail) := cut rest
    ([] :: events, tail)
  | c :: rest =>
    match cut rest with
    | (event :: events, tail) => ((c :: event) :: events, tail)
    | ([], tail) => ([], c :: tail)

/-- What a line says after its label. -/
def labelled? (label : String) (line : List Char) : Option (List Char) :=
  if label.toList.isPrefixOf line then some (line.drop label.length) else none

/-- The last of the lines with a label, without it. -/
def lastLabelled (label : String) (lines : List (List Char)) : String :=
  String.ofList ((lines.filterMap (labelled? label)).getLastD [])

/-- An event. -/
structure Event where
  name : String
  data : String
  deriving DecidableEq, Repr

/-- The event that a text holds. -/
def Event.ofChars (text : List Char) : Event :=
  let lines := Text.lines text
  ⟨lastLabelled "event: " lines, lastLabelled "data: " lines⟩

/-! ## What the data hold -/

open Json in
/-- Token counts of which each may be missing, and is zero then. -/
def partialUsage : Decoder Usage := fun a t => do
  let r ← record? ["input_tokens", "output_tokens"] a t
  some ⟨← r.orElse "input_tokens" 0 Decoder.word32, ← r.orElse "output_tokens" 0 Decoder.word32⟩

open Json in
/-- The tokens that the start of a message counts. -/
def startUsage : Decoder (Option Usage) := fun a t => do
  let r ← record? ["message"] a t
  r.required "message" fun a t => do
    let r ← record? ["usage"] a t
    r.optional "usage" partialUsage

/-- What the start of a block opens. -/
inductive Opening where
  | call (id name : String)
  | text (text : String)
  | other

open Json in
/-- A reader of the start of a block. -/
def opening : Decoder Opening := fun a t => do
  let r ← record? ["content_block"] a t
  r.required "content_block" <|
    Decoder.taggedOr "type"
      [("tool_use", fun a t => do
          let r ← record? ["id", "name"] a t
          some (.call (← r.required "id" Decoder.text) (← r.required "name" Decoder.text))),
        ("text", fun a t => do
          let r ← record? ["text"] a t
          some (.text (← r.orElse "text" "" Decoder.text)))]
      .other

/-- What continues a block. -/
inductive Continuation where
  | text (text : String)
  | arguments (text : String)
  | other

open Json in
/-- A reader of a piece that stands in a field. -/
def pieceIn (field : String) (say : String → Continuation) : Decoder Continuation := fun a t => do
  let r ← record? [field] a t
  some (say (← r.required field Decoder.text))

open Json in
/-- The readers of pieces, by their types. -/
def pieceReaders : List (String × Decoder Continuation) :=
  [("text_delta", pieceIn "text" .text), ("input_json_delta", pieceIn "partial_json" .arguments)]

open Json in
/-- A reader of what continues a block. -/
def continuation : Decoder Continuation := fun a t => do
  let r ← record? ["delta"] a t
  r.required "delta" (Decoder.taggedOr "type" pieceReaders .other)

open Json in
/-- A reader of why a message stopped, and of the tokens it took. -/
def stopping : Decoder (Option String × Option Usage) := fun a t => do
  let r ← record? ["delta", "usage"] a t
  let reason ← r.required "delta" fun a t => do
    let r ← record? ["stop_reason"] a t
    r.optional "stop_reason" Decoder.text
  some (reason, ← r.optional "usage" partialUsage)

open Json in
/-- A reader of reported errors. -/
def reported : Decoder String := fun a t => do
  let r ← record? ["error"] a t
  r.required "error" fun a t => do
    let r ← record? ["message"] a t
    r.required "message" Decoder.text

/-! ## Decoding -/

/-- What is kept between chunks. -/
structure Decoder where
  /-- Text that no empty line has ended yet. -/
  buffer : List Char := []
  /-- The id of the call that is open. -/
  call : Option String := none
  stopReason : Option String := none
  usage : Usage := {}

namespace Decoder

/-- What an event says, and the decoder after it. -/
def event (d : Decoder) (e : Event) : List Delta × Decoder :=
  if e.data.isEmpty then ([], d)
  else if e.name = "message_start" then
    match startUsage.readText e.data with
    | some (some u) => ([], { d with usage := { d.usage with input := u.input } })
    | _ => ([], d)
  else if e.name = "content_block_start" then
    match opening.readText e.data with
    | some (.call id name) => ([.callStart id name], { d with call := some id })
    | some (.text text) => (if text.isEmpty then [] else [.text text], d)
    | _ => ([], d)
  else if e.name = "content_block_delta" then
    match continuation.readText e.data with
    | some (.text text) => ([.text text], d)
    | some (.arguments text) => (d.call.toList.map fun id => .callArguments id text, d)
    | _ => ([], d)
  else if e.name = "content_block_stop" then
    (d.call.toList.map .callEnd, { d with call := none })
  else if e.name = "message_delta" then
    match stopping.readText e.data with
    | some (reason, usage) =>
      ([], { d with
        stopReason := reason.or d.stopReason
        usage := { d.usage with output := (usage.map (·.output)).getD d.usage.output } })
    | none => ([], d)
  else if e.name = "message_stop" then
    ([.done (some (d.stopReason.getD "end_turn")) (some d.usage)], { d with stopReason := none })
  else if e.name = "error" then
    ((reported.readText e.data).toList.map .error, d)
  else ([], d)

/-- What some events say, one after the other. -/
def events (d : Decoder) : List Event → List Delta × Decoder
  | [] => ([], d)
  | e :: rest =>
    let (deltas, d) := d.event e
    let (more, d) := d.events rest
    (deltas ++ more, d)

/-- What more text says. -/
def feed (d : Decoder) (text : List Char) : List Delta × Decoder :=
  let (whole, rest) := cut (d.buffer ++ text)
  { d with buffer := rest }.events (whole.map Event.ofChars)

end Decoder

/-! ## The body of an answer -/

/-- What arrives while the body of an answer is read. -/
inductive Arrival where
  | bytes (chunk : List UInt8)
  /-- The connection broke. -/
  | broken (reason : String)
  /-- The caller wants no more. -/
  | cancelled

/-- The items that arrivals make.  A break and a cancellation are the last item. -/
def itemsFrom (d : Decoder) : List Arrival → List Item
  | [] => []
  | .bytes chunk :: rest =>
    let (deltas, d) := d.feed (Text.Lossy.decode chunk)
    deltas.map .ok ++ itemsFrom d rest
  | .broken reason :: _ => [.error (.streamError reason)]
  | .cancelled :: _ => [.error .cancelled]

/-- The items of a body. -/
def items (arrivals : List Arrival) : List Item := itemsFrom {} arrivals

end EventStream

end Parley.Model
