import Parley.Json.Decode
import Parley.Model.Error
import Parley.Text.Blank

/-!
# From a stream of deltas to a reply

A model answers piece by piece.  Each piece is a `Delta`; the `Accumulator` folds them into a
`Reply`.  Pieces of arguments belong to the call that was opened last, and a call is closed by
its end, by the opening of the next, or by the end of the stream.

`collect` folds a whole stream.  An item that is a failure ends it, and an error that the model
reported in between fails the reply as a whole, the first of them if there are several.
-/

namespace Parley.Model

/-- How many tokens a call took. -/
structure Usage where
  input : Nat := 0
  output : Nat := 0
  deriving DecidableEq, Repr

/-- A piece of an answer. -/
inductive Delta where
  | text (text : String)
  | callStart (id name : String)
  | callArguments (id text : String)
  | callEnd (id : String)
  | done (stopReason : Option String) (usage : Option Usage)
  /-- An error that the model reported within its answer. -/
  | error (message : String)
  deriving DecidableEq, Repr

/-- What a stream of an answer delivers: pieces, and at most one failure. -/
abbrev Item := Except Failure Delta

/-- A call of a tool that the model asks for; its arguments are `null` when they are not JSON. -/
structure ToolCall where
  id : String
  name : String
  arguments : Json

/-- A whole answer. -/
structure Reply where
  text : String
  calls : List ToolCall
  stopReason : Option String
  usage : Option Usage

/-- An answer without calls is final. -/
def Reply.isFinal (r : Reply) : Bool := r.calls.isEmpty

/-! ## Calls while they arrive -/

/-- A call with the text of its arguments so far. -/
structure OpenCall where
  id : String
  name : String
  arguments : String := ""
  deriving DecidableEq, Repr

/-- The arguments that a text stands for: an empty object when there is no text. -/
def readArguments (text : String) : Option Json :=
  if text.isAllBlank then some (.obj []) else Json.read? text

/-- The call as it is handed on. -/
def OpenCall.toCall (c : OpenCall) : ToolCall :=
  ⟨c.id, c.name, (readArguments c.arguments).getD .null⟩

/-! ## Folding -/

/-- What arrived so far. -/
structure Accumulator where
  text : String := ""
  /-- The calls that were closed, in the order of their opening. -/
  closed : List OpenCall := []
  /-- The call that was opened last, while it is open. -/
  current : Option OpenCall := none
  stopReason : Option String := none
  usage : Option Usage := none
  errors : List String := []

namespace Accumulator

/-- All calls so far, in the order of their opening. -/
def calls (a : Accumulator) : List OpenCall := a.closed ++ a.current.toList

/-- The accumulator after one more piece. -/
def push (a : Accumulator) : Delta → Accumulator
  | .text text => { a with text := a.text ++ text }
  | .callStart id name => { a with closed := a.calls, current := some ⟨id, name, ""⟩ }
  | .callArguments _ text =>
    { a with current := a.current.map fun c => { c with arguments := c.arguments ++ text } }
  | .callEnd _ => { a with closed := a.calls, current := none }
  | .done stopReason usage =>
    { a with stopReason := stopReason.or a.stopReason, usage := usage.or a.usage }
  | .error message => { a with errors := a.errors ++ [message] }

/-- The accumulator after some pieces. -/
def pushAll (a : Accumulator) (deltas : List Delta) : Accumulator :=
  deltas.foldl push a

/-- The reply that the pieces make. -/
def finish (a : Accumulator) : Reply :=
  ⟨a.text, a.calls.map OpenCall.toCall, a.stopReason, a.usage⟩

/-- The reply at the end of a stream, unless an error was reported. -/
def conclude (a : Accumulator) : Except Failure Reply :=
  match a.errors with
  | e :: _ => .error (.streamError e)
  | [] => .ok a.finish

end Accumulator

/-- The reply that the items of a stream make, after what arrived before. -/
def collectFrom (a : Accumulator) : List Item → Except Failure Reply
  | [] => a.conclude
  | .ok delta :: rest => collectFrom (a.push delta) rest
  | .error failure :: _ => .error failure

/-- The reply that a whole stream makes; a call that is cancelled reads none of it. -/
def collect (isCancelled : Bool) (items : List Item) : Except Failure Reply :=
  if isCancelled then .error .cancelled else collectFrom {} items

/-! ## The written form -/

open Json in
/-- Token counts as JSON. -/
def Usage.toJson (u : Usage) : Json :=
  obj [("input_tokens", ofNat u.input), ("output_tokens", ofNat u.output)]

open Json in
/-- A reader of token counts. -/
def Usage.decoder : Decoder Usage := fun a t => do
  let r ← record? ["input_tokens", "output_tokens"] a t
  some ⟨← r.required "input_tokens" Decoder.word32, ← r.required "output_tokens" Decoder.word32⟩

open Json in
/-- A reply as JSON. -/
def Reply.toJson (r : Reply) : Json :=
  obj
    [("text", str r.text),
      ("tool_calls", arr (r.calls.map fun c =>
        obj [("id", str c.id), ("name", str c.name), ("arguments", c.arguments)])),
      ("stop_reason", ofText? r.stopReason),
      ("usage", (r.usage.map Usage.toJson).getD null),
      ("is_final", bool r.isFinal)]

end Parley.Model
