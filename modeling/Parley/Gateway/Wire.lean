import Parley.Error
import Parley.Message

/-!
# Frames of the gateway

Clients send JSON text frames.  A frame is a call, with an id, a method and parameters, or just
a token; it is taken for a call if it can be.  Replies carry the id of their call and either a
result or an error with a code.  Besides replies the gateway sends events, which answer to no
call; those of a chat say which.
-/

namespace Parley.Gateway

/-! ## Errors -/

/-- The kinds of errors that replies tell apart. -/
inductive Code where
  | invalidParams
  | methodNotFound
  | internal
  | auth
  | notFound
  | conflict
  deriving DecidableEq, Repr

/-- The number of a kind of error. -/
def Code.number : Code → Int
  | invalidParams => -32602
  | methodNotFound => -32601
  | internal => -32603
  | auth => -32000
  | notFound => -32001
  | conflict => -32002

/-- The kind of an error. -/
def Code.of : Error → Code
  | .sessionNotFound _ | .unknownTool _ => notFound
  | .duplicateName _ => conflict
  | .invalidArguments .. => invalidParams
  | .authFailed _ => auth
  | _ => internal

/-- An error as a client sees it. -/
structure Fault where
  code : Int
  message : String
  deriving DecidableEq, Repr

namespace Fault

/-- An error of a kind. -/
def kind (code : Code) (message : String) : Fault := ⟨code.number, message⟩

/-- An error of the program. -/
def of (e : Error) : Fault := kind (Code.of e) e.message

open Json in
/-- An error as JSON. -/
def toJson (f : Fault) : Json := obj [("code", int f.code), ("message", str f.message)]

end Fault

/-! ## Calls and replies -/

/-- What a client sends. -/
inductive Frame where
  | call (id method : String) (params : Json)
  | token (token : Option String)

open Json in
/-- A reader of frames. -/
def Frame.decoder : Decoder Frame :=
  Decoder.firstOf
    [fun a t => do
        let r ← record? ["id", "method", "params"] a t
        some (.call (← r.required "id" Decoder.text) (← r.required "method" Decoder.text)
          (← r.orElse "params" .null Decoder.value)),
      Decoder.objectOnly fun a t => do
        let r ← record? ["token"] a t
        some (.token (← r.optional "token" Decoder.text))]

/-- A reply. -/
structure Reply where
  id : String
  outcome : Except Fault Json

open Json in
/-- A reply as JSON. -/
def Reply.toJson (r : Reply) : Json :=
  match r.outcome with
  | .ok result => obj [("id", str r.id), ("result", result)]
  | .error fault => obj [("id", str r.id), ("error", fault.toJson)]

/-! ## Events -/

/-- What the gateway sends of its own accord. -/
structure Event where
  name : String
  data : Json

namespace Event

open Json in
/-- An event as JSON. -/
def toJson (e : Event) : Json := obj [("event", str e.name), ("data", e.data)]

open Json in
/-- An event of a chat; what the data give themselves wins over its chat and its type. -/
def chat (chat type : String) (data : Json) : Event :=
  ⟨"chat", object ([("chat", str chat), ("type", str type)] ++ data.obj?.getD [])⟩

open Json in
/-- The event that announces an item to its chat. -/
def ofOutbound : Outbound → Event
  | .message m =>
    chat m.identity.chat "message"
      (object [("text", str m.text), ("media", texts m.media), ("title", ofText? m.title)])
  | .call n =>
    chat n.identity.chat "tool_call"
      (object [("session", str n.session.text), ("id", str n.callId), ("name", str n.name),
        ("summary", str n.summary)])

open Json in
/-- The end of a run. -/
def chatDone (chat session ending : String) : Event :=
  Event.chat chat "done" (object [("session", str session), ("reason", str ending)])

open Json in
/-- The failure of a run. -/
def chatError (chat message : String) : Event :=
  Event.chat chat "error" (object [("message", str message)])

open Json in
/-- The result of showing a token. -/
def authResult (ok : Bool) (error : Option String) : Event :=
  ⟨"auth", object [("ok", bool ok), ("error", ofText? error)]⟩

open Json in
/-- The greeting. -/
def info (version : String) : Event := ⟨"info", object [("version", str version)]⟩

/-- The answer to a ping. -/
def pong : Event := ⟨"pong", .obj []⟩

end Event

end Parley.Gateway
