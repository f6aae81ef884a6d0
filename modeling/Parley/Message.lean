import Parley.Identity
import Parley.Json.Decode

/-!
# Messages across the channel boundary

A channel hands in what a user wrote as an `Inbound` message.  What goes back is `Outbound`: a
message for the user, or the announcement of a tool call before it runs.  Outbound traffic is
for delivery only; the record of what happened is the transcript.
-/

namespace Parley

/-! ## Identities on the wire -/

open Json in
/-- An identity as JSON. -/
def Identity.toJson (i : Identity) : Json :=
  obj [("channel", str i.channel), ("chat_id", str i.chat)]

open Json in
/-- A reader of identities. -/
def Identity.decoder : Decoder Identity := fun a t => do
  let r ← record? ["channel", "chat_id"] a t
  some ⟨← r.required "channel" Decoder.text, ← r.required "chat_id" Decoder.text⟩

/-- A list of texts as a field that is left out when empty. -/
def Json.textsField (name : String) (items : List String) : List (String × Json) :=
  if items.isEmpty then [] else [(name, .texts items)]

/-- A text as a field that is left out when there is none. -/
def Json.textField? (name : String) (text : Option String) : List (String × Json) :=
  match text with
  | some text => [(name, .str text)]
  | none => []

/-! ## Inbound -/

/-- What a user wrote, and the local paths of what came with it. -/
structure Inbound where
  identity : Identity
  text : String
  media : List String := []

namespace Inbound

/-- What the model sees: the message, and a line for each attachment. -/
def prompt (m : Inbound) : String :=
  m.media.foldl (fun text path => text ++ "\n[attachment: " ++ path ++ "]") m.text

open Json in
/-- An inbound message as JSON. -/
def toJson (m : Inbound) : Json :=
  obj ([("identity", m.identity.toJson), ("text", str m.text)] ++ textsField "media" m.media)

open Json in
/-- A reader of inbound messages. -/
def decoder : Decoder Inbound := fun a t => do
  let r ← record? ["identity", "text", "media"] a t
  some ⟨← r.required "identity" Identity.decoder, ← r.required "text" Decoder.text,
    ← r.orElse "media" [] (Decoder.list Decoder.text)⟩

end Inbound

/-! ## Outbound -/

/-- Text and media for a channel to deliver. -/
structure OutboundMessage where
  identity : Identity
  text : String
  media : List String := []
  title : Option String := none
  deriving DecidableEq

/-- The announcement of a tool call. -/
structure CallNotice where
  identity : Identity
  session : SessionKey
  callId : String
  name : String
  /-- The call on one line, for people. -/
  summary : String
  deriving DecidableEq

/-- What a channel is asked to deliver. -/
inductive Outbound where
  | message (m : OutboundMessage)
  | call (n : CallNotice)
  deriving DecidableEq

namespace OutboundMessage

open Json in
/-- The fields of a message. -/
def fields (m : OutboundMessage) : List (String × Json) :=
  [("identity", m.identity.toJson), ("text", str m.text)] ++ textsField "media" m.media ++
    textField? "title" m.title

/-- A message as JSON. -/
def toJson (m : OutboundMessage) : Json := .obj m.fields

open Json in
/-- A reader of messages. -/
def decoder : Decoder OutboundMessage := fun a t => do
  let r ← record? ["identity", "text", "media", "title"] a t
  some ⟨← r.required "identity" Identity.decoder, ← r.required "text" Decoder.text,
    ← r.orElse "media" [] (Decoder.list Decoder.text),
    ← r.orElse "title" none (Decoder.orNull Decoder.text)⟩

end OutboundMessage

namespace CallNotice

open Json in
/-- The fields of an announcement. -/
def fields (n : CallNotice) : List (String × Json) :=
  [("identity", n.identity.toJson), ("session", str n.session.text), ("call_id", str n.callId),
    ("name", str n.name), ("summary", str n.summary)]

/-- An announcement as JSON. -/
def toJson (n : CallNotice) : Json := .obj n.fields

open Json in
/-- A reader of announcements. -/
def decoder : Decoder CallNotice := fun a t => do
  let r ← record? ["identity", "session", "call_id", "name", "summary"] a t
  some ⟨← r.required "identity" Identity.decoder, ⟨← r.required "session" Decoder.text⟩,
    ← r.required "call_id" Decoder.text, ← r.required "name" Decoder.text,
    ← r.required "summary" Decoder.text⟩

end CallNotice

namespace Outbound

/-- Whom the item is for. -/
def identity : Outbound → Identity
  | message m => m.identity
  | call n => n.identity

/-- An item as JSON, its kind first. -/
def toJson : Outbound → Json
  | message m => .obj (("kind", .str "message") :: m.fields)
  | call n => .obj (("kind", .str "tool_call") :: n.fields)

open Json in
/-- A reader of items. -/
def decoder : Decoder Outbound :=
  Decoder.tagged "kind"
    [("message", fun a t => (OutboundMessage.decoder a t).map message),
      ("tool_call", fun a t => (CallNotice.decoder a t).map call)]

end Outbound

end Parley
