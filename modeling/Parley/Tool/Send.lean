import Parley.Path
import Parley.Text.Base64
import Parley.Tool.Basic

/-!
# The tool that sends messages

The model can send the user text and media while it is still at work.  Media are paths; what the
model gives as base64 is saved first, under the last part of the name it asks for or under a
generated name, so that channels only ever deal with paths.
-/

namespace Parley.Tool.Send

open Json in
/-- A property of the schema. -/
def property (type description : String) : Json :=
  obj [("description", str description), ("type", str type)]

open Json in
/-- The arguments. -/
def schema : Json :=
  obj
    [("properties", obj
        [("channel", property "string" "Target channel; defaults to the current one"),
          ("chat_id", property "string" "Target chat id; defaults to the current one"),
          ("content", property "string" "The message content to send"),
          ("file_base64", property "string" "Optional base64 file data or data URI"),
          ("file_mime_type", property "string" "Mime type for file_base64"),
          ("file_name", property "string" "Filename for file_base64"),
          ("file_path", property "string" "Optional local file path"),
          ("image_base64", property "string" "Optional base64 image data or data URI"),
          ("image_mime_type",
            property "string" "Mime type for image_base64 (default: image/png)"),
          ("image_path", property "string" "Optional local image path"),
          ("media", obj
            [("description", str "Optional local file paths for media to send"),
              ("items", obj [("type", str "string")]), ("type", str "array")]),
          ("title", property "string" "Optional title for rich media messages")]),
      ("required", arr []), ("type", str "object")]

/-! ## Attachments -/

/-- The payload of some data, and the type of media that they name if they are a data URI. -/
def splitDataUri (data : String) : String × Option String :=
  match (data.afterLead? "data:").bind (·.splitAtFirst? ',') with
  | none => (data, none)
  | some (header, payload) =>
    let mime := (header.toList.reverse, ";base64".toList.reverse)
    (payload,
      if mime.2.isPrefixOf mime.1 then
        (String.ofList (mime.1.drop mime.2.length).reverse).nonempty?
      else none)

/-- The extension of a type of media. -/
def extension (mime : String) : String :=
  match mime with
  | "image/png" => ".png"
  | "image/jpeg" | "image/jpg" => ".jpg"
  | "image/gif" => ".gif"
  | "image/webp" => ".webp"
  | "application/pdf" => ".pdf"
  | "text/plain" => ".txt"
  | "application/json" => ".json"
  | _ => ".bin"

/-- Where in the arguments an attachment is described, and what it is unless they say. -/
structure Slot where
  data : String
  mime : String
  name : Option String
  defaultMime : String
  /-- How generated names start. -/
  stem : String

/-- An image. -/
def image : Slot := ⟨"image_base64", "image_mime_type", none, "image/png", "outbound"⟩

/-- Any file. -/
def file : Slot :=
  ⟨"file_base64", "file_mime_type", some "file_name", "application/octet-stream", "file"⟩

/-- The name to save an attachment under. -/
def fileName (s : Slot) (arguments : Json) (uriMime : Option String) (now : Timestamp) : String :=
  match (s.name.bind (textArg? arguments)).bind Path.lastPart? with
  | some name => name
  | none =>
    s.stem ++ "_" ++ now.fileStamp ++
      extension ((uriMime.or (textArg? arguments s.mime)).getD s.defaultMime)

/-- Save the attachment that the arguments describe: its path, or nothing when there is none. -/
def attach (s : Slot) (arguments : Json) : Program interface (Except String (List String)) :=
  match textArg? arguments s.data with
  | none => .done (.ok [])
  | some data =>
    let (payload, uriMime) := splitDataUri data
    match Text.Base64.decode payload.trimBlank with
    | .error fault => .done (.error fault.message)
    | .ok content => do
      let now ← ask .clock
      match ← ask (.save (fileName s arguments uriMime now) content) with
      | .ok path => .done (.ok [path])
      | .error cause => .done (.error cause.message)

/-! ## Sending -/

/-- The paths that the arguments give as they are. -/
def paths (arguments : Json) : List String :=
  ((arguments.field "media").arr?.getD []).filterMap Json.str?

/-- Whom the message is for. -/
def recipient (arguments : Json) (call : Call) : Identity :=
  ⟨(textArg? arguments "channel").getD call.identity.channel,
    (textArg? arguments "chat_id").getD call.identity.chat⟩

/-- The message that the arguments make, with the attachments that were saved. -/
def message (arguments : Json) (call : Call) (images files : List String) : OutboundMessage where
  identity := recipient arguments call
  text := (textArg? arguments "content").getD ""
  media :=
    paths arguments ++ (textArg? arguments "image_path").toList ++ images ++
      (textArg? arguments "file_path").toList ++ files
  title := textArg? arguments "title"

/-- Hand a message over. -/
def deliver (m : OutboundMessage) : Program interface Result :=
  if m.text.isEmpty && m.media.isEmpty then .done (.error "No content or media provided")
  else do
    let taken : Bool ← ask (.send m)
    if taken then .done (.text ("Message sent to " ++ m.identity.name))
    else .done (.error "sending message: channel closed")

/-- Send what the arguments describe. -/
def handler (arguments : Json) (call : Call) : Program interface Result :=
  if !call.canSend then .done (.error "Message sending not configured")
  else do
    match ← attach image arguments with
    | .error reason => .done (.error ("failed to save base64 image: " ++ reason))
    | .ok images =>
      match ← attach file arguments with
      | .error reason => .done (.error ("failed to save base64 file: " ++ reason))
      | .ok files => deliver (message arguments call images files)

/-- The tool. -/
def tool : Tool where
  name := "message"
  description :=
    "Send a message to the user. Use this when you want to communicate something, " ++
      "send local pictures or local files to the user."
  schema := schema
  handler := handler

end Parley.Tool.Send
