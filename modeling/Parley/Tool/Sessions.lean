import Parley.Error
import Parley.Tool.Basic

/-!
# The tool that manages sessions

The model can create sessions for the user, switch between them, list them, say which is switched
in, and go back to the default one; always for the identity that the call came from.
-/

namespace Parley.Tool.Sessions

open Json in
/-- The arguments. -/
def schema : Json :=
  obj
    [("properties", obj
        [("action", obj
            [("description", str "Action to perform"),
              ("enum", texts ["create", "switch", "list", "current", "reset"]),
              ("type", str "string")]),
          ("activate", obj
            [("default", bool true),
              ("description", str "Whether to activate the session after create"),
              ("type", str "boolean")]),
          ("allow_existing", obj
            [("default", bool false),
              ("description", str "Allow create to reuse an existing session key"),
              ("type", str "boolean")]),
          ("limit", obj
            [("default", int 20), ("description", str "Max sessions to list"),
              ("type", str "integer")]),
          ("seed", obj
            [("description", str "Optional seed text to auto-generate a title"),
              ("type", str "string")]),
          ("session_key", obj
            [("description", str "Target session key for switch/create"),
              ("type", str "string")]),
          ("title", obj
            [("description", str "Optional title for new session"), ("type", str "string")])]),
      ("required", texts ["action"]), ("type", str "object")]

/-- A text among the arguments, trimmed, if that leaves something. -/
def trimmedArg? (arguments : Json) (name : String) : Option String :=
  ((arguments.field name).str?.map String.trimBlank).bind String.nonempty?

/-- A truth value among the arguments. -/
def flag (arguments : Json) (name : String) (fallback : Bool) : Bool :=
  (arguments.field name).bool?.getD fallback

/-- The title of a session, if it is not empty. -/
def titlePart (s : Summary) : String :=
  if s.title.isEmpty then "" else " (title: " ++ s.title ++ ")"

/-- What the arguments say about a session to create. -/
def newSession (arguments : Json) : NewSession where
  key := trimmedArg? arguments "session_key"
  title := trimmedArg? arguments "title"
  seed := trimmedArg? arguments "seed"
  allowExisting := flag arguments "allow_existing" false

/-! ## Actions -/

/-- Create a session, and switch it in unless told otherwise. -/
def create (i : Identity) (arguments : Json) : Program interface Result := do
  match ← ask (.createSession i (newSession arguments)) with
  | .error e => .done (.error e.message)
  | .ok created =>
    if !flag arguments "activate" true then
      .done (.text ("Created session: " ++ created.key.text ++ " (title: " ++ created.title ++
        ")"))
    else
      match ← ask (.switchSession i created.key.text) with
      | .ok s =>
        .done (.text ("Created and activated session: " ++ s.key.text ++ " (title: " ++ s.title ++
          ")"))
      | .error e =>
        .done (.error ("created " ++ created.key.text ++ " but could not activate it: " ++
          e.message))

/-- Switch a session in. -/
def switch (i : Identity) (arguments : Json) : Program interface Result :=
  match trimmedArg? arguments "session_key" with
  | none => .done (.error "session_key is required for switch")
  | some name => do
    match ← ask (.switchSession i name) with
    | .ok s => .done (.text ("Switched active session to: " ++ s.key.text ++ titlePart s))
    | .error e => .done (.error e.message)

/-- List the latest sessions, twenty of them unless told otherwise. -/
def list (i : Identity) (arguments : Json) : Program interface Result := do
  let sessions ← ask (.listSessions i)
  let most := max 1 ((arguments.field "limit").nat?.getD 20)
  .done (.text (if sessions.isEmpty then "No sessions found." else Summary.listing sessions most))

/-- Say which session is switched in. -/
def current (i : Identity) : Program interface Result := do
  match ← ask (.currentSession i) with
  | some s => .done (.text ("Current active session: " ++ s.key.text ++ titlePart s))
  | none => .done (.text "No active session override (using default channel session).")

/-- Go back to the default session. -/
def reset (i : Identity) : Program interface Result := do
  match ← ask (.resetSession i) with
  | .ok () =>
    .done (.text "Cleared active session override (back to default channel session).")
  | .error e => .done (.error e.message)

/-- Do what the arguments name. -/
def handler (arguments : Json) (call : Call) : Program interface Result :=
  let i := call.identity
  match (arguments.field "action").str?.getD "" with
  | "create" => create i arguments
  | "switch" => switch i arguments
  | "list" => list i arguments
  | "current" => current i
  | "reset" => reset i
  | other => .done (.error ("Unknown action: " ++ other))

/-- The tool. -/
def tool : Tool where
  name := "session_manage"
  description :=
    "Manage conversation sessions. Actions: create, switch, list, current, reset. " ++
      "Create generates a title and can activate the new session; switch activates an " ++
      "existing session."
  prompt :=
    "Use session_manage when the user asks to start a new topic, go back to an earlier " ++
      "conversation, or see their sessions. Switching takes effect from the next message."
  schema := schema
  handler := handler

end Parley.Tool.Sessions
