import Parley.Agent.Bus
import Parley.Version

/-!
# Calls of clients

Most methods are about a chat: the parameter `chat` names it, and the conversation is that of the
identity `ws:chat`.  Nothing is answered before the client has shown the token.

`chat.send` does not wait for the run: it says which session the message goes to, and the message
is handled beside.
-/

namespace Parley.Gateway.Rpc

open Agent (ask withStore)

/-- The channel of clients. -/
def channel : String := "ws"

/-- What a call comes to: its result, and a message to handle beside. -/
structure Answered where
  outcome : Except Fault Json
  message : Option Inbound := none

namespace Answered

/-- A result. -/
def result (j : Json) : Answered := ⟨.ok j, none⟩

/-- A fault. -/
def fault (f : Fault) : Answered := ⟨.error f, none⟩

/-- An error of the program. -/
def error (e : Error) : Answered := fault (.of e)

end Answered

/-- A handler of calls. -/
abbrev Handler := Json → Program Agent.interface Answered

/-! ## Parameters -/

/-- A text among the parameters that has to be there and must not be blank. -/
def required (params : Json) (name : String) : Except Fault String :=
  match (params.field name).str?.filter (!·.isAllBlank) with
  | some text => .ok text
  | none => .error (.kind .invalidParams ("Missing required param: " ++ name))

/-- A text among the parameters, trimmed, if that leaves something. -/
def optional (params : Json) (name : String) : Option String :=
  ((params.field name).str?.map String.trimBlank).bind String.nonempty?

/-- The identity of the chat that the parameters name. -/
def identity (params : Json) : Except Fault Identity :=
  (required params "chat").map fun chat => ⟨channel, chat⟩

/-- A handler for the identity that the parameters name. -/
def forChat (h : Identity → Handler) : Handler := fun params =>
  match identity params with
  | .ok i => h i params
  | .error f => .done (.fault f)

/-! ## Chats -/

open Json in
/-- Handle a message, after its session is known. -/
def chatSend (i : Identity) : Handler := fun params =>
  match required params "message" with
  | .error f => .done (.fault f)
  | .ok text => do
    match ← ask (.store (.resolve i)) with
    | .error e => .done (.error e)
    | .ok key =>
      .done ⟨.ok (object [("ok", bool true), ("session", str key.text)]),
        some { identity := i, text }⟩

open Json in
/-- The transcript of a session. -/
def history (key : SessionKey) : Program Agent.interface Answered := do
  match ← ask (.store (.transcript key)) with
  | .error e => .done (.error e)
  | .ok turns =>
    .done (.result (object
      [("session", str key.text), ("turns", arr (turns.map Turn.toJson))]))

/-- The transcript of a session of the chat, by default the one it talks to. -/
def chatHistory (i : Identity) : Handler := fun params =>
  match optional params "session" with
  | some name =>
    if i.owns ⟨name⟩ then history ⟨name⟩ else .done (.error (.sessionNotFound name))
  | none => do
    match ← ask (.store (.resolve i)) with
    | .error e => .done (.error e)
    | .ok key => history key

open Json in
/-- Cancel the runs of the chat. -/
def chatAbort (i : Identity) : Handler := fun _ => do
  let aborted : Nat ← ask (.abort i)
  .done (.result (object [("ok", bool true), ("aborted", ofNat aborted)]))

/-! ## Sessions -/

open Json in
/-- A session as a result. -/
def sessionResult (s : Summary) : Answered := .result (object [("session", s.toJson)])

open Json in
/-- The latest sessions of the chat. -/
def sessionsList (i : Identity) : Handler := fun params => do
  let sessions : List Summary ← ask (.store (.list i))
  let shown := match (params.field "limit").nat? with
    | some limit => sessions.take limit
    | none => sessions
  .done (.result (object [("sessions", arr (shown.map Summary.toJson))]))

/-- What the parameters say about a session to create. -/
def newSession (params : Json) : NewSession where
  key := optional params "session_key"
  title := optional params "title"
  seed := optional params "seed"
  allowExisting := (params.field "allow_existing").bool?.getD false

/-- Switch a session in. -/
def switchTo (i : Identity) (name : String) : Program Agent.interface Answered := do
  match ← ask (.store (.switch i name)) with
  | .error e => .done (.error e)
  | .ok s => .done (sessionResult s)

/-- Create a session, and switch it in unless told otherwise. -/
def sessionsCreate (i : Identity) : Handler := fun params => do
  match ← ask (.store (.create i (newSession params))) with
  | .error e => .done (.error e)
  | .ok created =>
    if (params.field "activate").bool?.getD true then switchTo i created.key.text
    else .done (sessionResult created)

/-- Switch a session in. -/
def sessionsSwitch (i : Identity) : Handler := fun params =>
  match required params "session" with
  | .error f => .done (.fault f)
  | .ok name => switchTo i name

open Json in
/-- Go back to the default session. -/
def sessionsReset (i : Identity) : Handler := fun _ => do
  match ← ask (.store (.reset i)) with
  | .error e => .done (.error e)
  | .ok () =>
    .done (.result (object [("ok", bool true), ("session", str i.defaultKey.text)]))

open Json in
/-- The session that is switched in. -/
def sessionsCurrent (i : Identity) : Handler := fun _ => do
  let current : Option Summary ← ask (.store (.current i))
  .done (.result (object [("session", (current.map Summary.toJson).getD null)]))

open Json in
/-- Remove a session. -/
def sessionsDelete (i : Identity) : Handler := fun params =>
  match required params "session" with
  | .error f => .done (.fault f)
  | .ok name => do
    match ← ask (.store (.delete i name)) with
    | .error e => .done (.error e)
    | .ok key => .done (.result (object [("ok", bool true), ("session", str key.text)]))

/-! ## The gateway itself -/

open Json in
/-- The tools. -/
def toolsList (setup : Agent.Setup) : Handler := fun _ =>
  .done (.result (object
    [("tools", arr (setup.tools.definitions.map fun t =>
      object [("name", str t.name), ("description", str t.description)]))]))

open Json in
/-- What a probe of the gateway is told. -/
def healthFields (setup : Agent.Setup) (sessions : Nat) : List (String × Json) :=
  [("status", str "healthy"), ("version", str version), ("model", str setup.config.model),
    ("sessions", ofNat sessions), ("tools", ofNat setup.tools.size)]

open Json in
/-- How the gateway is. -/
def health (setup : Agent.Setup) : Handler := fun _ => do
  let sessions : Nat ← ask (.store .size)
  let channels : List String ← ask .channels
  .done (.result (object (healthFields setup sessions ++ [("channels", texts channels)])))

/-! ## Routing -/

/-- The handler of a method. -/
def handler? (setup : Agent.Setup) (method : String) : Option Handler :=
  match method with
  | "chat.send" => some (forChat chatSend)
  | "chat.history" => some (forChat chatHistory)
  | "chat.abort" => some (forChat chatAbort)
  | "sessions.list" => some (forChat sessionsList)
  | "sessions.create" => some (forChat sessionsCreate)
  | "sessions.switch" => some (forChat sessionsSwitch)
  | "sessions.reset" => some (forChat sessionsReset)
  | "sessions.current" => some (forChat sessionsCurrent)
  | "sessions.delete" => some (forChat sessionsDelete)
  | "tools.list" => some (toolsList setup)
  | "health" => some (health setup)
  | _ => none

/-- Answer a call. -/
def route (setup : Agent.Setup) (isAuthenticated : Bool) (method : String) : Handler :=
  fun params =>
    if !isAuthenticated then .done (.fault (.kind .auth "Not authenticated"))
    else
      match handler? setup method with
      | some h => h params
      | none => .done (.fault (.kind .methodNotFound ("Method not found: " ++ method)))

end Parley.Gateway.Rpc
