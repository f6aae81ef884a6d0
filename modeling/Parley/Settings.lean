import Parley.Error
import Parley.Json.Decode
import Parley.Path

/-!
# Settings

Settings are read once, from `config.json` in the program's own directory, and handed around as
values.  Every section and every field has a default, so `{}` is a complete file.  A file that is
missing stands for the defaults; one that is malformed is an error, since ignoring it would hide a
typing mistake.

Some fields can be set from the environment.  A model, a workspace and a gateway token from
there win over the file; the key of the model service is taken from there only if the file has
none.

`Home` is the user's home directory, below which everything is kept that has no place of its
own.
-/

namespace Parley

/-- How the agent runs. -/
structure AgentSettings where
  model : String := "claude-sonnet-4-20250514"
  maxIterations : Nat := 20
  timeoutSecs : Nat := 300
  contextTokens : Nat := 64000
  maxTokens : Nat := 8192
  maxToolResultChars : Nat := 16000
  systemPrompt : Option String := none
  workspace : Option String := none

/-- Where sessions are kept. -/
structure SessionSettings where
  dir : Option String := none
  persist : Bool := true

/-- How the model service is reached. -/
structure ServiceSettings where
  baseUrl : Option String := none
  apiKey : Option String := none

/-- Which interfaces the gateway listens on. -/
inductive BindMode where
  | loopback
  | lan
  deriving DecidableEq, Repr

/-- How the gateway is reached. -/
structure GatewaySettings where
  port : Nat := 18790
  bind : BindMode := .loopback
  token : Option String := none

/-- All settings. -/
structure Settings where
  agent : AgentSettings := {}
  sessions : SessionSettings := {}
  service : ServiceSettings := {}
  gateway : GatewaySettings := {}

namespace BindMode

/-- The address to listen on. -/
def address : BindMode → String
  | loopback => "127.0.0.1"
  | lan => "0.0.0.0"

/-- The name in the file. -/
def name : BindMode → String
  | loopback => "loopback"
  | lan => "lan"

/-- A reader of bind modes. -/
def decoder : Json.Decoder BindMode := .oneOf [("loopback", loopback), ("lan", lan)]

end BindMode

namespace Settings

/-! ## The file -/

open Json in
private def decodeAgent : Decoder AgentSettings := fun a t => do
  let r ← record? ["model", "maxIterations", "timeoutSecs", "contextTokens", "maxTokens",
    "maxToolResultChars", "systemPrompt", "workspace"] a t
  let d : AgentSettings := {}
  some ⟨← r.orElse "model" d.model Decoder.text,
    ← r.orElse "maxIterations" d.maxIterations Decoder.word64,
    ← r.orElse "timeoutSecs" d.timeoutSecs Decoder.word64,
    ← r.orElse "contextTokens" d.contextTokens Decoder.word64,
    ← r.orElse "maxTokens" d.maxTokens Decoder.word32,
    ← r.orElse "maxToolResultChars" d.maxToolResultChars Decoder.word64,
    ← r.orElse "systemPrompt" none (Decoder.orNull Decoder.text),
    ← r.orElse "workspace" none (Decoder.orNull Decoder.text)⟩

open Json in
private def decodeSessions : Decoder SessionSettings := fun a t => do
  let r ← record? ["dir", "persist"] a t
  some ⟨← r.orElse "dir" none (Decoder.orNull Decoder.text),
    ← r.orElse "persist" true Decoder.bool⟩

open Json in
private def decodeService : Decoder ServiceSettings := fun a t => do
  let r ← record? ["baseUrl", "apiKey"] a t
  some ⟨← r.orElse "baseUrl" none (Decoder.orNull Decoder.text),
    ← r.orElse "apiKey" none (Decoder.orNull Decoder.text)⟩

open Json in
private def decodeGateway : Decoder GatewaySettings := fun a t => do
  let r ← record? ["port", "bind", "token"] a t
  let d : GatewaySettings := {}
  some ⟨← r.orElse "port" d.port Decoder.word16, ← r.orElse "bind" d.bind BindMode.decoder,
    ← r.orElse "token" none (Decoder.orNull Decoder.text)⟩

open Json in
/-- A reader of settings. -/
def decoder : Decoder Settings := fun a t => do
  let r ← record? ["agent", "sessions", "provider", "gateway"] a t
  some ⟨← r.orElse "agent" {} decodeAgent, ← r.orElse "sessions" {} decodeSessions,
    ← r.orElse "provider" {} decodeService, ← r.orElse "gateway" {} decodeGateway⟩

open Json in
/-- Settings as JSON, in the order of the file. -/
def toJson (s : Settings) : Json :=
  obj
    [("agent", obj
        [("model", str s.agent.model), ("maxIterations", ofNat s.agent.maxIterations),
          ("timeoutSecs", ofNat s.agent.timeoutSecs),
          ("contextTokens", ofNat s.agent.contextTokens), ("maxTokens", ofNat s.agent.maxTokens),
          ("maxToolResultChars", ofNat s.agent.maxToolResultChars),
          ("systemPrompt", ofText? s.agent.systemPrompt),
          ("workspace", ofText? s.agent.workspace)]),
      ("sessions", obj
        [("dir", ofText? s.sessions.dir), ("persist", bool s.sessions.persist)]),
      ("provider", obj
        [("baseUrl", ofText? s.service.baseUrl), ("apiKey", ofText? s.service.apiKey)]),
      ("gateway", obj
        [("port", ofNat s.gateway.port), ("bind", str s.gateway.bind.name),
          ("token", ofText? s.gateway.token)])]

/-- What reading the settings file came to. -/
inductive FileText where
  | missing
  | text (content : String)
  | unreadable (cause : FileError)

/-- The settings that a file gives. -/
def load (path : String) : FileText → Except Error Settings
  | .missing => .ok {}
  | .unreadable cause => .error (.file cause)
  | .text content =>
    match decoder.readText content with
    | some s => .ok s
    | none => .error (.malformedConfig path)

/-! ## The environment -/

/-- The variables that settings are taken from, and that of the home directory. -/
def variableNames : List String :=
  ["HOME", "NANOCLAW_MODEL", "NANOCLAW_WORKSPACE", "NANOCLAW_GATEWAY_TOKEN", "ANTHROPIC_API_KEY"]

/-- The settings after what the environment sets. -/
def override (s : Settings) (lookup : String → Option String) : Settings :=
  { s with
    agent := { s.agent with
      model := (lookup "NANOCLAW_MODEL").getD s.agent.model
      workspace := (lookup "NANOCLAW_WORKSPACE").or s.agent.workspace }
    gateway := { s.gateway with
      token := (lookup "NANOCLAW_GATEWAY_TOKEN").or s.gateway.token }
    service := { s.service with
      apiKey := s.service.apiKey.or (lookup "ANTHROPIC_API_KEY") } }

/-- The settings with everything blotted out that nobody is to read. -/
def redacted (s : Settings) : Settings :=
  let blot (secret : Option String) : Option String := secret.map fun _ => "<redacted>"
  { s with
    service := { s.service with apiKey := blot s.service.apiKey }
    gateway := { s.gateway with token := blot s.gateway.token } }

/-- Settings that the agent cannot run with. -/
def validate (s : Settings) : Except Error Unit :=
  if s.agent.maxIterations = 0 then .error (.config "agent.maxIterations must be at least 1")
  else if s.agent.timeoutSecs = 0 then .error (.config "agent.timeoutSecs must be at least 1")
  else if s.agent.model.isAllBlank then .error (.config "agent.model must not be empty")
  else .ok ()

end Settings

/-! ## Places -/

/-- The home directory. -/
structure Home where
  path : String

namespace Home

/-- The home directory that the environment names. -/
def ofEnvironment (lookup : String → Option String) : Home :=
  ⟨(lookup "HOME").getD "/tmp"⟩

/-- A path in which `~/` stands for the home directory. -/
def expand (h : Home) (path : String) : String :=
  match path.afterLead? "~/" with
  | some rest => Path.join h.path rest
  | none => path

/-- A place in the program's own directory. -/
def own (h : Home) (name : String) : String :=
  Path.join (Path.join h.path ".nanoclaw") name

/-- Where the settings file is. -/
def settingsPath (h : Home) : String := h.own "config.json"

/-- Where decoded attachments go. -/
def mediaDir (h : Home) : String := h.own "media"

/-- The directory of the workspace files. -/
def workspace (h : Home) (s : Settings) : String :=
  (s.agent.workspace.map h.expand).getD (h.own "workspace")

/-- The directory of the session files, unless sessions are kept in memory. -/
def sessionsDir (h : Home) (s : Settings) : Option String :=
  if s.sessions.persist then some ((s.sessions.dir.map h.expand).getD (h.own "sessions"))
  else none

end Home

end Parley
