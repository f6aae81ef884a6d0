import Parley.CommandLine.Console
import Parley.CommandLine.Options
import Parley.Terminal.Chat

/-!
# Carrying out a command line

The settings are read first, whatever the command is: the file, then the environment, then the
options; and they have to be sound.  A command line ends with an exit code, which is 0 for
success, 1 for a failure and 2 for a line that cannot be read, or it leads into a chat.
-/

namespace Parley.CommandLine

/-- A step of a command line, which an error ends. -/
abbrev Step (α : Type) := ExceptT Error (Program console) α

/-- Ask the surroundings, in a step. -/
def inquire (r : Request) : Step r.Answer := ExceptT.lift (ask r)

/-- A chat that a command line leads into. -/
structure Opened where
  chat : Terminal.Chat
  /-- Where sessions are kept, unless they are not. -/
  directory : Option String

/-- What a command line comes to. -/
inductive Ended where
  | exit (code : Nat)
  | chat (o : Opened)

/-! ## Settings -/

/-- The settings that the options ask for. -/
def Options.apply (o : Options) (s : Settings) : Settings :=
  { s with agent := { s.agent with
      model := o.model.getD s.agent.model
      workspace := o.workspace.or s.agent.workspace } }

/-- The settings that the command is carried out with. -/
def settings (o : Options) (home : Home) (environment : String → Option String) :
    Step Settings := do
  let path := o.config.getD home.settingsPath
  let file : Settings.FileText ← inquire (.fileText path)
  let s : Settings ← MonadExcept.ofExcept (Settings.load path file)
  let s := o.apply (s.override environment)
  MonadExcept.ofExcept s.validate
  return s

/-! ## Parts -/

/-- The text of a file, if it can be read. -/
def text? (path : String) : Step (Option String) := do
  let file : Settings.FileText ← inquire (.fileText path)
  return match file with
    | .text content => some content
    | _ => none

/-- The files of the workspace. -/
def workspaceFiles (directory : String) : Step (List (String × String)) := do
  let texts ← Workspace.fileNames.mapM fun name => do
    return (name, ← text? (Path.join directory name))
  return Workspace.load fun name => (texts.lookup name).join

/-- The store of a directory, or one in memory. -/
def openStore : Option String → Step Store
  | none => return .inMemory
  | some path => do
    let opened : Except FileError Directory ← inquire (.openDirectory path)
    match opened with
    | .error cause => throw (.file cause)
    | .ok d =>
      let (store, d) := Store.openAt d
      inquire (.keepDirectory path d)
      MonadExcept.ofExcept store

/-- Keep what a store holds. -/
def keep (path : Option String) (s : Store) : Program console Unit :=
  match path, s.disk with
  | some path, some d => ask (.keepDirectory path d)
  | _, _ => .done ()

/-! ## Commands -/

/-- Open a chat. -/
def openChat (s : Settings) (home : Home) (session : Option String) : Step Ended := do
  let service ← MonadExcept.ofExcept (Model.Service.ofSettings s)
  let directory := home.sessionsDir s
  let store ← openStore directory
  let files ← workspaceFiles (home.workspace s)
  let clock : Timestamp ← inquire .clock
  let (key, store) := store.perform clock (Terminal.enter session)
  ExceptT.lift (keep directory store)
  let key ← MonadExcept.ofExcept key
  let chat := Terminal.Chat.new (.ofSettings s files)
    { clock, store, provider := .service service [] []
      attachments := ⟨home.mediaDir, none, false⟩ }
  inquire (.print (chat.banner key))
  return .chat ⟨chat, directory⟩

/-- The bind mode of a name: the names of the own machine, and everything else. -/
def bindMode (name : String) : BindMode :=
  if ["loopback", "localhost", "127.0.0.1"].contains name then .loopback else .lan

/-- Serve the gateway. -/
def serve (s : Settings) (home : Home) (port : Option Nat) (bind token : Option String) :
    Step Ended := do
  let g : GatewaySettings :=
    { port := port.getD s.gateway.port
      bind := (bind.map bindMode).getD s.gateway.bind
      token := token.or s.gateway.token }
  let _ ← MonadExcept.ofExcept (Model.Service.ofSettings s)
  let _ ← openStore (home.sessionsDir s)
  let served : Except FileError Unit ← inquire (.serve g.bind.address g.port)
  match served with
  | .error cause => throw (.file cause)
  | .ok () => return .exit 0

/-- List the sessions of an identity. -/
def listSessions (s : Settings) (home : Home) (identity : String) : Step Ended := do
  let i ← MonadExcept.ofExcept (Identity.parse identity)
  let store ← openStore (home.sessionsDir s)
  let sessions := store.list i
  inquire (.print ((if sessions.isEmpty then "No sessions for " ++ i.name
    else Summary.listing sessions sessions.length) ++ "\n"))
  return .exit 0

/-- Carry out a command. -/
def carryOut (o : Options) : Step Ended := do
  if let some path := o.logFile then
    if (Path.lastPart? path).isNone then throw (.config ("invalid log file: " ++ path))
  let environment : String → Option String ← inquire .environment
  let home := Home.ofEnvironment environment
  let s ← settings o home environment
  match o.command with
  | .chat session => openChat s home session
  | .gateway port bind token => serve s home port bind token
  | .sessions identity => listSessions s home identity
  | .config =>
    inquire (.print (s.redacted.toJson.pretty ++ "\n"))
    return .exit 0
  | .version =>
    inquire (.print (programName ++ " v" ++ version ++ "\n"))
    return .exit 0

/-- What is said about the use of the program. -/
def usage : String :=
  "Usage: " ++ programName ++ " [OPTIONS] [COMMAND]\n\n" ++
  "Commands:\n" ++
  "  chat      Chat with the agent in the terminal\n" ++
  "  gateway   Start the WebSocket gateway\n" ++
  "  sessions  List stored sessions for an identity\n" ++
  "  config    Print the effective configuration\n" ++
  "  version   Show version\n"

/-- Carry out a command line. -/
def run (words : List String) : Program console Ended := do
  match Options.read words with
  | .error .help =>
    ask (.print usage)
    .done (.exit 0)
  | .error (.usage reason) =>
    ask (.complain ("error: " ++ reason ++ "\n\n" ++ usage))
    .done (.exit 2)
  | .ok o =>
    match ← (carryOut o).run with
    | .ok ended => .done ended
    | .error e =>
      ask (.complain ("Error: " ++ e.message ++ "\n"))
      .done (.exit 1)

end Parley.CommandLine
