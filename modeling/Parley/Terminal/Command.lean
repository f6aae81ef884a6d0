import Parley.Session.Request

/-!
# Commands of the terminal

A line that starts with a slash is a command: its name, and what follows the first white space as
its argument.  Every other line is for the agent.  Commands are about sessions, and do what they
do through the store.
-/

namespace Parley.Terminal

/-- A command. -/
inductive Command where
  | new (title : Option String)
  | switch (name : String)
  | sessions
  | reset
  | current
  | help
  | quit
  deriving DecidableEq, Repr

/-- What a line is. -/
inductive Line where
  /-- Something said to the agent. -/
  | chat
  | command (c : Command)
  /-- A command that cannot be run, and what to say about it. -/
  | refused (usage : String)
  deriving DecidableEq, Repr

namespace Command

/-- The command of a name. -/
def named (name argument : String) : Line :=
  match name with
  | "new" => .command (.new argument.nonempty?)
  | "switch" =>
    if argument.isEmpty then .refused "usage: /switch <key>" else .command (.switch argument)
  | "sessions" => .command .sessions
  | "reset" => .command .reset
  | "current" => .command .current
  | "help" => .command .help
  | "quit" | "exit" => .command .quit
  | other => .refused ("unknown command: /" ++ other ++ " (try /help)")

end Command

/-- What a line is. -/
def Line.read (line : String) : Line :=
  match (Text.trim line.toList) with
  | '/' :: rest =>
    let (name, argument) := rest.span (!Text.isBlank ·)
    Command.named (String.ofList name) (String.ofList (Text.trim argument))
  | _ => .chat

namespace Command

/-- The commands there are. -/
def helpText : String :=
  "/new [title]    start a new session and switch to it\n" ++
  "/switch <key>   switch to an existing session\n" ++
  "/sessions       list sessions (* marks the active one)\n" ++
  "/reset          go back to the default session\n" ++
  "/current        show the active session\n" ++
  "/quit           leave"

/-- Create a session and switch it in. -/
def startNew (i : Identity) (title : Option String) :
    Program Store.interface (Except Error String) := do
  match ← askStore (.create i { title }) with
  | .error e => .done (.error e)
  | .ok created =>
    match ← askStore (.switch i created.key.text) with
    | .error e => .done (.error e)
    | .ok s =>
      .done (.ok ("Switched to new session " ++ s.key.text ++ " (" ++ s.title ++ ")"))

/-- Run a command and say what came of it. -/
def run (i : Identity) : Command → Program Store.interface (Except Error String)
  | new title => startNew i title
  | switch name => do
    match ← askStore (.switch i name) with
    | .error e => .done (.error e)
    | .ok s => .done (.ok ("Switched to " ++ s.key.text ++ " (" ++ s.title ++ ")"))
  | sessions => do
    let sessions : List Summary ← askStore (.list i)
    .done (.ok (if sessions.isEmpty then "No sessions yet."
      else Summary.listing sessions sessions.length))
  | reset => do
    match ← askStore (.reset i) with
    | .error e => .done (.error e)
    | .ok () => .done (.ok ("Back to the default session " ++ i.defaultKey.text))
  | current => do
    match ← askStore (.current i) with
    | some s => .done (.ok ("Active session: " ++ s.key.text ++ " (" ++ s.title ++ ")"))
    | none => .done (.ok ("Using the default session " ++ i.defaultKey.text))
  | help => .done (.ok helpText)
  | quit => .done (.ok "")

end Command

end Parley.Terminal
