import Parley.Agent.Schedule
import Parley.Terminal.Command
import Parley.Terminal.Render
import Parley.Version

/-!
# Chatting in the terminal

A `Chat` is the agent at a terminal: what the runs are set up with, and the world they run in.
It takes one line of the user at a time and answers with what is shown; blank lines are passed
over.  All conversation of a terminal is that of one identity.
-/

namespace Parley.Terminal

/-- The channel of the terminal. -/
def channel : String := "cli"

/-- The identity of everybody at a terminal. -/
def identity : Identity := ⟨channel, "local"⟩

/-- Open the chat: switch in the session of a name, which is created if need be, and say which
session it is that is talked to. -/
def enter (name : Option String) : Program Store.interface (Except Error SessionKey) := do
  match name with
  | none => askStore (.resolve identity)
  | some name =>
    match ← askStore (.create identity { key := some name, allowExisting := true }) with
    | .error e => .done (.error e)
    | .ok created =>
      match ← askStore (.switch identity created.key.text) with
      | .error e => .done (.error e)
      | .ok _ => askStore (.resolve identity)

/-- The agent at a terminal. -/
structure Chat where
  setup : Agent.Setup
  world : Agent.World

namespace Chat

/-- The agent at a terminal, which is the only channel there is. -/
def new (setup : Agent.Setup) (world : Agent.World) : Chat :=
  ⟨setup, { world with channels := Table.empty.set channel .recorder }⟩

/-- What is shown at first. -/
def banner (c : Chat) (session : SessionKey) : String :=
  programName ++ " v" ++ version ++ " | model " ++ c.setup.config.model ++ " | session " ++
    session.text ++ "\nType /help for commands.\n"

/-- What is shown before every line of the user. -/
def prompt : String := "> "

/-- A line for the terminal. -/
def shown (text : String) : String := text ++ "\n"

/-- Handle a message, and say what went wrong if anything did. -/
def handle (setup : Agent.Setup) (text : String) : Program Agent.interface String := do
  match ← Agent.handle setup { identity, text } with
  | .ok _ => .done ""
  | .error e => .done (shown ("error: " ++ e.message))

/-- Hand a message to the agent. -/
def say (c : Chat) (text : String) : String × Chat :=
  let (trouble, scene) := (Agent.Scene.quiet c.world).play (handle c.setup text)
  let heard := scene.world.seen.map fun (_, o) => shown (render o)
  (String.join heard ++ trouble.getD "",
    { c with world := { scene.world with seen := [] } })

/-- Run a command. -/
def obey (c : Chat) (command : Command) : String × Chat :=
  let (answer, store) := c.world.store.perform c.world.clock (command.run identity)
  let text := match answer with
    | .ok text => text
    | .error e => "error: " ++ e.message
  (shown text, { c with world := { c.world with store } })

/-- Take a line of the user; `none` when the user leaves. -/
def take (c : Chat) (line : String) : Option (String × Chat) :=
  let line := line.trimBlank
  if line.isEmpty then some ("", c)
  else
    match Line.read line with
    | .chat => some (c.say line)
    | .refused usage => some (shown usage, c)
    | .command .quit => none
    | .command command => some (c.obey command)

/-- What is shown while the user says some lines and then leaves. -/
def converse (c : Chat) : List String → String
  | [] => prompt
  | line :: rest =>
    match c.take line with
    | none => prompt
    | some (output, c) => prompt ++ output ++ c.converse rest

end Chat

end Parley.Terminal
