import Parley.Tool.Basic

/-!
# Tools that follow a script

Beside the model that follows a script there are tools that do: such a tool leaves its mark,
waits, sends some messages and gives the answer that was laid down for it.
-/

namespace Parley.Tool

/-- The answer of a tool that follows a script. -/
inductive Line where
  | text (text : String)
  | error (message : String)
  | value (value : Json)
  /-- The identity and the session of the call. -/
  | whose
  /-- The arguments of the call. -/
  | arguments

/-- A tool that follows a script. -/
structure Rehearsed where
  name : String
  description : String
  prompt : String
  schema : Json
  restMs : Nat
  messages : List String
  line : Line
  yields : Bool
  /-- The mark it leaves when it starts. -/
  label : Nat

namespace Rehearsed

/-- The answer to a call. -/
def answer (line : Line) (arguments : Json) (call : Call) : Result :=
  match line with
  | .text said => .text said
  | .error message => .error message
  | .value v => .value v
  | .whose => .text (call.identity.name ++ " " ++ call.session.text)
  | .arguments => .text arguments.compact

/-- Send some texts to whom the call came from. -/
def sendAll (i : Identity) : List String → Program interface Unit
  | [] => .done ()
  | text :: rest => do
    let _ ← ask (.send { identity := i, text })
    sendAll i rest

/-- Do what was laid down. -/
def handler (r : Rehearsed) (arguments : Json) (call : Call) : Program interface Result := do
  ask (.mark r.label)
  ask (.rest r.restMs)
  sendAll call.identity (if call.canSend then r.messages else [])
  .done (answer r.line arguments call)

/-- The tool. -/
def tool (r : Rehearsed) : Tool :=
  ⟨r.name, r.description, r.prompt, r.schema, r.handler, r.yields⟩

end Rehearsed

end Parley.Tool
