import Parley.Error
import Parley.Message
import Parley.Model.Request
import Parley.Program
import Parley.Session.Basic
import Parley.Tool.Result

/-!
# Tools

A tool has a name and a description for the model, a schema for its arguments, and a handler.  A
handler is a program, and `Tool.Request` is all it may ask for: it can send messages, save files,
look at the clock and wait, and of the sessions it can only reach those of an identity, through
five requests.  It never holds the store.
-/

namespace Parley

/-- What a handler may ask for. -/
inductive Tool.Request where
  | createSession (i : Identity) (new : NewSession)
  | switchSession (i : Identity) (name : String)
  | listSessions (i : Identity)
  | currentSession (i : Identity)
  | resetSession (i : Identity)
  /-- Hand over a message for delivery; the answer is whether somebody took it. -/
  | send (m : OutboundMessage)
  /-- Save an attachment under a name; the answer is its path. -/
  | save (name : String) (content : List UInt8)
  | clock
  | rest (ms : Nat)
  /-- Leave a mark in the log. -/
  | mark (label : Nat)

/-- What a handler is answered with. -/
def Tool.Request.Answer : Tool.Request → Type
  | createSession .. | switchSession .. => Except Error Summary
  | listSessions _ => List Summary
  | currentSession _ => Option Summary
  | resetSession _ => Except Error Unit
  | send _ => Bool
  | save .. => Except FileError String
  | clock => Timestamp
  | rest _ | mark _ => Unit

/-- The surroundings of a handler. -/
def Tool.interface : Interface := ⟨Tool.Request, Tool.Request.Answer⟩

/-- What a handler knows about the call it serves. -/
structure Tool.Call where
  identity : Identity
  session : SessionKey
  /-- Whether messages can be handed over at all. -/
  canSend : Bool := true

/-- A tool. -/
structure Tool where
  name : String
  description : String
  /-- What the model is told about the use of the tool, besides its description. -/
  prompt : String := ""
  schema : Json
  handler : Json → Tool.Call → Program Tool.interface Tool.Result
  /-- Whether a cancellation ends the handler wherever it is. -/
  yields : Bool := true

namespace Tool

/-- Ask the surroundings. -/
def ask (r : Request) : Program interface r.Answer := Program.request interface r

/-- What the model is told. -/
def definition (t : Tool) : Model.ToolDefinition := ⟨t.name, t.description, t.schema⟩

/-- Ask the surroundings when nobody takes what is sent. -/
def askUnheard : (r : Request) → Program interface r.Answer
  | .send _ => .done false
  | r => ask r

/-- The same tool when nobody takes what it sends. -/
def unheard (t : Tool) : Tool :=
  { t with handler := fun arguments call => (t.handler arguments call).through askUnheard }

/-- A text among the arguments that is not empty. -/
def textArg? (arguments : Json) (name : String) : Option String :=
  (arguments.field name).str?.bind String.nonempty?

end Tool

end Parley
