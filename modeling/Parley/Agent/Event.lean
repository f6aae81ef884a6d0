import Parley.Message
import Parley.Outcome
import Parley.Turn

/-!
# What a run lets others see

While it is under way a run emits events, for live delivery only.  Some of them reach the user:
announcements of calls, messages that tools send, the reply, and errors.
-/

namespace Parley.Agent

/-- An event of a run. -/
inductive Event where
  /-- A tool is about to run. -/
  | call (n : CallNotice)
  | result (callId name : String) (status : ToolStatus)
  /-- A tool sent a message. -/
  | message (m : OutboundMessage)
  | reply (text : String)
  | error (message : String)
  | ended (ending : Ending)
  deriving DecidableEq

/-- What the user gets to see of an event. -/
def Event.toOutbound? (i : Identity) : Event → Option Outbound
  | call n => some (.call n)
  | message m => some (.message m)
  | reply text => if text.isAllBlank then none else some (.message { identity := i, text })
  | error e =>
    some (.message { identity := i, text := "Sorry, I encountered an error: " ++ e })
  | result .. | ended _ => none

end Parley.Agent
