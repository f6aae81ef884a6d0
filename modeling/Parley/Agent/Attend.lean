import Parley.Agent.Request
import Parley.Tool.Registry

/-!
# Running a tool under watch

A handler runs under a token and, in a run, under a deadline.

1. A tool that yields ends as cancelled as soon as the token is, before it started or while it
   waits.
2. A tool that does not yield is not disturbed by the token.
3. When the deadline passes while the handler waits, a tool that yields ends as cancelled; one
   that does not gets two more seconds to come to an end.

The result comes with whether the deadline struck.  What a handler sends is emitted as an event.

A call names its tool, which the registry has to know, and whose schema the arguments have to
satisfy (`Registry.invoke`).
-/

namespace Parley.Agent

/-- How long a tool that does not yield may go on after the deadline. -/
def graceMs : Nat := 2000

/-- What a watched handler came to. -/
structure Attended where
  result : Tool.Result
  timedOut : Bool := false

/-- Run a handler to its end after the deadline, at most until `limit`. -/
def indulge (limit : Nat) : Program Tool.interface Tool.Result → Program interface Attended
  | .done result => .done ⟨result, true⟩
  | .ask (.rest ms) next => do
    let now : Nat ← ask .time
    let awake : Awake ← ask (.wait (some (now + ms)) none (some limit))
    if awake.due then indulge limit (next ()) else .done ⟨.cancelled, true⟩
  | .ask (.send m) next => do
    ask (.emit (.message m))
    indulge limit (next true)
  | .ask r next => do
    let answer ← ask (.tool r)
    indulge limit (next answer)

/-- Run a handler until its end, a cancellation or the deadline. -/
def watch (yields : Bool) (token : Token) (deadline : Option Nat) :
    Program Tool.interface Tool.Result → Program interface Attended
  | .done result => .done ⟨result, false⟩
  | .ask (.rest ms) next => do
    let start : Nat ← ask .time
    let due := start + ms
    let awake : Awake ← ask (.wait (some due) (if yields then some token else none) deadline)
    if yields && awake.cancelled then .done ⟨.cancelled, false⟩
    else if awake.due then watch yields token deadline (next ())
    else if yields then .done ⟨.cancelled, true⟩
    else do
      let now : Nat ← ask .time
      let limit := now + graceMs
      let awake : Awake ← ask (.wait (some due) none (some limit))
      if awake.due then indulge limit (next ()) else .done ⟨.cancelled, true⟩
  | .ask (.send m) next => do
    ask (.emit (.message m))
    watch yields token deadline (next true)
  | .ask r next => do
    let answer ← ask (.tool r)
    watch yields token deadline (next answer)

/-- Run the handler of a tool, unless the token is cancelled and the tool yields. -/
def attend (t : Tool) (arguments : Json) (call : Tool.Call) (token : Token)
    (deadline : Option Nat) : Program interface Attended := do
  let cancelled : Bool ← ask (.isCancelled token)
  if t.yields && cancelled then .done ⟨.cancelled, false⟩
  else watch t.yields token deadline (t.handler arguments call)

end Parley.Agent

namespace Parley.Registry

open Agent

/-- Run the tool of a name, if the arguments satisfy its schema. -/
def invoke (r : Registry) (name : String) (arguments : Json) (call : Tool.Call) (token : Token)
    (deadline : Option Nat) : Program Agent.interface (Except Error Attended) :=
  match r.reach name arguments with
  | .error e => .done (.error e)
  | .ok t => Except.ok <$> attend t arguments call token deadline

end Parley.Registry
