import Parley.Agent.Attend
import Parley.Agent.Config
import Parley.Context
import Parley.Tool.Summary

/-!
# A run

A run answers one message.  It records the message, and then goes in rounds: the model is asked,
and either answers, which ends the run, or asks for tools, which are run one after the other and
whose results it sees in the next round.  Everything is recorded in the transcript as it
happens.

1. **Order.**  A call is announced, recorded, run, and its result recorded and announced, before
   the next call.
2. **Ends.**  A run ends with a final answer, with the limit of rounds, with a failure of the
   model, or interrupted by a cancellation or the deadline.  All but a failure leave a closing
   turn.  An error of the store ends a run as well, and is the only thing that makes it fail.
3. **One at a time.**  A run has the lock of its identity from start to end.  Its deadline counts
   from when it has the lock.
-/

namespace Parley.Agent

/-- A part of a run, which an error of the store ends. -/
abbrev Part (α : Type) := ExceptT Error (Program interface) α

/-- Ask the surroundings, in a part of a run. -/
def inquire (r : Request) : Part r.Answer := ExceptT.lift (ask r)

/-- Ask the store, in a part of a run. -/
def attempt {α : Type} (p : Program interface (Except Error α)) : Part α := ExceptT.mk p

/-- Add a turn of this moment to a session. -/
def record (key : SessionKey) (turn : Timestamp → Turn) : Part Unit := do
  let now : Timestamp ← inquire (.tool .clock)
  attempt (ask (.store (.append key (turn now))))

/-! ## Asking the model -/

/-- What asking the model came to. -/
inductive Asked where
  | reply (r : Model.Reply)
  | failed (f : Model.Failure)
  | cancelled
  | timeout

/-- The end of a model's answer. -/
def Asked.of : Except Model.Failure Model.Reply → Asked
  | .ok r => .reply r
  | .error .cancelled => .cancelled
  | .error f => .failed f

/-- Listen to an answer until it ends, or a cancellation or the deadline strikes. -/
def listen (token : Token) (deadline : Option Nat) (heard : Model.Accumulator) :
    Model.Stream → Program interface Asked
  | [] => do
    let cancelled : Bool ← ask (.isCancelled token)
    .done (if cancelled then .cancelled else .of heard.conclude)
  | .item item :: rest => do
    let cancelled : Bool ← ask (.isCancelled token)
    if cancelled then .done .cancelled
    else
      match item with
      | .ok delta => listen token deadline (heard.push delta) rest
      | .error f => .done (.of (.error f))
  | .wait ms :: rest => do
    let now : Nat ← ask .time
    let awake : Awake ← ask (.wait (some (now + ms)) (some token) deadline)
    if awake.expired then .done .timeout
    else if awake.cancelled then .done .cancelled
    else listen token deadline heard rest
  | .silence :: _ => do
    let awake : Awake ← ask (.wait none (some token) deadline)
    .done (if awake.expired then .timeout else .cancelled)

/-- Ask the model, unless the deadline has passed or the run is cancelled. -/
def consult (token : Token) (deadline : Option Nat) (request : Model.Request) :
    Program interface Asked := do
  let now : Nat ← ask .time
  let awake : Awake ← ask (.wait (some now) (some token) deadline)
  if awake.expired then .done .timeout
  else if awake.cancelled then .done .cancelled
  else
    match ← ask (.askModel request) with
    | .error f => .done (.of (.error f))
    | .ok stream => listen token deadline {} stream

/-! ## Calls -/

/-- What a run is about. -/
structure Mission where
  setup : Setup
  identity : Identity
  session : SessionKey
  token : Token
  deadline : Nat

namespace Mission

/-- The announcement of a call. -/
def notice (m : Mission) (c : Model.ToolCall) : CallNotice :=
  ⟨m.identity, m.session, c.id, c.name, Tool.Summary.call c.name c.arguments⟩

/-- Run the tool that a call names; a call that reaches no tool comes to an error. -/
def invoke (m : Mission) (c : Model.ToolCall) : Program interface Attended :=
  match m.setup.tools.reach c.name c.arguments with
  | .error e => .done ⟨.error e.message, false⟩
  | .ok t => attend t c.arguments ⟨m.identity, m.session, true⟩ m.token (some m.deadline)

/-- Announce, record and run a call, and record and announce its result.  Says why the run has to
stop, if it has to. -/
def dispatch (m : Mission) (c : Model.ToolCall) : Part (Option Ending) := do
  inquire (.emit (.call (m.notice c)))
  record m.session (.toolCall c.id c.name c.arguments)
  let attended ← ExceptT.lift (m.invoke c)
  inquire .pass
  let status := attended.result.status
  let output := Tool.clipOutput m.setup.config.maxToolResultChars attended.result.content
  record m.session (.toolResult c.id c.name output status)
  inquire (.emit (.result c.id c.name status))
  if attended.timedOut then return some .timeout
  let cancelled : Bool ← inquire (.isCancelled m.token)
  return if cancelled then some .cancelled else none

/-- Run calls one after the other, up to one that stops the run. -/
def dispatchAll (m : Mission) : List Model.ToolCall → Part (Option Ending)
  | [] => return none
  | c :: rest => do
    match ← m.dispatch c with
    | some ending => return some ending
    | none => m.dispatchAll rest

/-! ## Ends -/

/-- The outcome of the run. -/
def outcome (m : Mission) (ending : Ending) (iterations : Nat) : Outcome :=
  { session := m.session, ending, iterations }

/-- Close a run that was interrupted. -/
def interrupt (m : Mission) (ending : Ending) (iterations : Nat) : Part Outcome := do
  record m.session (.assistant ("[turn interrupted: " ++ ending.name ++ "]"))
  return m.outcome ending iterations

/-- Close a run with a reply. -/
def conclude (m : Mission) (ending : Ending) (iterations : Nat) (reply : String) :
    Part Outcome := do
  record m.session (.assistant reply)
  inquire (.emit (.reply reply))
  return { m.outcome ending iterations with reply := some reply }

/-- Close a run whose model failed. -/
def giveUp (m : Mission) (iterations : Nat) (f : Model.Failure) : Part Outcome := do
  let e := (f.toError m.setup.provider).message
  inquire (.emit (.error e))
  return { m.outcome .fatalError iterations with error := some e }

/-- The reply of a run that reached the limit of rounds. -/
def limitNotice (limit : Nat) : Option String → String
  | some said =>
    said ++ "\n\n[stopped: limit of " ++ toString limit ++ " tool iterations reached]"
  | none => "Reached the limit of " ++ toString limit ++ " tool iterations before finishing."

/-! ## Rounds -/

/-- The request that a transcript makes. -/
def request (m : Mission) (transcript : List Turn) : Model.Request :=
  let config := m.setup.config
  let tools := m.setup.tools.definitions
  { model := config.model
    messages := Context.build config.contextTokens m.setup.instructions tools transcript
    tools := some tools
    maxTokens := some config.maxTokens }

/-- The session as it is now. -/
def remembered (m : Mission) : Part Session := do
  match ← inquire (.store (.get m.session)) with
  | some (session, _) => return session
  | none => throw (.sessionNotFound m.session.text)

/-- What the model said before its calls, recorded if it is not blank. -/
def remark (m : Mission) (text : String) (before : Option String) : Part (Option String) := do
  if text.isAllBlank then return before
  record m.session (.assistant text)
  return some text

/-- Go in rounds: `left + 1` of them may still be made, `made` are done, and `said` is what the
model last said on the way. -/
def rounds (m : Mission) (left made : Nat) (said : Option String) : Part Outcome := do
  let cancelled : Bool ← inquire (.isCancelled m.token)
  if cancelled then return ← m.interrupt .cancelled made
  let session ← m.remembered
  match ← ExceptT.lift (consult m.token (some m.deadline) (m.request session.transcript)) with
  | .timeout => m.interrupt .timeout made
  | .cancelled => m.interrupt .cancelled made
  | .failed f => m.giveUp made f
  | .reply r =>
    if r.isFinal then m.conclude .finalAnswer made r.text
    else
      let said ← m.remark r.text said
      match ← m.dispatchAll r.calls with
      | some ending => m.interrupt ending made
      | none =>
        match left with
        | 0 =>
          m.conclude .iterationLimit (made + 1)
            (limitNotice m.setup.config.maxIterations said)
        | left + 1 => m.rounds left (made + 1) said

/-- Record the message and go in rounds. -/
def answer (m : Mission) (text : String) : Part Outcome := do
  record m.session (.user text)
  m.rounds (m.setup.config.maxIterations - 1) 0 none

end Mission

/-! ## The run -/

/-- A run that has its lock. -/
def runLocked (setup : Setup) (i : Identity) (text : String) (token : Token) :
    Program interface (Except Error Outcome) := do
  match ← ask (.store (.resolve i)) with
  | .error e => .done (.error e)
  | .ok key =>
    let start : Nat ← ask .time
    let m : Mission := ⟨setup, i, key, token, start + setup.config.timeoutMs⟩
    match ← (m.answer text).run with
    | .ok outcome =>
      ask (.emit (.ended outcome.ending))
      .done (.ok outcome)
    | .error e =>
      ask (.emit (.error e.message))
      ask (.emit (.ended .fatalError))
      .done (.error e)

/-- Run a message of an identity through the session that it talks to. -/
def run (setup : Setup) (i : Identity) (text : String) (token : Token) :
    Program interface (Except Error Outcome) := do
  let lock : Nat ← ask (.fetchLock i)
  ask (.takeLock lock)
  let result ← runLocked setup i text token
  ask (.freeLock lock)
  ask (.dropLock lock)
  ask (.sweepLock i)
  .done result

end Parley.Agent
