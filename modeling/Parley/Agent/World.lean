import Parley.Agent.Bus
import Parley.Agent.RunLock

/-!
# The surroundings of runs

`World` is everything that runs ask for: the clock, the store, the model, the directory of
attachments, the locks, the runs in flight and the channels.  `answer?` answers a request, unless
what it waits for is not yet the case.

Time passes only when nothing else can be done, and then up to the next thing somebody waits
for (`wakeTimes`); the clock does not follow it.
-/

namespace Parley.Agent

/-- Where a channel brings what it is to deliver. -/
inductive Channel where
  /-- Keep it. -/
  | recorder
  /-- Refuse it. -/
  | failing
  /-- Announce it to the clients of the gateway. -/
  | gateway
  deriving DecidableEq, Repr

/-- The directory that attachments are saved in; it is made when the first is. -/
structure Attachments where
  path : String
  directory : Option Directory := none
  /-- Whether something else is in its place. -/
  isBlocked : Bool := false

/-- Save an attachment. -/
def Attachments.save (a : Attachments) (name : String) (content : List UInt8) :
    Except FileError String × Attachments :=
  if a.isBlocked then (.error .exists, a)
  else
    let d := a.directory.getD {}
    match d.create name ⟨content.toArray⟩ with
    | .error e => (.error e, { a with directory := some d })
    | .ok d => (.ok (Path.join a.path name), { a with directory := some d })

/-- The surroundings of runs. -/
structure World where
  /-- What the clock shows. -/
  clock : Timestamp
  /-- The milliseconds that have passed. -/
  time : Nat := 0
  store : Store := {}
  provider : Model.Provider := .script ⟨[], none, []⟩
  attachments : Attachments := ⟨"", none, false⟩
  /-- The marks that tools left. -/
  marks : List Nat := []
  locks : RunLocks := {}
  inFlight : InFlight := {}
  /-- The tokens that are cancelled. -/
  cancelled : List Token := []
  channels : Table String Channel := .empty
  /-- What recording channels were given. -/
  seen : List (String × Outbound) := []
  /-- Whether clients of the gateway are listening. -/
  isHeard : Bool := false
  /-- What was announced to them. -/
  announced : List Gateway.Event := []

namespace World

/-- Announce an event to the clients of the gateway; nobody may be listening. -/
def announce (w : World) (e : Gateway.Event) : Bool × World :=
  if w.isHeard then (true, { w with announced := w.announced ++ [e] }) else (false, w)

/-- Deliver an item over the channel of its identity. -/
def deliver (w : World) (o : Outbound) : Except Error Unit × World :=
  let name := o.identity.channel
  match w.channels.get? name with
  | none => (.error (.channelNotFound name), w)
  | some .recorder => (.ok (), { w with seen := w.seen ++ [(name, o)] })
  | some .failing => (.error (.deliveryFailed (name ++ " is down")), w)
  | some .gateway =>
    match w.announce (.ofOutbound o) with
    | (true, w) => (.ok (), w)
    | (false, w) => (.error (.deliveryFailed "no websocket clients connected"), w)

/-- Put a request to the store. -/
def askStore (w : World) (r : StoreRequest) : r.Answer × World :=
  let (answer, store) := w.store.answer w.clock r
  (answer, { w with store })

/-- Answer a handler. -/
def answerTool (w : World) : (r : Tool.Request) → r.Answer × World
  | .createSession i new => w.askStore (.create i new)
  | .switchSession i name => w.askStore (.switch i name)
  | .listSessions i => w.askStore (.list i)
  | .currentSession i => w.askStore (.current i)
  | .resetSession i => w.askStore (.reset i)
  | .send _ => (false, w)
  | .save name content =>
    let (answer, attachments) := w.attachments.save name content
    (answer, { w with attachments })
  | .clock => (w.clock, w)
  | .rest _ => ((), w)
  | .mark label => ((), { w with marks := w.marks ++ [label] })

/-- What is the case of the three things that a wait names. -/
def awake (w : World) (due : Option Nat) (token : Option Token) (deadline : Option Nat) : Awake :=
  ⟨due.any (· ≤ w.time), token.any w.cancelled.contains, deadline.any (· ≤ w.time)⟩

/-- Answer a request, unless it has to wait. -/
def answer? (w : World) : (r : Request) → Option (r.Answer × World)
  | .tool r => some (w.answerTool r)
  | .store r => some (w.askStore r)
  | .time => some (w.time, w)
  | .wait due token deadline =>
    let a := w.awake due token deadline
    if a.due || a.cancelled || a.expired then some (a, w) else none
  | .isCancelled t => some (w.cancelled.contains t, w)
  | .cancel t => some ((), { w with cancelled := t :: w.cancelled })
  | .pass => some ((), w)
  | .fetchLock i =>
    let (lock, locks) := w.locks.fetch i
    some (lock, { w with locks })
  | .takeLock lock => (w.locks.take? lock).map fun locks => ((), { w with locks })
  | .freeLock lock => some ((), { w with locks := w.locks.free lock })
  | .dropLock lock => some ((), { w with locks := w.locks.drop lock })
  | .sweepLock i => some ((), { w with locks := w.locks.sweep i })
  | .askModel r =>
    let (answer, provider) := w.provider.ask r
    some (answer, { w with provider })
  | .emit _ => some ((), w)
  | .deliver o => some (w.deliver o)
  | .announce e => some ((), (w.announce e).2)
  | .channels => some (w.channels.keys.mergeSort fun a b => a ≤ b, w)
  | .track i =>
    let (t, inFlight) := w.inFlight.track i
    some (t, { w with inFlight })
  | .untrack i t => some ((), { w with inFlight := w.inFlight.untrack i t })
  | .sweepTracked i => some ((), { w with inFlight := w.inFlight.sweep i })
  | .abort i =>
    let (tokens, inFlight) := w.inFlight.abort i
    some (tokens.length, { w with inFlight, cancelled := tokens ++ w.cancelled })

/-- The times at which a request that waits has to be answered. -/
def wakeTimes : Request → List Nat
  | .wait due _ deadline => due.toList ++ deadline.toList
  | _ => []

end World

end Parley.Agent
