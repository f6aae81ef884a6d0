import Parley.Agent.Event
import Parley.Agent.InFlight
import Parley.Gateway.Wire
import Parley.Model.Provider
import Parley.Session.Request
import Parley.Tool.Basic

/-!
# What a run may ask for

A run is a program, and asks its surroundings for everything that is not its own: the store, the
model, the clock, the locks, the delivery of what it has to say.  Time for waiting is counted in
milliseconds and has nothing to do with the clock.

`Request.wait` is the only request by which a run waits for something to happen.  It is answered
as soon as one of the three things that it names is the case, and the answer says which of them
are, so the order in which they count is for the program to decide.
-/

namespace Parley.Agent

/-- What is the case when a wait is over. -/
structure Awake where
  /-- The time has come. -/
  due : Bool
  cancelled : Bool
  /-- The deadline has passed. -/
  expired : Bool
  deriving DecidableEq, Repr

/-- What a run may ask for. -/
inductive Request where
  | tool (r : Tool.Request)
  | store (r : StoreRequest)
  /-- The milliseconds that have passed. -/
  | time
  /-- Wait for a time, for a cancellation or for a deadline. -/
  | wait (due : Option Nat) (token : Option Token) (deadline : Option Nat)
  | isCancelled (t : Token)
  | cancel (t : Token)
  /-- Let others go first. -/
  | pass
  | fetchLock (i : Identity)
  /-- Take a lock, waiting until it is free. -/
  | takeLock (lock : Nat)
  | freeLock (lock : Nat)
  | dropLock (lock : Nat)
  | sweepLock (i : Identity)
  | askModel (r : Model.Request)
  | emit (e : Event)
  | deliver (o : Outbound)
  | announce (e : Gateway.Event)
  /-- The names of the channels, in order. -/
  | channels
  | track (i : Identity)
  | untrack (i : Identity) (t : Token)
  | sweepTracked (i : Identity)
  /-- Cancel all runs of an identity; the answer is how many. -/
  | abort (i : Identity)

/-- What a run is answered with. -/
def Request.Answer : Request → Type
  | tool r => r.Answer
  | store r => r.Answer
  | time | fetchLock _ | abort _ => Nat
  | track _ => Token
  | wait .. => Awake
  | isCancelled _ => Bool
  | askModel _ => Except Model.Failure Model.Stream
  | deliver _ => Except Error Unit
  | channels => List String
  | cancel _ | pass | takeLock _ | freeLock _ | dropLock _ | sweepLock _ | emit _ | announce _
  | untrack .. | sweepTracked _ => Unit

/-- The surroundings of a run. -/
def interface : Interface := ⟨Request, Request.Answer⟩

/-- Ask the surroundings. -/
def ask (r : Request) : Program interface r.Answer := Program.request interface r

/-- Put to the store what a program asks it. -/
def withStore {α : Type} (p : Program Store.interface α) : Program interface α :=
  p.through fun r => ask (.store r)

end Parley.Agent
