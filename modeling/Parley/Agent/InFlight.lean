import Parley.Identity
import Parley.Table

/-!
# Runs in flight

The bus keeps, for each identity, the tokens by which its runs can be cancelled.  A run is tracked
when it starts and untracked when it ends, in two steps: its token goes, and then the identity's
entry if it is empty.  Aborting an identity takes its whole entry and cancels every token in it.

Tokens are counted without a bound.  A counter of 64 bits gives out the same ones, for the 2 ^ 64
runs that would bring it round to its first token again are out of reach.
-/

namespace Parley.Agent

/-- What a run can be cancelled by; a number that is given out once. -/
abbrev Token := Nat

/-- The tokens of the runs in flight. -/
structure InFlight where
  running : Table Identity (List Token) := .empty
  /-- The token to be given out next. -/
  next : Token := 1

namespace InFlight

/-- A token that was never given out before. -/
def fresh (f : InFlight) : Token × InFlight := (f.next, { f with next := f.next + 1 })

/-- Track a run of an identity under a new token. -/
def track (f : InFlight) (i : Identity) : Token × InFlight :=
  (f.next,
    { running := f.running.set i ((f.running.get? i).getD [] ++ [f.next]), next := f.next + 1 })

/-- Drop the token of a run. -/
def untrack (f : InFlight) (i : Identity) (t : Token) : InFlight :=
  match f.running.get? i with
  | some tokens => { f with running := f.running.set i (tokens.filter (· ≠ t)) }
  | none => f

/-- Remove the entry of an identity if it is empty. -/
def sweep (f : InFlight) (i : Identity) : InFlight :=
  match f.running.get? i with
  | some [] => { f with running := f.running.erase i }
  | _ => f

/-- Take the tokens of an identity, to be cancelled. -/
def abort (f : InFlight) (i : Identity) : List Token × InFlight :=
  ((f.running.get? i).getD [], { f with running := f.running.erase i })

/-- Whether runs of an identity are tracked. -/
def isRunning (f : InFlight) (i : Identity) : Bool := f.running.contains i

end InFlight

end Parley.Agent
