import Parley.Identity
import Parley.Json.Decode

/-!
# How a run ends

A run answers one message of a user.  It ends in one of five ways, and leaves an `Outcome`: the
session it wrote to, how it ended, how many rounds of tool calls it finished, and the reply or
the error, if it came to one.
-/

namespace Parley

/-- The way a run ended. -/
inductive Ending where
  | finalAnswer
  | iterationLimit
  | timeout
  | fatalError
  | cancelled
  deriving DecidableEq, Repr

namespace Ending

/-- The name of an ending. -/
def name : Ending → String
  | finalAnswer => "final-answer"
  | iterationLimit => "iteration-limit"
  | timeout => "timeout"
  | fatalError => "fatal-error"
  | cancelled => "cancelled"

/-- All endings under their names. -/
def names : List (String × Ending) :=
  [finalAnswer, iterationLimit, timeout, fatalError, cancelled].map fun e => (e.name, e)

/-- A reader of endings. -/
def decoder : Json.Decoder Ending := .oneOf names

end Ending

/-- What a run leaves. -/
structure Outcome where
  session : SessionKey
  ending : Ending
  /-- The rounds of tool calls that were finished. -/
  iterations : Nat
  reply : Option String := none
  error : Option String := none
  deriving DecidableEq

end Parley
