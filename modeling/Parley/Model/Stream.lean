import Parley.Model.Reply

/-!
# Answers in time

An answer arrives over time: between its items there are waits, and it may fall silent for good.
A `Stream` says what an answer will do, beat by beat; who reads it decides how long to listen.
-/

namespace Parley.Model

/-- What a stream does next. -/
inductive Beat where
  | wait (ms : Nat)
  | item (item : Item)
  /-- Nothing more, and no end either. -/
  | silence

/-- An answer in time; it ends where the list ends. -/
abbrev Stream := List Beat

namespace Stream

/-- A stream that delivers its items at once. -/
def ofItems (items : List Item) : Stream := items.map .item

/-- The items of a stream, up to where it falls silent. -/
def items : Stream → List Item
  | [] => []
  | .wait _ :: rest => items rest
  | .item i :: rest => i :: items rest
  | .silence :: _ => []

end Stream

end Parley.Model
