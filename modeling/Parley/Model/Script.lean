import Parley.Model.Request
import Parley.Model.Stream

/-!
# A model that follows a script

For rehearsals and for work without a network there is a model whose answers are laid down in
advance.  Each request takes the next line of the script; when none is left, every request gets
the same text.  The script also keeps the requests it saw.

Calls are numbered: the call at place `i` of the answer to the `n`-th request has the id
`call_n_i`.
-/

namespace Parley.Model

/-- A line of a script. -/
inductive ScriptLine where
  /-- A final answer. -/
  | text (text : String)
  /-- Interim text, which may be empty, and calls of tools. -/
  | calls (text : String) (calls : List (String × Json))
  | fail (reason : String)
  /-- No answer at all. -/
  | stall

/-- A script, and what was played of it. -/
structure Script where
  lines : List ScriptLine
  /-- How long every answer is in coming. -/
  latency : Option Nat := none
  /-- The requests so far. -/
  requests : List Request := []

namespace Script

/-- The answer once the script has ended. -/
def afterword : String := "(script exhausted)"

/-- A list in pieces of `n + 1` items; the last may be shorter. -/
def pieces {α : Type} (n : Nat) : List α → List (List α)
  | [] => []
  | a :: rest => (a :: rest.take n) :: pieces n (rest.drop n)
  termination_by s => s.length
  decreasing_by exact Nat.lt_succ_of_le (by rw [List.length_drop]; exact Nat.sub_le ..)

/-- The items of a final answer: its text, twenty characters at a time, and the end. -/
def textItems (text : String) : List Item :=
  (pieces 19 text.toList).map (fun piece => .ok (.text (String.ofList piece))) ++
    [.ok (.done (some "end_turn") none)]

/-- The items of one call. -/
def callItems (request place : Nat) (name : String) (arguments : Json) : List Item :=
  let id := "call_" ++ toString request ++ "_" ++ toString place
  [.ok (.callStart id name), .ok (.callArguments id arguments.compact), .ok (.callEnd id)]

/-- The items of the answer that a line lays down for the `request`-th request. -/
def lineItems (request : Nat) : ScriptLine → List Item
  | .text text => textItems text
  | .calls text calls =>
    (if text.isEmpty then [] else [.ok (.text text)]) ++
      (calls.zipIdx.flatMap fun (call, place) => callItems request place call.1 call.2) ++
      [.ok (.done (some "tool_use") none)]
  | .fail reason => [.error (.requestFailed reason)]
  | .stall => []

/-- The stream of the answer that a line lays down. -/
def lineStream (s : Script) (request : Nat) (line : ScriptLine) : Stream :=
  s.latency.toList.map .wait ++
    match line with
    | .stall => [.silence]
    | line => Stream.ofItems (lineItems request line)

/-- Ask the next line.  A line that fails does so before anything else, without delay. -/
def ask (s : Script) (request : Request) : Except Failure Stream × Script :=
  let seen := { s with lines := s.lines.tail, requests := s.requests ++ [request] }
  match s.lines.head?.getD (.text afterword) with
  | .fail reason => (.error (.requestFailed reason), seen)
  | line => (.ok (s.lineStream seen.requests.length line), seen)

/-- The script with one more line at its end. -/
def push (s : Script) (line : ScriptLine) : Script :=
  { s with lines := s.lines ++ [line] }

end Script

end Parley.Model
