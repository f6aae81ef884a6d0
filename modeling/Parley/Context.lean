import Parley.Model.Request
import Parley.Turn

/-!
# What of a conversation the model is shown

A request starts with the instructions and the list of tools, and goes on with the transcript.
When the transcript does not fit into what is left of the budget, turns at its beginning are left
out.

1. **The window.**  Turns are left out one by one until the rest fits, and further until a turn of
   the user is reached, so that no result of a tool is shown without its call.  The latest turn of
   the user and all that follow are kept even when they do not fit.
2. **The messages.**  Each turn makes one message, which is folded onto the message before it when
   both are of one role.
-/

namespace Parley.Context

open Model

/-! ## Turns as messages -/

/-- The message that a turn makes: calls are the model's own words, results go back as input. -/
def message (t : Turn) : Message :=
  match t.content with
  | .text text => if t.role = .user then .user text else .assistant text
  | .toolCall callId name arguments => ⟨"assistant", .blocks [.toolUse callId name arguments]⟩
  | .toolResult callId _ output status =>
    ⟨"user", .blocks [.toolResult callId output (if status = .ok then none else some true)]⟩

/-- The estimated tokens of a turn. -/
def cost (t : Turn) : Nat := (message t).tokens

/-- The estimated tokens of some turns. -/
def total (turns : List Turn) : Nat := (turns.map cost).foldr (· + ·) 0

/-- Whether a turn is the user's. -/
def isUser (t : Turn) : Bool := t.role = .user

/-! ## The window -/

/-- Where the user's last turn is. -/
def lastUser? : List Turn → Option Nat
  | [] => none
  | t :: rest =>
    match lastUser? rest with
    | some last => some (last + 1)
    | none => if isUser t then some 0 else none

/-- A transcript in the course of being cut: `start` turns are left out, and the rest costs
`left`. -/
structure Cut where
  start : Nat
  left : Nat

namespace Cut

/-- One more turn left out, when the rest does not fit and the user's last turn is not reached. -/
def next? (budget last : Nat) (transcript : List Turn) (c : Cut) : Option Cut :=
  if budget < c.left ∧ c.start < last then
    transcript[c.start]?.map fun t => ⟨c.start + 1, c.left - cost t⟩
  else none

theorem next?_eq_some {budget last : Nat} {transcript : List Turn} {c d : Cut}
    (h : c.next? budget last transcript = some d) :
    budget < c.left ∧ c.start < last ∧
      ∃ t, transcript[c.start]? = some t ∧ d = ⟨c.start + 1, c.left - cost t⟩ := by
  rw [next?] at h
  split at h
  · rename_i hmore
    obtain ⟨t, ht, hd⟩ := Option.map_eq_some_iff.1 h
    exact ⟨hmore.1, hmore.2, t, ht, hd.symm⟩
  · cases h

/-- Turns left out one by one, as long as that is called for. -/
def shed (budget last : Nat) (transcript : List Turn) (c : Cut) : Cut :=
  match _h : c.next? budget last transcript with
  | some d => d.shed budget last transcript
  | none => c
termination_by last - c.start
decreasing_by
  obtain ⟨-, hlast, t, -, rfl⟩ := next?_eq_some _h
  exact Nat.sub_succ_lt_self _ _ hlast

end Cut

/-- How many turns are left out: those that have to go, and then all up to a turn of the user. -/
def windowStart (budget : Nat) (transcript : List Turn) : Nat :=
  match lastUser? transcript with
  | none => 0
  | some last =>
    if total transcript ≤ budget then 0
    else
      let cut := Cut.shed budget last transcript ⟨0, total transcript⟩
      cut.start + ((transcript.take last).drop cut.start).findIdx isUser

/-- The turns that are shown. -/
def window (budget : Nat) (transcript : List Turn) : List Turn :=
  transcript.drop (windowStart budget transcript)

/-! ## The messages -/

/-- Two messages of one role as one. -/
def fold (m n : Message) : Message :=
  ⟨m.role, .blocks (m.content.toBlocks ++ n.content.toBlocks)⟩

/-- Messages with one more at the end, folded onto the last if that is of its role. -/
def join (messages : List Message) (m : Message) : List Message :=
  match messages.getLast? with
  | some last =>
    if last.role = m.role ∧ last.role ≠ "system" then messages.dropLast ++ [fold last m]
    else messages ++ [m]
  | none => [m]

/-- The list of tools, as the model reads it. -/
def toolList (tools : List ToolDefinition) : String :=
  tools.foldl (fun text t => text ++ "\n- " ++ t.name ++ ": " ++ t.description) "Available tools:"

/-- What precedes the transcript. -/
def preamble (system : Option String) (tools : List ToolDefinition) : List Message :=
  ((system.filter (!·.isAllBlank)).map .system).toList ++
    if tools.isEmpty then [] else [.system (toolList tools)]

/-- What is left of the budget for the transcript. -/
def allowance (maxTokens : Nat) (system : Option String) (tools : List ToolDefinition) : Nat :=
  maxTokens - ((preamble system tools).map Message.tokens).foldr (· + ·) 0

/-- The messages that the model is shown. -/
def build (maxTokens : Nat) (system : Option String) (tools : List ToolDefinition)
    (transcript : List Turn) : List Message :=
  ((window (allowance maxTokens system tools) transcript).map message).foldl join
    (preamble system tools)

end Parley.Context
