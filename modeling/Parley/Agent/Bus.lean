import Parley.Agent.Run

/-!
# The bus

The bus takes a message in and brings what its run has to say to the channels, item by item as it
comes up.  A channel that is missing or fails costs its item and nothing else; items are counted.

What a run emits goes nowhere by itself: `collecting` keeps it, `delivering` delivers it, and a run
that is left as it is has nobody listening.
-/

namespace Parley.Agent

/-- What handling a message came to. -/
structure Dispatched where
  outcome : Outcome
  delivered : Nat
  failed : Nat
  deriving DecidableEq

/-- Keep what a program emits, after what was emitted before. -/
def collecting {α : Type} (before : List Event) :
    Program interface α → Program interface (α × List Event)
  | .done a => .done (a, before)
  | .ask (.emit e) next => collecting (before ++ [e]) (next ())
  | .ask r next => .ask r fun answer => collecting before (next answer)

/-- Deliver what a program emits, counting what arrived and what did not. -/
def delivering {α : Type} (i : Identity) (delivered failed : Nat) :
    Program interface α → Program interface (α × Nat × Nat)
  | .done a => .done (a, delivered, failed)
  | .ask (.emit e) next =>
    match e.toOutbound? i with
    | none => delivering i delivered failed (next ())
    | some o =>
      .ask (.deliver o) fun result =>
        match result with
        | .ok _ => delivering i (delivered + 1) failed (next ())
        | .error _ => delivering i delivered (failed + 1) (next ())
  | .ask r next => .ask r fun answer => delivering i delivered failed (next answer)

/-- Handle a message: run it, and deliver all that the run has to say. -/
def handle (setup : Setup) (m : Inbound) : Program interface (Except Error Dispatched) := do
  let token : Token ← ask (.track m.identity)
  let (result, delivered, failed) ←
    delivering m.identity 0 0 (run setup m.identity m.prompt token)
  ask (.untrack m.identity token)
  ask (.sweepTracked m.identity)
  .done (result.map fun outcome => ⟨outcome, delivered, failed⟩)

/-- Handle a message that a client sent, and announce its end to the chat. -/
def handleAndAnnounce (setup : Setup) (m : Inbound) : Program interface Unit := do
  let event := match ← handle setup m with
    | .ok d =>
      Gateway.Event.chatDone m.identity.chat d.outcome.session.text d.outcome.ending.name
    | .error e => Gateway.Event.chatError m.identity.chat e.message
  ask (.announce event)

end Parley.Agent
