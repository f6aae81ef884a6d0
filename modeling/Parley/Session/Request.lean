import Parley.Program
import Parley.Session.Store

/-!
# What may be asked of the store

Everything that the rest of the program does with sessions is one of these requests, so a
history of the store is a list of them.  `Store.answer` says what each does at a given instant.
-/

namespace Parley

/-- A request to the store. -/
inductive StoreRequest where
  | create (i : Identity) (new : NewSession)
  | switch (i : Identity) (name : String)
  | reset (i : Identity)
  /-- The key of the session that an identity talks to. -/
  | resolve (i : Identity)
  | current (i : Identity)
  | list (i : Identity)
  | get (key : SessionKey)
  | transcript (key : SessionKey)
  | append (key : SessionKey) (t : Turn)
  | clear (key : SessionKey)
  | delete (i : Identity) (name : String)
  | size

/-- What a request is answered with. -/
def StoreRequest.Answer : StoreRequest → Type
  | create .. | switch .. => Except Error Summary
  | reset _ | append .. | clear _ => Except Error Unit
  | resolve _ | delete .. => Except Error SessionKey
  | current _ => Option Summary
  | list _ => List Summary
  | get _ => Option (Session × Bool)
  | transcript _ => Except Error (List Turn)
  | size => Nat

namespace Store

/-- The store as it is asked. -/
def interface : Interface := ⟨StoreRequest, StoreRequest.Answer⟩

/-- The answer to a request, and the store after it. -/
def answer (now : Timestamp) : (r : StoreRequest) → Store → r.Answer × Store
  | .create i new, s => s.create i new now
  | .switch i name, s => s.switch i name
  | .reset i, s => s.reset i
  | .resolve i, s => s.resolve i now
  | .current i, s => (s.current i, s)
  | .list i, s => (s.list i, s)
  | .get key, s => (s.get? key, s)
  | .transcript key, s => (s.transcript key, s)
  | .append key t, s => s.append key t now
  | .clear key, s => s.clear key now
  | .delete i name, s => s.delete i name
  | .size, s => (s.size, s)

/-- What a program makes of the store at an instant. -/
def perform {α : Type} (now : Timestamp) (p : Program interface α) (s : Store) : α × Store :=
  p.run (answer now) s

end Store

/-- Ask the store. -/
def askStore (r : StoreRequest) : Program Store.interface r.Answer :=
  Program.request Store.interface r

/-- The session that an identity talks to. -/
def resolveSession (i : Identity) :
    Program Store.interface (Except Error (Session × Bool)) := do
  match ← askStore (.resolve i) with
  | .error e => .done (.error e)
  | .ok key =>
    match ← askStore (.get key) with
    | some session => .done (.ok session)
    | none => .done (.error (.sessionNotFound key.text))

end Parley
