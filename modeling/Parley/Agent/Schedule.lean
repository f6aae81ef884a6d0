import Parley.Agent.World

/-!
# Many runs at once

A `Scene` is a world with the programs that are under way in it.  One of them is in front: it is
what the scene is played for.  Programs take turns in this way.

1. A program goes on until it has to wait, or lets others go first.
2. Then the others have their turn, the one that has been waiting longest first, and the one in
   front last.
3. When nothing can go on, time passes up to the next moment somebody waits for.  At that moment
   the one in front has the first turn.

Every turn answers one request of one program, and no program can be answered without end
(`Program.after_wf`), so every scene comes to rest: `Later` is well-founded, and `play` needs no
bound.
-/

namespace Parley.Agent

variable {ρ : Type}

/-! ## Turns -/

/-- A list of programs of which one was answered. -/
inductive Later : List (Program interface ρ) → List (Program interface ρ) → Prop where
  | head {p q : Program interface ρ} (rest : List (Program interface ρ)) (h : q.After p) :
    Later (q :: rest) (p :: rest)
  | tail (p : Program interface ρ) {rest rest' : List (Program interface ρ)}
    (h : Later rest' rest) : Later (p :: rest') (p :: rest)

/-- Programs cannot take turns without end. -/
theorem later_wf : WellFounded (Later (ρ := ρ)) := by
  refine ⟨fun l => ?_⟩
  induction l with
  | nil => exact ⟨_, fun l h => by cases h⟩
  | cons p rest ih =>
    induction ih generalizing p with
    | intro rest _ ihRest =>
      refine Program.after_wf.induction p (C := fun p => Acc Later (p :: rest)) ?_
      intro p ihHead
      refine ⟨_, fun l h => ?_⟩
      cases h with
      | head _ h => exact ihHead _ h
      | tail _ h => exact ihRest _ h p

/-- Answering the program at a place is a turn. -/
theorem later_set {l : List (Program interface ρ)} {k : Nat} {p q : Program interface ρ}
    (hp : l[k]? = some p) (h : q.After p) : Later (l.set k q) l := by
  induction l generalizing k with
  | nil => simp at hp
  | cons first rest ih =>
    cases k with
    | zero =>
      obtain rfl : first = p := by simpa using hp
      exact .head _ h
    | succ k => exact .tail _ (ih (by simpa using hp))

/-- A program after the answer to its request, and the world after that; says too whether the
program lets others go first. -/
structure Advance (p : Program interface ρ) where
  program : Program interface ρ
  world : World
  passes : Bool
  isAfter : program.After p

/-- Whether a request lets others go first. -/
def Request.isPass : Request → Bool
  | .pass => true
  | _ => false

/-- Answer the request of a program, if it can be answered. -/
def advance? (w : World) : (p : Program interface ρ) → Option (Advance p)
  | .done _ => none
  | .ask r next =>
    (w.answer? r).map fun (answer, w) => ⟨next answer, w, r.isPass, .answer r next answer⟩

/-! ## Scenes -/

/-- A world and the programs in it, the one in front at place zero. -/
structure Scene (ρ : Type) where
  world : World
  programs : List (Program interface ρ)
  /-- The places of the other programs, the one that has waited longest first. -/
  waiting : List Nat := []
  /-- The place of the program whose turn it is. -/
  turn : Option Nat := none

namespace Scene

/-- A world in which nothing is under way. -/
def quiet [Inhabited ρ] (w : World) : Scene ρ := { world := w, programs := [.done default] }

/-- Start one more program. -/
def start (s : Scene ρ) (p : Program interface ρ) : Scene ρ :=
  { s with programs := s.programs ++ [p], waiting := s.waiting ++ [s.programs.length] }

/-- A scene in which the program at a place had a turn. -/
def took (s : Scene ρ) (k : Nat) {p : Program interface ρ} (a : Advance p) : Scene ρ :=
  { world := a.world
    programs := s.programs.set k a.program
    waiting := if k = 0 then s.waiting else s.waiting.erase k ++ [k]
    turn := if a.passes then none else some k }

/-- Give the program at a place a turn, if it can go on. -/
def turnOf? (s : Scene ρ) (k : Nat) : Option { s' : Scene ρ // Later s'.programs s.programs } :=
  match hp : s.programs[k]? with
  | none => none
  | some p => (advance? s.world p).map fun a => ⟨s.took k a, later_set hp a.isAfter⟩

/-- The next moment at which a request has to be answered. -/
def nextTime? (s : Scene ρ) : Option Nat :=
  let times := s.programs.flatMap fun p =>
    match p with
    | .ask r _ => World.wakeTimes r
    | .done _ => []
  (times.filter (s.world.time < ·)).min?

/-- The scene at a later moment. -/
def atTime (s : Scene ρ) (time : Nat) : Scene ρ :=
  { s with world := { s.world with time } }

/-- The next turn, if any program can still go on. -/
def next? (s : Scene ρ) : Option { s' : Scene ρ // Later s'.programs s.programs } :=
  match (s.turn.toList ++ s.waiting ++ [0]).findSome? s.turnOf? with
  | some s' => some s'
  | none =>
    match s.nextTime? with
    | none => none
    | some time => (0 :: s.waiting).findSome? (s.atTime time).turnOf?

/-- What the program in front came to. -/
def result? (s : Scene ρ) : Option ρ :=
  match s.programs with
  | .done a :: _ => some a
  | _ => none

/-- Play a scene until the program in front is done, or nothing can go on. -/
def settle (s : Scene ρ) : Scene ρ :=
  match s.result? with
  | some _ => s
  | none =>
    match s.next? with
    | none => s
    | some ⟨s', _⟩ => settle s'
  termination_by later_wf.wrap s.programs
  decreasing_by assumption

/-- Play a program in front. -/
def play (s : Scene ρ) (p : Program interface ρ) : Option ρ × Scene ρ :=
  let s := settle { s with programs := s.programs.set 0 p, turn := some 0 }
  (s.result?, s)

/-- Let time pass. -/
def pass [Inhabited ρ] (s : Scene ρ) (ms : Nat) : Scene ρ :=
  (s.play do
    let now : Nat ← ask .time
    let _ ← ask (.wait (some (now + ms)) none none)
    .done default).2

/-- What the program at a place came to, if it is done. -/
def resultAt? (s : Scene ρ) (k : Nat) : Option ρ :=
  match s.programs[k]? with
  | some (.done a) => some a
  | _ => none

end Scene

end Parley.Agent
