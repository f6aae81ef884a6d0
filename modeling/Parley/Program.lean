/-!
# Programs that ask

What a tool or an agent does is written as a program that asks its surroundings and goes on with
the answer.  An `Interface` says what may be asked and what kind of answer each question has; a
`Program` over it is a tree: it is done, or it asks and has a way on for every answer.  It never
answers itself, so one program can be run against a store, against a schedule of many programs,
or against any surroundings a theorem cares to name.

A program is finite along each of its branches: whatever is answered, it comes to an end.
`After` is one step along a branch, and is well-founded.
-/

namespace Parley

/-- What may be asked, and the answers. -/
structure Interface where
  Request : Type
  Answer : Request → Type

/-- A computation that may ask before it is done. -/
inductive Program (I : Interface) (α : Type) where
  | done (a : α)
  | ask (r : I.Request) (next : I.Answer r → Program I α)

namespace Program

variable {I J : Interface} {α β σ : Type}

/-- One program, and then another that depends on what the first came to. -/
def bind : Program I α → (α → Program I β) → Program I β
  | done a, f => f a
  | ask r next, f => ask r fun a => (next a).bind f

instance : Monad (Program I) where
  pure := done
  bind := bind

/-- The program that asks once. -/
def request (I : Interface) (r : I.Request) : Program I (I.Answer r) := ask r done

@[simp] theorem done_bind (a : α) (f : α → Program I β) : (done a : Program I α) >>= f = f a := rfl

@[simp] theorem pure_eq (a : α) : (pure a : Program I α) = done a := rfl

@[simp] theorem ask_bind (r : I.Request) (next : I.Answer r → Program I α)
    (f : α → Program I β) : ask r next >>= f = ask r fun a => next a >>= f := rfl

theorem bind_done (p : Program I α) : p >>= done = p := by
  induction p with
  | done a => rfl
  | ask r next ih => simp only [ask_bind, ih]

theorem bind_bind {γ : Type} (p : Program I α) (f : α → Program I β) (g : β → Program I γ) :
    p >>= f >>= g = p >>= fun a => f a >>= g := by
  induction p with
  | done a => rfl
  | ask r next ih => simp only [ask_bind, ih]

/-! ## Running -/

/-- Run a program against surroundings that answer every question at once. -/
def run (answer : (r : I.Request) → σ → I.Answer r × σ) : Program I α → σ → α × σ
  | done a, s => (a, s)
  | ask r next, s =>
    let (a, s) := answer r s
    (next a).run answer s

/-- The same program over another interface, each question put as one program there. -/
def through (put : (r : I.Request) → Program J (I.Answer r)) : Program I α → Program J α
  | done a => done a
  | ask r next => put r >>= fun a => (next a).through put

/-! ## Steps -/

/-- The program that an answer leads to. -/
inductive After : Program I α → Program I α → Prop where
  | answer (r : I.Request) (next : I.Answer r → Program I α) (a : I.Answer r) :
    After (next a) (ask r next)

/-- No program can be answered without end. -/
theorem after_wf : WellFounded (After (I := I) (α := α)) := by
  refine ⟨fun p => ?_⟩
  induction p with
  | done a => exact ⟨_, fun q h => by cases h⟩
  | ask r next ih => exact ⟨_, fun q h => by cases h with | answer _ _ a => exact ih a⟩

end Program

end Parley
