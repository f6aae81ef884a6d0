import Parley.Program

/-!
# Courses of a program

A program is a tree of everything that may happen; a *course* is one way through it.  It is
written as the list of the requests that were made with the answers that were given, and
`Program.Leads p log q` says that `p` becomes `q` along it.  Answers are any values of the right
type, so a statement about all courses is a statement about all surroundings.

## What a bind does

A course through `p >>= f` is a course through `p` and then one through `f` of what `p` came to
(`leads_bind`), or has not left `p` yet.  In a program that an error ends, a course that comes to
a value has passed every part with a value (`leads_run_bind`).

## Contracts

Some surroundings keep a state and answer accordingly.  A `Contract` says which requests may be
made in a state and which answers and states may follow; `Program.Keeps` says that a program makes
only such requests, whatever follows, and comes to an end that satisfies a condition.  It is
defined along the tree, so it holds of what is left of a program after every step.
-/

namespace Parley

/-- A request and the answer to it. -/
structure Interface.Inquiry (I : Interface) where
  request : I.Request
  answer : I.Answer request

namespace Program

variable {I : Interface} {α β σ : Type}

/-- A program that was answered as the list says has become another. -/
inductive Leads : Program I α → List I.Inquiry → Program I α → Prop where
  | refl (p : Program I α) : Leads p [] p
  | step {r : I.Request} {next : I.Answer r → Program I α} {log : List I.Inquiry}
    {q : Program I α} (a : I.Answer r) (h : Leads (next a) log q) :
    Leads (ask r next) (⟨r, a⟩ :: log) q

/-- The value that a program has come to. -/
def value? {ε : Type} : Program I (Except ε α) → Option α
  | done (.ok a) => some a
  | _ => none

theorem eq_done_of_value {ε : Type} {p : Program I (Except ε α)} {a : α} (h : p.value? = some a) :
    p = done (.ok a) := by
  unfold value? at h
  split at h
  · rw [Option.some_inj.1 h]
  · cases h

/-- The error that a program has come to. -/
def error? {ε : Type} : Program I (Except ε α) → Option ε
  | done (.error e) => some e
  | _ => none

theorem eq_done_of_error {ε : Type} {p : Program I (Except ε α)} {e : ε} (h : p.error? = some e) :
    p = done (.error e) := by
  unfold error? at h
  split at h
  · rw [Option.some_inj.1 h]
  · cases h

/-- A program that is done has no further course. -/
theorem leads_done {a : α} {log : List I.Inquiry} {q : Program I α}
    (h : Leads (done a) log q) : log = [] ∧ q = done a := by
  cases h
  exact ⟨rfl, rfl⟩

/-- A program that asks and comes to an end was answered first. -/
theorem leads_ask {r : I.Request} {next : I.Answer r → Program I α} {log : List I.Inquiry}
    {b : α} (h : Leads (ask r next) log (done b)) :
    ∃ a rest, log = ⟨r, a⟩ :: rest ∧ Leads (next a) rest (done b) := by
  cases h with
  | step a h => exact ⟨a, _, rfl, h⟩

/-- A single request comes to the answer to it. -/
theorem leads_request {r : I.Request} {log : List I.Inquiry} {a : I.Answer r}
    (h : Leads (request I r) log (done a)) : log = [⟨r, a⟩] := by
  obtain ⟨b, rest, rfl, hdone⟩ := leads_ask h
  obtain ⟨rfl, hab⟩ := leads_done hdone
  cases hab
  rfl

/-- **A course through two programs in sequence** is one through each. -/
theorem leads_bind {p : Program I α} {f : α → Program I β} {log : List I.Inquiry} {b : β}
    (h : Leads (p >>= f) log (done b)) :
    ∃ first second a, log = first ++ second ∧ Leads p first (done a) ∧
      Leads (f a) second (done b) := by
  induction p generalizing log with
  | done a => exact ⟨[], log, a, rfl, .refl _, h⟩
  | ask r next ih =>
    obtain ⟨a, rest, rfl, hrest⟩ := leads_ask h
    obtain ⟨first, second, c, rfl, hp, hf⟩ := ih a hrest
    exact ⟨⟨r, a⟩ :: first, second, c, rfl, .step a hp, hf⟩

/-- A course can be continued. -/
theorem Leads.trans {p q r : Program I α} {first second : List I.Inquiry}
    (h : Leads p first q) (h' : Leads q second r) : Leads p (first ++ second) r := by
  induction h with
  | refl p => exact h'
  | step a _ ih => exact .step a (ih h')

/-- After a course of the first of two programs in sequence comes one of the second. -/
theorem Leads.bind {p : Program I α} {f : α → Program I β} {first second : List I.Inquiry} {a : α}
    {q : Program I β} (h : Leads p first (done a)) (h' : Leads (f a) second q) :
    Leads (p >>= f) (first ++ second) q := by
  induction p generalizing first with
  | done b =>
    obtain ⟨rfl, hdone⟩ := leads_done h
    cases hdone
    exact h'
  | ask r next ih =>
    obtain ⟨answer, rest, rfl, hrest⟩ := leads_ask h
    exact .step answer (ih answer hrest)

/-- A course in two stretches passes a program between them. -/
theorem Leads.split {p q : Program I α} {first second : List I.Inquiry}
    (h : Leads p (first ++ second) q) : ∃ m, Leads p first m ∧ Leads m second q := by
  induction first generalizing p with
  | nil => exact ⟨p, .refl p, h⟩
  | cons x first ih =>
    cases h with
    | step a h =>
      obtain ⟨m, hfirst, hsecond⟩ := ih h
      exact ⟨m, .step a hfirst, hsecond⟩

/-- In surroundings that answer every request, a program comes to a value. -/
theorem exists_leads_run (surroundings : (r : I.Request) → σ → I.Answer r × σ) (p : Program I α)
    (s : σ) : ∃ log, Leads p log (done (p.run surroundings s).1) := by
  induction p generalizing s with
  | done a => exact ⟨[], .refl _⟩
  | ask r next ih =>
    obtain ⟨log, hlog⟩ := ih (surroundings r s).1 (surroundings r s).2
    exact ⟨⟨r, (surroundings r s).1⟩ :: log, .step _ hlog⟩

/-! ## Programs that an error ends -/

section Errors

variable {ε : Type}

/-- A course through two parts in sequence has a value in between, or ends with an error of the
first. -/
theorem leads_run_bind_cases {x : ExceptT ε (Program I) α} {f : α → ExceptT ε (Program I) β}
    {log : List I.Inquiry} {result : Except ε β} (h : Leads (x >>= f).run log (done result)) :
    (∃ first second a, log = first ++ second ∧ Leads x.run first (done (.ok a)) ∧
      Leads (f a).run second (done result)) ∨
    ∃ e, result = .error e ∧ Leads x.run log (done (.error e)) := by
  obtain ⟨first, second, a, rfl, hx, hf⟩ := leads_bind (f := ExceptT.bindCont f) h
  cases a with
  | ok a => exact .inl ⟨first, second, a, rfl, hx, hf⟩
  | error e =>
    obtain ⟨rfl, hf⟩ := leads_done hf
    cases hf
    rw [List.append_nil]
    exact .inr ⟨e, rfl, hx⟩

/-- A course to a value through two parts in sequence has a value in between. -/
theorem leads_run_bind {x : ExceptT ε (Program I) α} {f : α → ExceptT ε (Program I) β}
    {log : List I.Inquiry} {b : β} (h : Leads (x >>= f).run log (done (.ok b))) :
    ∃ first second a, log = first ++ second ∧ Leads x.run first (done (.ok a)) ∧
      Leads (f a).run second (done (.ok b)) := by
  rcases leads_run_bind_cases h with hvalue | ⟨e, he, -⟩
  · exact hvalue
  · cases he

/-- A part that asks nothing comes to its own value. -/
theorem leads_run_pure {a b : α} {log : List I.Inquiry}
    (h : Leads (pure a : ExceptT ε (Program I) α).run log (done (.ok b))) :
    log = [] ∧ b = a := by
  obtain ⟨rfl, h⟩ := leads_done h
  cases h
  exact ⟨rfl, rfl⟩

/-- A program taken as a part has the courses of the program, and comes to a value. -/
theorem leads_run_lift_cases {p : Program I α} {log : List I.Inquiry} {result : Except ε α}
    (h : Leads (ExceptT.lift p : ExceptT ε (Program I) α).run log (done result)) :
    ∃ a, result = .ok a ∧ Leads p log (done a) := by
  obtain ⟨first, second, a, rfl, hp, hdone⟩ := leads_bind (f := fun a => done (Except.ok a)) h
  obtain ⟨rfl, hresult⟩ := leads_done hdone
  cases hresult
  rw [List.append_nil]
  exact ⟨a, rfl, hp⟩

theorem leads_run_lift {p : Program I α} {log : List I.Inquiry} {a : α}
    (h : Leads (ExceptT.lift p : ExceptT ε (Program I) α).run log (done (.ok a))) :
    Leads p log (done a) := by
  obtain ⟨b, hab, hp⟩ := leads_run_lift_cases h
  cases hab
  exact hp

end Errors

/-! ## What a program asks for -/

/-- Whether all requests of a program, whatever the answers, have a property. -/
def AsksOnly (P : I.Request → Prop) : Program I α → Prop
  | done _ => True
  | ask r next => P r ∧ ∀ a, (next a).AsksOnly P

/-- Every program makes requests. -/
theorem asksOnly_true (p : Program I α) : p.AsksOnly fun _ => True := by
  induction p with
  | done a => trivial
  | ask r next ih => exact ⟨trivial, ih⟩

theorem asksOnly_bind {P : I.Request → Prop} {p : Program I α} {f : α → Program I β}
    (hp : p.AsksOnly P) (hf : ∀ a, (f a).AsksOnly P) : (p >>= f).AsksOnly P := by
  induction p with
  | done a => exact hf a
  | ask r next ih => exact ⟨hp.1, fun a => ih a (hp.2 a)⟩

/-- Errors ask for nothing. -/
theorem asksOnly_run_bind {ε : Type} {P : I.Request → Prop} {x : ExceptT ε (Program I) α}
    {f : α → ExceptT ε (Program I) β} (hx : x.run.AsksOnly P) (hf : ∀ a, (f a).run.AsksOnly P) :
    (x >>= f).run.AsksOnly P := by
  refine asksOnly_bind (f := ExceptT.bindCont f) hx fun r => ?_
  cases r with
  | ok a => exact hf a
  | error e => trivial

/-- A program taken as a part asks for what it asks for. -/
theorem asksOnly_run_lift {ε : Type} {P : I.Request → Prop} {p : Program I α}
    (h : p.AsksOnly P) : (ExceptT.lift p : ExceptT ε (Program I) α).run.AsksOnly P :=
  asksOnly_bind (f := fun a => done (Except.ok a)) h fun _ => trivial

theorem AsksOnly.mono {P Q : I.Request → Prop} {p : Program I α} (h : p.AsksOnly P)
    (hPQ : ∀ r, P r → Q r) : p.AsksOnly Q := by
  induction p with
  | done a => trivial
  | ask r next ih => exact ⟨hPQ r h.1, fun a => ih a (h.2 a)⟩

/-- The requests on a course are among those that the program makes. -/
theorem AsksOnly.of_mem {P : I.Request → Prop} {p q : Program I α} {log : List I.Inquiry}
    (hp : p.AsksOnly P) (h : Leads p log q) {x : I.Inquiry} (hx : x ∈ log) : P x.request := by
  induction h with
  | refl p => cases hx
  | step a _ ih =>
    rcases List.mem_cons.1 hx with rfl | hx
    · exact hp.1
    · exact ih (hp.2 a) hx

/-! ## Contracts -/

/-- What surroundings with a state promise, and what they ask in return. -/
structure Contract (I : Interface) (σ : Type) where
  /-- Whether a request may be made in a state. -/
  allows : σ → I.Request → Prop
  /-- Which states an answer may leave behind. -/
  moves : σ → (r : I.Request) → I.Answer r → σ → Prop

/-- A program keeps a contract from a state on, and comes to an end that satisfies `post`. -/
def Keeps (c : Contract I σ) (post : σ → α → Prop) : Program I α → σ → Prop
  | done a, s => post s a
  | ask r next, s => c.allows s r ∧ ∀ a s', c.moves s r a s' → (next a).Keeps c post s'

variable {c : Contract I σ} {post : σ → α → Prop} {s : σ}

theorem keeps_bind {p : Program I α} {f : α → Program I β} {post : σ → β → Prop}
    (h : p.Keeps c (fun s a => (f a).Keeps c post s) s) : (p >>= f).Keeps c post s := by
  induction p generalizing s with
  | done a => exact h
  | ask r next ih => exact ⟨h.1, fun a s' hs => ih a (h.2 a s' hs)⟩

theorem Keeps.mono {post' : σ → α → Prop} {p : Program I α} (h : p.Keeps c post s)
    (hpost : ∀ s a, post s a → post' s a) : p.Keeps c post' s := by
  induction p generalizing s with
  | done a => exact hpost _ _ h
  | ask r next ih => exact ⟨h.1, fun a s' hs => ih a (h.2 a s' hs)⟩

/-- An error ends a part, and with it the parts after it. -/
theorem keeps_run_bind {ε : Type} {x : ExceptT ε (Program I) α} {f : α → ExceptT ε (Program I) β}
    {post : σ → Except ε β → Prop}
    (h : x.run.Keeps c (fun s r =>
      match r with
      | .ok a => (f a).run.Keeps c post s
      | .error e => post s (.error e)) s) : (x >>= f).run.Keeps c post s := by
  refine keeps_bind (f := ExceptT.bindCont f) (h.mono fun s r hr => ?_)
  cases r with
  | ok a => exact hr
  | error e => exact hr

theorem keeps_run_lift {ε : Type} {p : Program I α} {post : σ → Except ε α → Prop}
    (h : p.Keeps c (fun s a => post s (.ok a)) s) :
    (ExceptT.lift p : ExceptT ε (Program I) α).run.Keeps c post s :=
  keeps_bind (f := fun a => done (Except.ok a)) h

/-- A program that only makes requests which are free and change nothing keeps the contract. -/
theorem AsksOnly.keeps {P : I.Request → Prop} {p : Program I α} (h : p.AsksOnly P)
    (hallows : ∀ r, P r → c.allows s r)
    (hmoves : ∀ r, P r → ∀ a s', c.moves s r a s' → s' = s) (hpost : ∀ a, post s a) :
    p.Keeps c post s := by
  induction p with
  | done a => exact hpost a
  | ask r next ih =>
    refine ⟨hallows r h.1, fun a s' hs => ?_⟩
    rw [hmoves r h.1 a s' hs]
    exact ih a (h.2 a)

end Program

end Parley
