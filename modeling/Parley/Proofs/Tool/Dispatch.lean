import Parley.Proofs.Agent.Watch
import Parley.Proofs.Tool.Registry

/-!
# Calls through a registry

Tools are registered and replaced, and then some are called by name.  What every call comes to is
known from the calls that filled the registry (`history_dispatches`): the error that no tool has
the name, the error that the arguments violate the schema of the tool that stands under it, or
else a result, and only then the handler of that tool is run, once, unless it yields and the token
is cancelled before.
-/

namespace Parley.Registry

open Agent Program

/-- A call of a tool by name. -/
structure Invocation where
  name : String
  arguments : Json
  call : Tool.Call
  token : Token
  deadline : Option Nat := none

/-- Make a call. -/
def Invocation.perform (r : Registry) (c : Invocation) :
    Program Agent.interface (Except Error Attended) :=
  r.invoke c.name c.arguments c.call c.token c.deadline

/-- Make calls one after the other. -/
def invokeAll (r : Registry) :
    List Invocation → Program Agent.interface (List (Except Error Attended))
  | [] => .done []
  | c :: rest => do
    let answer ← c.perform r
    let more ← invokeAll r rest
    .done (answer :: more)

/-- Every call has its own part of a log and its own answer, with some property. -/
inductive Each (P : Invocation → Log → Except Error Attended → Prop) :
    List Invocation → Log → List (Except Error Attended) → Prop
  | nil : Each P [] [] []
  | cons {c : Invocation} {rest : List Invocation} {first log : Log}
    {answer : Except Error Attended} {more : List (Except Error Attended)}
    (h : P c first answer) (hrest : Each P rest log more) :
    Each P (c :: rest) (first ++ log) (answer :: more)

/-- The handler of a tool is attended: the token is looked at, and unless it is cancelled and the
tool yields, the handler is run, once. -/
def RunsOnce (t : Tool) (c : Invocation) (log : Log) (a : Attended) : Prop :=
  ∃ (cancelled : Bool) (rest : Log), log = ⟨.isCancelled c.token, cancelled⟩ :: rest ∧
    if t.yields && cancelled then rest = [] ∧ a = ⟨.cancelled, false⟩
    else Handles (t.handler c.arguments c.call) rest a.result

/-- What a call asks for and comes to, by the tools that stand under the names.  Exactly one of the
three applies. -/
inductive Dispatched (standing? : String → Option Tool) (c : Invocation) :
    Log → Except Error Attended → Prop
  /-- Nothing stands under the name. -/
  | unknown (hname : standing? c.name = none) :
    Dispatched standing? c [] (.error (.unknownTool c.name))
  /-- The arguments violate the schema. -/
  | invalid {t : Tool} {v : Tool.Schema.Violation} (hname : standing? c.name = some t)
    (harguments : Tool.Schema.violation? c.arguments t.schema = some v) :
    Dispatched standing? c [] (.error (.invalidArguments c.name v.field v.reason))
  /-- The tool is reached, and its result is the answer, a failure of the handler included. -/
  | reached {t : Tool} {log : Log} {a : Attended} (hname : standing? c.name = some t)
    (harguments : Tool.Schema.violation? c.arguments t.schema = none) (hrun : RunsOnce t c log a) :
    Dispatched standing? c log (.ok a)

variable {r : Registry} {t : Tool} {c : Invocation} {log : Log}

theorem runsOnce_of_attend {a : Attended}
    (h : Leads (attend t c.arguments c.call c.token c.deadline) log (.done a)) :
    RunsOnce t c log a := by
  obtain ⟨cancelled, rest, rfl, hrest⟩ := leads_ask h
  refine ⟨cancelled, rest, rfl, ?_⟩
  have hcheck (b : Bool) (hb : Leads (if t.yields && b then .done ⟨.cancelled, false⟩
      else watch t.yields c.token c.deadline (t.handler c.arguments c.call)) rest (.done a)) :
      if t.yields && b then rest = [] ∧ a = ⟨.cancelled, false⟩
        else Handles (t.handler c.arguments c.call) rest a.result := by
    split at hb
    · obtain ⟨rfl, hdone⟩ := leads_done hb
      cases hdone
      rw [if_pos ‹_›]
      exact ⟨rfl, rfl⟩
    · rw [if_neg ‹_›]
      exact handles_of_watch hb
  exact hcheck cancelled hrest

/-- **What one call comes to.** -/
theorem dispatched_of_leads {answer : Except Error Attended}
    (h : Leads (c.perform r) log (.done answer)) : Dispatched r.get? c log answer := by
  rw [Invocation.perform, invoke, reach] at h
  cases hname : r.get? c.name with
  | none =>
    rw [hname] at h
    obtain ⟨rfl, hdone⟩ := leads_done h
    cases hdone
    exact .unknown hname
  | some t =>
    rw [hname] at h
    dsimp only at h
    cases harguments : Tool.Schema.violation? c.arguments t.schema with
    | some v =>
      rw [harguments] at h
      obtain ⟨rfl, hdone⟩ := leads_done h
      cases hdone
      exact .invalid hname harguments
    | none =>
      rw [harguments] at h
      obtain ⟨first, second, a, rfl, hattend, hdone⟩ := leads_bind h
      obtain ⟨rfl, hdone⟩ := leads_done hdone
      cases hdone
      rw [List.append_nil]
      exact .reached hname harguments (runsOnce_of_attend hattend)

/-- What calls one after the other come to. -/
theorem each_of_leads {invocations : List Invocation} {answers : List (Except Error Attended)}
    (h : Leads (invokeAll r invocations) log (.done answers)) :
    Each (Dispatched r.get?) invocations log answers := by
  induction invocations generalizing log answers with
  | nil =>
    obtain ⟨rfl, hdone⟩ := leads_done h
    cases hdone
    exact .nil
  | cons c rest ih =>
    obtain ⟨first, log, answer, rfl, hfirst, hlog⟩ := leads_bind h
    obtain ⟨second, last, more, rfl, hmore, hdone⟩ := leads_bind hlog
    obtain ⟨rfl, hdone⟩ := leads_done hdone
    cases hdone
    rw [List.append_nil]
    exact .cons (dispatched_of_leads hfirst) (ih hmore)

/-- **What calls through a registry come to, whatever was registered and replaced before.**
Registering is refused just when the name is taken, and then changes nothing.  The names, and the
definitions by name, are in strict order, and there is one for every name that some call brought.
In surroundings that answer, every call of a tool comes to an answer; it is what the tool that
stands under the name says, and no other handler is run. -/
theorem history_dispatches (calls : List Filling) {invocations : List Invocation}
    {answers : List (Except Error Attended)}
    (h : Leads (invokeAll (history calls) invocations) log (.done answers)) :
    (∀ before t e r', (Filling.register t).perform (history before) = (.error e, r') ↔
      (∃ c ∈ before, c.tool.name = t.name) ∧ e = .duplicateName t.name ∧ r' = history before) ∧
    (history calls).names.Pairwise (· < ·) ∧
    (∀ name, name ∈ (history calls).names ↔ ∃ c ∈ calls, c.tool.name = name) ∧
    (history calls).definitions.map (·.name) = (history calls).names ∧
    (∀ d, d ∈ (history calls).definitions ↔
      ∃ t, standing? calls t.name = some t ∧ d = t.definition) ∧
    (∀ (σ : Type) (surroundings : (r : Agent.Request) → σ → r.Answer × σ) (s : σ), ∃ course,
      Leads (invokeAll (history calls) invocations) course
        (.done ((invokeAll (history calls) invocations).run surroundings s).1)) ∧
    Each (Dispatched (standing? calls)) invocations log answers := by
  have hstanding : (history calls).get? = standing? calls := funext (get?_history calls)
  refine ⟨fun _ _ _ _ => perform_register_iff, (sorted_history calls).pairwise_names,
    fun _ => mem_names_history_iff, ?_, fun _ => mem_definitions_history_iff,
    fun _ surroundings s => exists_leads_run (I := Agent.interface) surroundings _ s, ?_⟩
  · rw [definitions, names, List.map_map]
    rfl
  · rw [← hstanding]
    exact each_of_leads h

/-- A run calls its tools through its registry, and takes an error for a result. -/
theorem invoke_eq_bind (m : Mission) (c : Model.ToolCall) :
    m.invoke c = (do
      match ← m.setup.tools.invoke c.name c.arguments ⟨m.identity, m.session, true⟩ m.token
        (some m.deadline) with
      | .ok attended => .done attended
      | .error e => .done ⟨.error e.message, false⟩) := by
  rw [Mission.invoke, invoke]
  cases m.setup.tools.reach c.name c.arguments with
  | error e => rfl
  | ok t =>
    have hlaw (p : Program Agent.interface Attended) : p = (do
        match ← (Except.ok <$> p : Program Agent.interface (Except Error Attended)) with
        | .ok attended => .done attended
        | .error e => .done ⟨.error e.message, false⟩) := by
      induction p with
      | done a => rfl
      | ask r next ih => exact congrArg (Program.ask r) (funext ih)
    exact hlaw _

/-- A tool that says what it was made with. -/
def parrot (said : String) : Tool where
  name := "parrot"
  description := said
  schema := .null
  handler _ _ := .done (.text said)

/-- **Of three tools of one name the one that replaced is called.** -/
theorem parrot_dispatches :
    let calls : List Filling :=
      [.register (parrot "first"), .replace (parrot "second"), .register (parrot "third")]
    let c : Invocation := ⟨"parrot", .obj [], ⟨⟨"cli", "local"⟩, ⟨"cli:local"⟩, true⟩, 0, none⟩
    let answers : List (Except Error Attended) := [.ok ⟨.text "second", false⟩]
    ∃ log, Leads (invokeAll (history calls) [c]) log (.done answers) ∧
      (history calls).names = ["parrot"] ∧ Each (Dispatched (standing? calls)) [c] log answers := by
  intro calls c answers
  have hcourse : Leads (invokeAll (history calls) [c]) [⟨.isCancelled 0, false⟩] (.done answers) :=
    .step (I := Agent.interface) (r := .isCancelled 0) false (.refl _)
  exact ⟨_, hcourse, by decide, (history_dispatches calls hcourse).2.2.2.2.2.2⟩

end Parley.Registry
