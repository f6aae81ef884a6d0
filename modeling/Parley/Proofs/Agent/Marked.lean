import Parley.Proofs.Agent.Parts

/-!
# Handlers that are seen to start

A log says what a handler asked for, but not when it started: a handler may ask for nothing.  So a
run is compared with the same run in which every handler of a tool that yields leaves a mark first
thing (`Setup.marked`), a mark that no handler leaves otherwise.  A mark changes nothing else: every
course of a run is one of the marked run without the marks (`exists_marked`).  A handler starts in
a stretch of a course if a marked run leaves its mark there (`StartsIn`).
-/

namespace Parley

open Program

/-! ## Marks -/

namespace Tool

/-- Ask the surroundings, and keep the first mark free. -/
def askShifted : (r : Request) → Program interface r.Answer
  | .mark label => ask (.mark (label + 1))
  | r => ask r

/-- The same tool, whose handler leaves the first mark before it does anything. -/
def marked (t : Tool) : Tool :=
  { t with handler := fun arguments call => do
      if t.yields then ask (.mark 0)
      (t.handler arguments call).through askShifted }

end Tool

/-- The same tools, whose handlers leave the first mark before they do anything. -/
def Registry.marked (r : Registry) : Registry := ⟨r.tools.map Tool.marked⟩

theorem Registry.reach_marked (r : Registry) (name : String) (arguments : Json) :
    r.marked.reach name arguments = (r.reach name arguments).map Tool.marked := by
  have hget : r.marked.get? name = (r.get? name).map Tool.marked := by
    rw [get?, get?, marked, List.find?_map]
    rfl
  rw [reach, reach, hget]
  cases r.get? name with
  | none => rfl
  | some t =>
    have hschema : t.marked.schema = t.schema := rfl
    dsimp only [Option.map]
    rw [hschema]
    cases Tool.Schema.violation? arguments t.schema <;> rfl

theorem Registry.definitions_marked (r : Registry) : r.marked.definitions = r.definitions := by
  rw [definitions, definitions, marked, List.map_map]
  rfl

theorem Registry.prompts_marked (r : Registry) : r.marked.prompts = r.prompts := by
  rw [prompts, prompts, marked, List.map_map]
  rfl

namespace Agent

/-- The same setup, whose handlers leave the first mark before they do anything. -/
def Setup.marked (s : Setup) : Setup := { s with tools := s.tools.marked }

/-- The same mission, whose handlers leave the first mark before they do anything. -/
def Mission.marked (m : Mission) : Mission := { m with setup := m.setup.marked }

/-- A request that leaves no mark. -/
def Request.MarksNothing (r : Request) : Prop := ∀ label, r ≠ .tool (.mark label)

/-- An inquiry of a marked run as the run makes it, if it does. -/
def unmarked? : interface.Inquiry → Option interface.Inquiry
  | ⟨.tool (.mark 0), _⟩ => none
  | ⟨.tool (.mark (label + 1)), u⟩ => some ⟨.tool (.mark label), u⟩
  | x => some x

theorem unmarked?_of_marksNothing {r : Request} (h : r.MarksNothing) (a : r.Answer) :
    unmarked? ⟨r, a⟩ = some ⟨r, a⟩ := by
  cases r with
  | tool r => cases r <;> first | rfl | exact absurd rfl (h _)
  | _ => rfl

theorem unmarked?_mark (label : Nat) (u : Unit) :
    unmarked? ⟨.tool (.mark (label + 1)), u⟩ = some ⟨.tool (.mark label), u⟩ := rfl

/-! ## What marks change -/

variable {α β : Type}

/-- A program is another with marks. -/
inductive Shows : Program interface α → Program interface α → Prop where
  | done (a : α) : Shows (.done a) (.done a)
  | ask {r : Request} {next next' : r.Answer → Program interface α}
    (hr : r.MarksNothing) (h : ∀ a, Shows (next a) (next' a)) :
    Shows (.ask (I := interface) r next) (.ask (I := interface) r next')
  | mark {label : Nat} {next next' : Unit → Program interface α} (h : ∀ u, Shows (next u) (next' u)) :
    Shows (.ask (I := interface) (.tool (.mark label)) next)
      (.ask (I := interface) (.tool (.mark (label + 1))) next')
  | start {p : Program interface α} {next' : Unit → Program interface α} (h : Shows p (next' ())) :
    Shows p (.ask (I := interface) (.tool (.mark 0)) next')

namespace Shows

theorem bind {p q : Program interface α} {f g : α → Program interface β} (h : Shows p q)
    (hf : ∀ a, Shows (f a) (g a)) : Shows (p >>= f) (q >>= g) := by
  induction h with
  | done a => exact hf a
  | ask hr _ ih => exact .ask hr ih
  | mark _ ih => exact .mark ih
  | start _ ih => exact .start ih

/-- A program that leaves no marks is itself with marks. -/
theorem of_asksOnly {p : Program interface α} (h : p.AsksOnly Request.MarksNothing) :
    Shows p p := by
  induction p with
  | done a => exact .done a
  | ask r next ih => exact .ask h.1 fun a => ih a (h.2 a)

/-- **Every course is one with marks**, without the marks. -/
theorem exists_leads {p p' q : Program interface α} {log : Log} (h : Shows p p')
    (hlog : Leads p log q) : ∃ log' q', Leads p' log' q' ∧ log'.filterMap unmarked? = log := by
  induction hlog generalizing p' with
  | refl p => exact ⟨[], p', .refl p', rfl⟩
  | @step r next log q a _ ih =>
    generalize hp : (Program.ask r next : Program interface α) = p at h
    induction h with
    | done a => cases hp
    | ask hr h =>
      cases hp
      obtain ⟨log', q', hlog', hsame⟩ := ih (h a)
      refine ⟨⟨r, a⟩ :: log', q', .step a hlog', ?_⟩
      rw [List.filterMap_cons_some (unmarked?_of_marksNothing hr a), hsame]
    | @mark label next' _ h =>
      cases hp
      obtain ⟨log', q', hlog', hsame⟩ := ih (h a)
      refine ⟨⟨.tool (.mark (label + 1)), a⟩ :: log', q',
        .step (I := interface) (r := .tool (.mark (label + 1))) a hlog', ?_⟩
      rw [List.filterMap_cons_some (unmarked?_mark label a), hsame]
    | start _ ihstart =>
      obtain ⟨log', q', hlog', hsame⟩ := ihstart hp
      exact ⟨⟨.tool (.mark 0), ()⟩ :: log', q',
        .step (I := interface) (r := .tool (.mark 0)) () hlog', hsame⟩

end Shows

/-! ## Marked handlers -/

section Handlers

variable {p p' : Program Tool.interface Tool.Result}

theorem shows_indulge (limit : Nat) (p : Program Tool.interface Tool.Result) :
    Shows (indulge limit p) (indulge limit (p.through Tool.askShifted)) := by
  induction p with
  | done result => exact .done _
  | ask r next ih =>
    cases r with
    | rest ms =>
      refine .ask nofun fun now => .ask nofun fun awake => ?_
      show Shows (if awake.due then _ else _) (if awake.due then _ else _)
      split
      · exact ih ()
      · exact .done _
    | mark label => exact .mark fun u => ih u
    | send message => exact .ask nofun fun _ => ih true
    | _ => exact .ask nofun fun a => ih a

theorem shows_watch (yields : Bool) (token : Token) (deadline : Option Nat)
    (p : Program Tool.interface Tool.Result) :
    Shows (watch yields token deadline p)
      (watch yields token deadline (p.through Tool.askShifted)) := by
  induction p with
  | done result => exact .done _
  | ask r next ih =>
    cases r with
    | rest ms =>
      refine .ask nofun fun start => .ask nofun fun awake => ?_
      show Shows (if yields && awake.cancelled then _ else _)
        (if yields && awake.cancelled then _ else _)
      split
      · exact .done _
      split
      · exact ih ()
      split
      · exact .done _
      refine .ask nofun fun now => .ask nofun fun late => ?_
      show Shows (if late.due then _ else _) (if late.due then _ else _)
      split
      · exact shows_indulge _ _
      · exact .done _
    | mark label => exact .mark fun u => ih u
    | send message => exact .ask nofun fun _ => ih true
    | _ => exact .ask nofun fun a => ih a

end Handlers

theorem shows_attend (t : Tool) (arguments : Json) (call : Tool.Call) (token : Token)
    (deadline : Option Nat) :
    Shows (attend t arguments call token deadline)
      (attend t.marked arguments call token deadline) := by
  refine .ask nofun fun cancelled => ?_
  show Shows (if t.yields && cancelled then _ else _) (if t.yields && cancelled then _ else _)
  split
  · exact .done _
  · show Shows _ (watch t.yields token deadline (do
      if t.yields then Tool.ask (.mark 0)
      (t.handler arguments call).through Tool.askShifted))
    split
    · exact .start (shows_watch _ _ _ _)
    · exact shows_watch _ _ _ _

/-! ## Marked runs -/

section Mission

variable {m : Mission}

theorem shows_run_bind {x y : Part α} {f g : α → Part β} (h : Shows x.run y.run)
    (hf : ∀ a, Shows (f a).run (g a).run) : Shows (x >>= f).run (y >>= g).run := by
  refine h.bind (f := ExceptT.bindCont f) (g := ExceptT.bindCont g) fun r => ?_
  cases r with
  | ok a => exact hf a
  | error e => exact .done _

theorem shows_invoke (c : Model.ToolCall) : Shows (m.invoke c) (m.marked.invoke c) := by
  rw [Mission.invoke, Mission.invoke, show m.marked.setup.tools = m.setup.tools.marked from rfl,
    Registry.reach_marked]
  cases m.setup.tools.reach c.name c.arguments with
  | error e => exact .done _
  | ok t => exact shows_attend ..

theorem Request.IsPlain.marksNothing {r : Request} (h : r.IsPlain) : r.MarksNothing := by
  rintro label rfl
  exact h

theorem shows_record (key : SessionKey) (turn : Timestamp → Turn) :
    Shows (record key turn).run (record key turn).run :=
  .of_asksOnly (record_asks nofun fun _ => nofun)

theorem shows_consult (token : Token) (deadline : Option Nat) (request : Model.Request) :
    Shows (ExceptT.lift (consult token deadline request) : Part Asked).run
      (ExceptT.lift (consult token deadline request) : Part Asked).run := by
  refine .of_asksOnly (asksOnly_run_lift ((consult_serves token deadline request).mono ?_))
  rintro r (hr | rfl)
  · exact hr.isPlain.marksNothing
  · exact nofun

theorem shows_of_isWord {x : Part α} {key : SessionKey}
    (h : x.run.AsksOnly (Request.IsWord key)) : Shows x.run x.run :=
  .of_asksOnly (h.mono fun _ hr => hr.isPlain.marksNothing)

theorem shows_dispatch (c : Model.ToolCall) :
    Shows (m.dispatch c).run (m.marked.dispatch c).run := by
  refine shows_run_bind (.of_asksOnly (inquire_asksOnly nofun)) fun _ => ?_
  refine shows_run_bind (shows_record _ _) fun _ => ?_
  refine shows_run_bind ((shows_invoke c).bind fun _ => .done _) fun attended => ?_
  refine shows_run_bind (.of_asksOnly (inquire_asksOnly nofun)) fun _ => ?_
  refine shows_run_bind (shows_record _ _) fun _ => ?_
  refine shows_run_bind (.of_asksOnly (inquire_asksOnly nofun)) fun _ => ?_
  exact shows_of_isWord (verdict_isWord attended)

/-- Marked tools are announced to the model as they are. -/
theorem alike_marked (s : Setup) : s.Alike s.marked :=
  ⟨rfl, rfl, s.tools.definitions_marked, s.tools.prompts_marked⟩

theorem shows_answer (text : String) : Shows (m.answer text).run (m.marked.answer text).run :=
  Mission.Compositional.answer (m := m) (s := m.setup.marked)
    (R := fun _ x y => Shows x.run y.run)
    { alike := alike_marked _
      bind := shows_run_bind
      word := shows_of_isWord
      consult := fun _ => shows_consult _ _ _
      dispatch := shows_dispatch } text

end Mission

theorem shows_run (setup : Setup) (i : Identity) (text : String) (token : Token) :
    Shows (run setup i text token) (run setup.marked i text token) := by
  refine .ask nofun fun lock => .ask nofun fun _ => ?_
  refine Shows.bind (p := runLocked setup i text token) (q := runLocked setup.marked i text token)
    (.ask nofun fun resolved => ?_) fun result =>
      .ask nofun fun _ => .ask nofun fun _ => .ask nofun fun _ => .done result
  cases (resolved : Except Error SessionKey) with
  | error e => exact .done _
  | ok key =>
    refine .ask nofun fun start => ?_
    refine Shows.bind (p := (Mission.answer ⟨setup, i, key, token, _⟩ text).run)
      (q := (Mission.answer ⟨setup.marked, i, key, token, _⟩ text).run)
      (shows_answer text) fun result => ?_
    cases result with
    | ok o => exact .ask nofun fun _ => .done _
    | error e => exact .ask nofun fun _ => .ask nofun fun _ => .done _

/-- **Every course of a run is one of the marked run**, without the marks. -/
theorem exists_marked {setup : Setup} {i : Identity} {text : String} {token : Token} {log : Log}
    {q : Program interface (Except Error Outcome)} (h : Leads (run setup i text token) log q) :
    ∃ log' q', Leads (run setup.marked i text token) log' q' ∧ log'.filterMap unmarked? = log :=
  (shows_run setup i text token).exists_leads h

/-! ## Starts -/

/-- In a course of a run that is known in two stretches, a handler of a tool that yields starts in
the second. -/
def StartsIn (setup : Setup) (i : Identity) (text : String) (token : Token) (first second : Log) :
    Prop :=
  ∃ log log' q, Leads (run setup.marked i text token) (log ++ log') q ∧
    log.filterMap unmarked? = first ∧ log'.filterMap unmarked? = second ∧
    ∃ x ∈ log', x.request = .tool (.mark 0)

/-- A run in which a handler is seen to start. -/
example :
    let nod : Tool := ⟨"nod", "", "", .null, fun _ _ => .done (.text "yes"), true⟩
    let p := run (Setup.marked { tools := ⟨[nod]⟩ }) ⟨"cli", "local"⟩ "hello" 0
    (((World.rehearsal [.calls "" [("nod", .obj [])]]).course 50 p).1.marks) = [0] := by
  decide +kernel

end Agent

end Parley
