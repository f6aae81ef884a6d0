import Parley.Proofs.Agent.Log

/-!
# The parts of a run

A round is given in parts (`rounds_eq`): a look at the token, a look at the session, the model,
and what follows its reply.  What is said of calls and of asking the model, and carries over to
parts in sequence, can be said of the run (`Mission.Compositional`); so can what is said of each
request by itself (`Mission.Grants`).  So only the run's own session is written
(`answer_asksOnly`), and only inside the lock (`runLocked_asksOnly`).

A course of a run is one of its rounds, between requests that are always the same (`leads_run`,
`leads_runLocked`), unless it fails before it has its session (`leads_runLocked_cases`).  So is a
course of a call one of its tool (`leads_dispatch`).
-/

namespace Parley.Agent

open Program

namespace Mission

/-- Why a run has to stop after a call, if it has to. -/
def verdict (m : Mission) (attended : Attended) : Part (Option Ending) := do
  if attended.timedOut then return some .timeout
  let cancelled : Bool ← inquire (.isCancelled m.token)
  return if cancelled then some .cancelled else none

/-- How a run goes on after a round whose calls were all made. -/
def proceed (m : Mission) (left made : Nat) (said : Option String) : Part Outcome :=
  match left with
  | 0 => m.conclude .iterationLimit (made + 1) (limitNotice m.setup.config.maxIterations said)
  | left + 1 => m.rounds left (made + 1) said

/-- How a run goes on with a reply that asks for calls. -/
def follow (m : Mission) (r : Model.Reply) (left made : Nat) (before : Option String) :
    Part Outcome := do
  let said ← m.remark r.text before
  match ← m.dispatchAll r.calls with
  | some ending => m.interrupt ending made
  | none => m.proceed left made said

/-- A round, part by part. -/
theorem rounds_eq (m : Mission) (left made : Nat) (before : Option String) :
    m.rounds left made before = (do
      let cancelled : Bool ← inquire (.isCancelled m.token)
      if cancelled then return ← m.interrupt .cancelled made
      let session ← m.remembered
      match ← ExceptT.lift (consult m.token (some m.deadline) (m.request session.transcript)) with
      | .timeout => m.interrupt .timeout made
      | .cancelled => m.interrupt .cancelled made
      | .failed f => m.giveUp made f
      | .reply r =>
        if r.isFinal then m.conclude .finalAnswer made r.text
        else m.follow r left made before) := by
  rw [rounds.eq_def]
  rfl

end Mission

/-! ## What is asked for -/

/-- What a run asks for once it has its session: it looks at sessions, writes its own, asks the
model, and does what leaves no trace. -/
def Request.IsFor (key : SessionKey) : Request → Prop
  | .store (.append k _) => k = key
  | .store (.get _) | .askModel _ => True
  | .store _ => False
  | r => r.IsAside

theorem Request.IsAside.isFor {key : SessionKey} {r : Request} (h : r.IsAside) : r.IsFor key := by
  cases r <;> first | exact h.elim | trivial

/-- A request that has to do neither with a call nor with the model: only words are recorded, and
neither a call nor what it does is announced. -/
def Request.IsPlain : Request → Prop
  | .tool .clock => True
  | .tool _ | .askModel _ | .pass => False
  | .store (.append _ t) => t.text?.isSome
  | .emit (.call _) | .emit (.result ..) | .emit (.message _) => False
  | _ => True

theorem Request.Serves.isPlain {r : Request} (h : r.Serves fun _ => False) : r.IsPlain := by
  cases r with
  | emit e => cases e <;> exact h.elim
  | tool | store | askModel | pass => exact h.elim
  | _ => trivial

/-- A request that does not say that the run has ended. -/
def Request.GoesOn (r : Request) : Prop := ∀ e, r ≠ .emit (.ended e)

theorem Request.Serves.goesOn {P : Tool.Request → Prop} {r : Request} (h : r.Serves P) :
    r.GoesOn := by
  rintro e rfl
  exact h

/-- What a run asks for outside of its calls and of what it asks the model. -/
structure Request.IsWord (key : SessionKey) (r : Request) : Prop where
  isFor : r.IsFor key
  isPlain : r.IsPlain
  goesOn : r.GoesOn

section Mission

variable {m : Mission}

theorem inquire_asksOnly {P : Request → Prop} {r : Request} (h : P r) :
    (inquire r).run.AsksOnly P :=
  asksOnly_run_lift (asksOnly_ask h)

/-- Recording a turn asks for the time and adds the turn. -/
theorem record_asks {P : Request → Prop} {key : SessionKey} {turn : Timestamp → Turn}
    (hclock : P (.tool .clock)) (happend : ∀ now, P (.store (.append key (turn now)))) :
    (record key turn).run.AsksOnly P :=
  asksOnly_run_bind (inquire_asksOnly hclock) fun now => asksOnly_ask (happend now)

theorem record_isWord (key : SessionKey) {turn : Timestamp → Turn}
    (h : ∀ now, (turn now).text?.isSome) :
    (record key turn).run.AsksOnly (Request.IsWord key) :=
  record_asks ⟨trivial, trivial, nofun⟩ fun now => ⟨rfl, h now, nofun⟩

theorem interrupt_isWord (e : Ending) (made : Nat) :
    (m.interrupt e made).run.AsksOnly (Request.IsWord m.session) :=
  asksOnly_run_bind (record_isWord _ fun _ => rfl) fun _ => trivial

theorem conclude_isWord (e : Ending) (made : Nat) (reply : String) :
    (m.conclude e made reply).run.AsksOnly (Request.IsWord m.session) :=
  asksOnly_run_bind (record_isWord _ fun _ => rfl) fun _ =>
    asksOnly_run_bind (inquire_asksOnly ⟨trivial, trivial, nofun⟩) fun _ => trivial

theorem giveUp_isWord (made : Nat) (f : Model.Failure) :
    (m.giveUp made f).run.AsksOnly (Request.IsWord m.session) :=
  asksOnly_run_bind (inquire_asksOnly ⟨trivial, trivial, nofun⟩) fun _ => trivial

theorem remembered_isWord : m.remembered.run.AsksOnly (Request.IsWord m.session) := by
  refine asksOnly_run_bind (inquire_asksOnly ⟨trivial, trivial, nofun⟩) fun found => ?_
  cases (found : Option (Session × Bool)) <;> trivial

theorem remark_isWord (text : String) (before : Option String) :
    (m.remark text before).run.AsksOnly (Request.IsWord m.session) := by
  unfold Mission.remark
  split
  · trivial
  · exact asksOnly_run_bind (record_isWord _ fun _ => rfl) fun _ => trivial

theorem verdict_isWord (attended : Attended) :
    (m.verdict attended).run.AsksOnly (Request.IsWord m.session) := by
  unfold Mission.verdict
  split
  · trivial
  · exact asksOnly_run_bind (inquire_asksOnly ⟨trivial, trivial, nofun⟩) fun _ => trivial

/-- A property of everything that a run asks for while it answers: of its words, of what is asked
for a handler or while the model is heard, and of what it asks for a call. -/
structure Mission.Grants (m : Mission) (P : Request → Prop) : Prop where
  word {r : Request} (h : r.IsWord m.session) : P r
  served {r : Request} (h : r.Serves fun _ => True) : P r
  askModel (request : Model.Request) : P (.askModel request)
  append (t : Turn) : P (.store (.append m.session t))
  pass : P .pass
  call (n : CallNotice) : P (.emit (.call n))
  result (callId name : String) (status : ToolStatus) : P (.emit (.result callId name status))

theorem Mission.Grants.consult {P : Request → Prop} (h : m.Grants P) (request : Model.Request) :
    (consult m.token (some m.deadline) request).AsksOnly P := by
  refine (consult_serves _ _ request).mono fun r hr => ?_
  rcases hr with hr | rfl
  · exact h.served (hr.mono fun _ => False.elim)
  · exact h.askModel request

theorem Mission.Grants.dispatch {P : Request → Prop} (h : m.Grants P) (c : Model.ToolCall) :
    (m.dispatch c).run.AsksOnly P := by
  have hrecord (turn : Timestamp → Turn) : (record m.session turn).run.AsksOnly P :=
    record_asks (h.served trivial) fun _ => h.append _
  refine asksOnly_run_bind (inquire_asksOnly (h.call _)) fun _ => ?_
  refine asksOnly_run_bind (hrecord _) fun _ => ?_
  refine asksOnly_run_bind (asksOnly_run_lift ((invoke_serves m c).mono fun _ => h.served))
    fun attended => ?_
  refine asksOnly_run_bind (inquire_asksOnly h.pass) fun _ => ?_
  refine asksOnly_run_bind (hrecord _) fun _ => ?_
  refine asksOnly_run_bind (inquire_asksOnly (h.result _ _ _)) fun _ => ?_
  exact (verdict_isWord attended).mono fun _ => h.word

end Mission

/-! ## From the parts to the run -/

/-- Setups that differ at most in what their tools do. -/
structure Setup.Alike (s s' : Setup) : Prop where
  config : s'.config = s.config
  provider : s'.provider = s.provider
  definitions : s'.tools.definitions = s.tools.definitions
  prompts : s'.tools.prompts = s.tools.prompts

theorem Setup.Alike.refl (s : Setup) : s.Alike s := ⟨rfl, rfl, rfl, rfl⟩

/-- What is said of a run and of the same run with another setup, and follows for the runs if it
holds of their calls and of what they ask the model. -/
structure Mission.Compositional (m : Mission) (s : Setup)
    (R : (α : Type) → Part α → Part α → Prop) : Prop where
  alike : m.setup.Alike s
  bind {α β : Type} {x y : Part α} {f g : α → Part β} (hx : R α x y) (hf : ∀ a, R β (f a) (g a)) :
    R β (x >>= f) (y >>= g)
  word {α : Type} {x : Part α} (hx : x.run.AsksOnly (Request.IsWord m.session)) : R α x x
  consult (request : Model.Request) :
    R Asked (ExceptT.lift (consult m.token (some m.deadline) request))
      (ExceptT.lift (Agent.consult m.token (some m.deadline) request))
  dispatch (c : Model.ToolCall) : R (Option Ending) (m.dispatch c) (dispatch { m with setup := s } c)

namespace Mission.Compositional

variable {m : Mission} {s : Setup} {R : (α : Type) → Part α → Part α → Prop}

theorem request_eq (h : m.setup.Alike s) (transcript : List Turn) :
    Mission.request { m with setup := s } transcript = m.request transcript := by
  rw [Mission.request, Mission.request, Setup.instructions, Setup.instructions, h.config,
    h.definitions, h.prompts]

theorem remembered_eq (m : Mission) (s : Setup) :
    Mission.remembered { m with setup := s } = m.remembered := by
  refine congrArg (inquire (.store (.get m.session)) >>= ·) (funext fun found => ?_)
  cases (found : Option (Session × Bool)) <;> rfl

theorem giveUp_eq (h : m.setup.Alike s) (made : Nat) (f : Model.Failure) :
    Mission.giveUp { m with setup := s } made f = m.giveUp made f := by
  rw [Mission.giveUp, Mission.giveUp, h.provider]
  rfl

variable (h : m.Compositional s R)

include h

theorem done {α : Type} (a : α) : R α (pure a) (pure a) :=
  h.word (x := pure a) trivial

theorem dispatchAll (calls : List Model.ToolCall) :
    R (Option Ending) (m.dispatchAll calls) (Mission.dispatchAll { m with setup := s } calls) := by
  induction calls with
  | nil => exact h.done none
  | cons c calls ih =>
    refine h.bind (h.dispatch c) fun stop => ?_
    cases stop with
    | some e => exact h.done (some e)
    | none => exact ih

/-- A round, if it holds of how the run proceeds from it. -/
theorem round {left made : Nat} {before : Option String}
    (hproceed : ∀ said, R Outcome (m.proceed left made said)
      (Mission.proceed { m with setup := s } left made said)) :
    R Outcome (m.rounds left made before)
      (Mission.rounds { m with setup := s } left made before) := by
  rw [rounds_eq, rounds_eq]
  refine h.bind (h.word (inquire_asksOnly ⟨trivial, trivial, nofun⟩)) fun cancelled => ?_
  split
  · exact h.word (interrupt_isWord _ _)
  rw [remembered_eq m s]
  refine h.bind (h.word remembered_isWord) fun session => ?_
  rw [request_eq h.alike]
  refine h.bind (h.consult _) fun asked => ?_
  cases asked with
  | timeout => exact h.word (interrupt_isWord _ _)
  | cancelled => exact h.word (interrupt_isWord _ _)
  | failed f =>
    show R Outcome (m.giveUp made f) (Mission.giveUp { m with setup := s } made f)
    rw [giveUp_eq h.alike]
    exact h.word (giveUp_isWord _ _)
  | reply r =>
    show R Outcome (if r.isFinal = true then _ else _) (if r.isFinal = true then _ else _)
    split
    · exact h.word (conclude_isWord _ _ _)
    refine h.bind (h.word (remark_isWord _ _)) fun said => ?_
    refine h.bind (h.dispatchAll _) fun stop => ?_
    cases stop with
    | some e => exact h.word (interrupt_isWord _ _)
    | none => exact hproceed said

theorem rounds (left made : Nat) (before : Option String) :
    R Outcome (m.rounds left made before)
      (Mission.rounds { m with setup := s } left made before) := by
  induction left generalizing made before with
  | zero =>
    refine h.round fun said => ?_
    rw [proceed, proceed, h.alike.config]
    exact h.word (conclude_isWord _ _ _)
  | succ left ih => exact h.round fun said => ih _ _

/-- **What is compositional and holds of the calls and of asking the model holds of the run.** -/
theorem answer (text : String) :
    R Outcome (m.answer text) (Mission.answer { m with setup := s } text) := by
  refine h.bind (h.word (record_isWord _ fun _ => rfl)) fun _ => ?_
  rw [h.alike.config]
  exact h.rounds _ _ _

end Mission.Compositional

/-- **What a run asks for while it answers** has every property that it grants. -/
theorem Mission.Grants.answer {m : Mission} {P : Request → Prop} (h : m.Grants P) (text : String) :
    (m.answer text).run.AsksOnly P :=
  Mission.Compositional.answer (m := m) (s := m.setup) (R := fun _ x _ => x.run.AsksOnly P)
    { alike := .refl _
      bind := asksOnly_run_bind
      word := fun hx => hx.mono fun _ => h.word
      consult := fun request => asksOnly_run_lift (h.consult request)
      dispatch := h.dispatch } text

/-- **A run writes its own session only.** -/
theorem answer_asksOnly {m : Mission} (text : String) :
    (m.answer text).run.AsksOnly (Request.IsFor m.session) :=
  Mission.Grants.answer
    { word := Request.IsWord.isFor
      served := fun h => h.isAside.isFor
      askModel := fun _ => trivial
      append := fun _ => rfl
      pass := trivial
      call := fun _ => trivial
      result := fun _ _ _ => trivial } text

/-- What a run asks for between taking its lock and freeing it. -/
def Request.IsInner (i : Identity) (r : Request) : Prop :=
  r = .store (.resolve i) ∨ ∃ key, r.IsFor key

/-- **Inside the lock, a run does not touch the locks**, and of the store it asks for little. -/
theorem runLocked_asksOnly (setup : Setup) (i : Identity) (text : String) (token : Token) :
    (runLocked setup i text token).AsksOnly (Request.IsInner i) := by
  refine ⟨.inl rfl, fun resolved => ?_⟩
  cases (resolved : Except Error SessionKey) with
  | error e => trivial
  | ok key =>
    refine ⟨.inr ⟨key, trivial⟩, fun start => ?_⟩
    refine asksOnly_bind (p := (Mission.answer ⟨setup, i, key, token, _⟩ text).run)
      ((answer_asksOnly text).mono fun r h => .inr ⟨key, h⟩) fun result => ?_
    cases result with
    | ok o => exact ⟨.inr ⟨key, trivial⟩, fun _ => trivial⟩
    | error e => exact ⟨.inr ⟨key, trivial⟩, fun _ => ⟨.inr ⟨key, trivial⟩, fun _ => trivial⟩⟩

/-! ## The course of a call -/

/-- A call as it is announced and recorded, with its result. -/
structure CallFrame where
  notice : CallNotice
  arguments : Json
  /-- When the call was recorded. -/
  called : Timestamp
  output : String
  status : ToolStatus
  /-- When the result was recorded. -/
  answered : Timestamp

namespace CallFrame

/-- What comes before the handler: the announcement, and the recording. -/
def opening (f : CallFrame) : Log :=
  [⟨.emit (.call f.notice), ()⟩, ⟨.tool .clock, f.called⟩,
    ⟨.store (.append f.notice.session
      (.toolCall f.notice.callId f.notice.name f.arguments f.called)),
      (.ok () : Except Error Unit)⟩]

/-- What comes after the handler: the delivery of what it sent, and the recording and the
announcement of the result. -/
def closing (f : CallFrame) : Log :=
  [⟨.pass, ()⟩, ⟨.tool .clock, f.answered⟩,
    ⟨.store (.append f.notice.session
      (.toolResult f.notice.callId f.notice.name f.output f.status f.answered)),
      (.ok () : Except Error Unit)⟩,
    ⟨.emit (.result f.notice.callId f.notice.name f.status), ()⟩]

/-- The turns that a call leaves. -/
def turns (f : CallFrame) : List (SessionKey × Role × Content) :=
  [(f.notice.session, .toolCall, .toolCall f.notice.callId f.notice.name f.arguments),
    (f.notice.session, .toolResult,
      .toolResult f.notice.callId f.notice.name f.output f.status)]

end CallFrame

/-- How a run announces and records a call. -/
def Mission.frame (m : Mission) (c : Model.ToolCall) (called answered : Timestamp)
    (attended : Attended) : CallFrame where
  notice := m.notice c
  arguments := c.arguments
  called
  output := Tool.clipOutput m.setup.config.maxToolResultChars attended.result.content
  status := attended.result.status
  answered

/-- A call is announced and recorded, its tool is run, and its result is recorded and announced. -/
theorem leads_dispatch {m : Mission} {c : Model.ToolCall} {log : Log} {stop : Option Ending}
    (h : Leads (m.dispatch c).run log (.done (.ok stop))) :
    ∃ (called answered : Timestamp) (attended : Attended) (service last : Log),
      log = (m.frame c called answered attended).opening ++
        (service ++ ((m.frame c called answered attended).closing ++ last)) ∧
      Leads (m.invoke c) service (.done attended) ∧
      Leads (m.verdict attended).run last (.done (.ok stop)) := by
  obtain ⟨log₁, rest₁, _, rfl, h₁, g₁⟩ := leads_run_bind h
  obtain ⟨log₂, rest₂, _, rfl, h₂, g₂⟩ := leads_run_bind g₁
  obtain ⟨service, rest₃, attended, rfl, h₃, g₃⟩ := leads_run_bind g₂
  obtain ⟨log₄, rest₄, _, rfl, h₄, g₄⟩ := leads_run_bind g₃
  obtain ⟨log₅, rest₅, _, rfl, h₅, g₅⟩ := leads_run_bind g₄
  obtain ⟨log₆, last, _, rfl, h₆, hlast⟩ := leads_run_bind g₅
  obtain rfl := leads_inquire h₁
  obtain ⟨called, rfl⟩ := leads_record h₂
  obtain rfl := leads_inquire (r := .pass) h₄
  obtain ⟨answered, rfl⟩ := leads_record h₅
  obtain rfl := leads_inquire h₆
  exact ⟨called, answered, attended, service, last, rfl, leads_run_lift h₃, hlast⟩

/-! ## The course of a run -/

/-- The last events of a run. -/
def farewell : Except Error Outcome → List Event
  | .ok o => [.ended o.ending]
  | .error e => [.error e.message, .ended .fatalError]

/-- A run with its lock resolves its session.  If it gets one, it answers, and then says how it has
ended; otherwise it says nothing. -/
theorem leads_runLocked_cases {setup : Setup} {i : Identity} {text : String} {token : Token}
    {log : Log} {result : Except Error Outcome}
    (h : Leads (runLocked setup i text token) log (.done result)) :
    (∃ (key : SessionKey) (start : Nat) (middle : Log),
      log = ⟨.store (.resolve i), (.ok key : Except Error SessionKey)⟩ :: ⟨.time, start⟩ ::
        (middle ++ (farewell result).map fun e => ⟨.emit e, ()⟩) ∧
      Leads (Mission.answer ⟨setup, i, key, token, start + setup.config.timeoutMs⟩ text).run middle
        (.done result)) ∨
    ∃ e, result = .error e ∧
      log = [⟨.store (.resolve i), (.error e : Except Error SessionKey)⟩] := by
  obtain ⟨key, rest₁, rfl, h₁⟩ := leads_ask h
  cases (key : Except Error SessionKey) with
  | error e =>
    obtain ⟨rfl, hresult⟩ := leads_done h₁
    cases hresult
    exact .inr ⟨e, rfl, rfl⟩
  | ok key =>
    obtain ⟨start, rest₂, rfl, h₂⟩ := leads_ask h₁
    obtain ⟨middle, rest₃, answered, rfl, h₃, h₄⟩ := leads_bind
      (p := (Mission.answer ⟨setup, i, key, token, _⟩ text).run) h₂
    cases answered with
    | error e =>
      obtain ⟨_, rest₄, rfl, h₅⟩ := leads_ask h₄
      obtain ⟨_, rest₅, rfl, h₆⟩ := leads_ask h₅
      obtain ⟨rfl, hresult⟩ := leads_done h₆
      cases hresult
      exact .inl ⟨key, start, middle, rfl, h₃⟩
    | ok o =>
      obtain ⟨_, rest₄, rfl, h₅⟩ := leads_ask h₄
      obtain ⟨rfl, hresult⟩ := leads_done h₅
      cases hresult
      exact .inl ⟨key, start, middle, rfl, h₃⟩

/-- A run that comes to an outcome has its session. -/
theorem leads_runLocked {setup : Setup} {i : Identity} {text : String} {token : Token} {log : Log}
    {o : Outcome} (h : Leads (runLocked setup i text token) log (.done (.ok o))) :
    ∃ (key : SessionKey) (start : Nat) (middle : Log) (u : Unit),
      log = ⟨.store (.resolve i), (.ok key : Except Error SessionKey)⟩ :: ⟨.time, start⟩ ::
        (middle ++ [⟨.emit (.ended o.ending), u⟩]) ∧
      Leads (Mission.answer ⟨setup, i, key, token, start + setup.config.timeoutMs⟩ text).run middle
        (.done (.ok o)) := by
  rcases leads_runLocked_cases h with ⟨key, start, middle, rfl, hmiddle⟩ | ⟨e, he, -⟩
  · exact ⟨key, start, middle, (), rfl, hmiddle⟩
  · cases he

/-- A run takes its lock, and frees it after it has come to its result. -/
theorem leads_run {setup : Setup} {i : Identity} {text : String} {token : Token} {log : Log}
    {result : Except Error Outcome} (h : Leads (run setup i text token) log (.done result)) :
    ∃ (lock : Nat) (inner : Log) (taken freed dropped swept : Unit),
      log = ⟨.fetchLock i, lock⟩ :: ⟨.takeLock lock, taken⟩ :: (inner ++
        [⟨.freeLock lock, freed⟩, ⟨.dropLock lock, dropped⟩, ⟨.sweepLock i, swept⟩]) ∧
      Leads (runLocked setup i text token) inner (.done result) := by
  obtain ⟨lock, rest₁, rfl, h₁⟩ := leads_ask h
  obtain ⟨taken, rest₂, rfl, h₂⟩ := leads_ask h₁
  obtain ⟨inner, rest₃, result', rfl, h₃, h₄⟩ :=
    leads_bind (p := runLocked setup i text token) h₂
  obtain ⟨freed, rest₄, rfl, h₅⟩ := leads_ask h₄
  obtain ⟨dropped, rest₅, rfl, h₆⟩ := leads_ask h₅
  obtain ⟨swept, rest₆, rfl, h₇⟩ := leads_ask h₆
  obtain ⟨rfl, hsame⟩ := leads_done h₇
  cases hsame
  exact ⟨lock, inner, taken, freed, dropped, swept, rfl, h₃⟩

end Parley.Agent
