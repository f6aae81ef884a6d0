import Parley.Proofs.Agent.Account
import Parley.Proofs.Tool.Dispatch

/-!
# How the calls of a run unfold

A call has a stretch of the log to itself (`CallFrame`).  It is announced and recorded, then its
handler is served, then everything that the handler sent is delivered, and then the result is
recorded and announced.  The log of a run that comes to an outcome consists of such stretches and
of requests that have nothing to do with calls (`run_unfolds`).

What is asked for between the announcement of a call and its result is not just any service: it is
one course of the handler of the tool that the call reaches, with the arguments that were recorded,
and the result of that course is what is recorded (`CallFrame.Served`, `CallFrame.Records`).
-/

namespace Parley.Agent

open Program

/-- A request that has to do with no call: it is plain, or asks the model. -/
def Request.IsApart (r : Request) : Prop := r.IsPlain ∨ ∃ request, r = .askModel request

/-! ## What becomes of a call -/

/-- How a call is served: what is asked for it, what its handler asked and was answered, and its
result. -/
inductive CallFrame.Served (f : CallFrame) (tools : Registry) (token : Token) :
    Log → ToolLog → Tool.Result → Prop where
  /-- The call reaches no tool, and no handler is run. -/
  | refused {e : Error} (hreach : tools.reach f.notice.name f.arguments = .error e) :
    f.Served tools token [] [] (.error e.message)
  /-- The run is cancelled before the handler of a tool that yields is started. -/
  | late {t : Tool} (hreach : tools.reach f.notice.name f.arguments = .ok t)
    (hyields : t.yields = true) :
    f.Served tools token [⟨.isCancelled token, true⟩] [] .cancelled
  /-- The handler is run once, to its end or up to a rest in which it is given up. -/
  | run {t : Tool} (hreach : tools.reach f.notice.name f.arguments = .ok t) {cancelled : Bool}
    (hstart : (t.yields && cancelled) = false) {service : Log} {course : ToolLog}
    {result : Tool.Result}
    (hcourse : Runs (t.handler f.arguments ⟨f.notice.identity, f.notice.session, true⟩) course
      result)
    (hpasses : Passes course service) :
    f.Served tools token (⟨.isCancelled token, cancelled⟩ :: service) course result

/-- **What is emitted while a call is served are the messages that its handler sent.** -/
theorem CallFrame.Served.messages {f : CallFrame} {tools : Registry} {token : Token} {service : Log}
    {course : ToolLog} {result : Tool.Result} (h : f.Served tools token service course result) :
    service.filterMap message? = posted course := by
  cases h with
  | refused | late => rfl
  | run _ _ _ hpasses => exact hpasses.messages.symm

/-- A call is announced by its name and its arguments, and its result is recorded as it came. -/
structure CallFrame.Records (f : CallFrame) (setup : Setup) (result : Tool.Result) : Prop where
  summary : f.notice.summary = Tool.Summary.call f.notice.name f.arguments
  output : f.output = Tool.clipOutput setup.config.maxToolResultChars result.content
  status : f.status = result.status

/-- **A call is served by the handler of the tool that it reaches.** -/
theorem served_of_leads {m : Mission} {c : Model.ToolCall} {service : Log} {attended : Attended}
    (h : Leads (m.invoke c) service (.done attended)) (called answered : Timestamp) :
    ∃ course, (m.frame c called answered attended).Served m.setup.tools m.token service course
      attended.result := by
  unfold Mission.invoke at h
  cases hreach : m.setup.tools.reach c.name c.arguments with
  | error e =>
    rw [hreach] at h
    obtain ⟨rfl, hdone⟩ := leads_done h
    cases hdone
    exact ⟨[], .refused hreach⟩
  | ok t =>
    rw [hreach] at h
    obtain ⟨cancelled, rest, rfl, hrun⟩ := Registry.runsOnce_of_attend
      (c := ⟨c.name, c.arguments, ⟨m.identity, m.session, true⟩, m.token, some m.deadline⟩) h
    split at hrun
    · rename_i hlate
      obtain ⟨rfl, rfl⟩ := hrun
      obtain ⟨hyields, rfl⟩ := Bool.and_eq_true_iff.1 hlate
      exact ⟨[], .late hreach hyields⟩
    · rename_i hstart
      obtain ⟨course, hcourse, hpasses⟩ := hrun
      exact ⟨course, .run hreach (Bool.eq_false_iff.2 hstart) hcourse hpasses⟩

/-! ## Stretches -/

/-- A log in which every call of an identity in a session has a stretch to itself. -/
inductive Unfolds (setup : Setup) (token : Token) (i : Identity) (key : SessionKey) :
    Log → Prop where
  | nil : Unfolds setup token i key []
  | apart {x : interface.Inquiry} {log : Log} (hx : x.request.IsApart)
    (h : Unfolds setup token i key log) : Unfolds setup token i key (x :: log)
  | call {f : CallFrame} (hidentity : f.notice.identity = i) (hsession : f.notice.session = key)
    {service : Log} (hservice : ∀ x ∈ service, x.request.Serves fun _ => True)
    {course : ToolLog} {result : Tool.Result}
    (hserved : f.Served setup.tools token service course result) (hrecords : f.Records setup result)
    {log : Log} (h : Unfolds setup token i key log) :
    Unfolds setup token i key (f.opening ++ (service ++ (f.closing ++ log)))

variable {setup : Setup} {token : Token} {i : Identity} {key : SessionKey} {α β : Type}

theorem Unfolds.append {log log' : Log} (h : Unfolds setup token i key log)
    (h' : Unfolds setup token i key log') : Unfolds setup token i key (log ++ log') := by
  induction h with
  | nil => exact h'
  | apart hx _ ih => exact .apart hx ih
  | call hidentity hsession hservice hserved hrecords _ ih =>
    rw [List.append_assoc, List.append_assoc, List.append_assoc]
    exact .call hidentity hsession hservice hserved hrecords ih

theorem unfolds_of_isApart {log : Log} (h : ∀ x ∈ log, x.request.IsApart) :
    Unfolds setup token i key log := by
  induction log with
  | nil => exact .nil
  | cons x log ih =>
    obtain ⟨hx, hlog⟩ := List.forall_mem_cons.1 h
    exact .apart hx (ih hlog)

/-! ## The parts of a run -/

/-- The log of a part that comes to a value has a stretch for every call. -/
def Tidy (m : Mission) (x : Part α) : Prop :=
  ∀ log a, Leads x.run log (.done (.ok a)) → Unfolds m.setup m.token m.identity m.session log

section Parts

variable {m : Mission}

theorem Tidy.bind {x : Part α} {f : α → Part β} (hx : Tidy m x) (hf : ∀ a, Tidy m (f a)) :
    Tidy m (x >>= f) := by
  intro log b h
  obtain ⟨first, second, a, rfl, hfirst, hsecond⟩ := leads_run_bind h
  exact (hx first a hfirst).append (hf a second b hsecond)

theorem tidy_of_isApart {x : Part α} (h : x.run.AsksOnly Request.IsApart) : Tidy m x :=
  fun _ _ hlog => unfolds_of_isApart fun _ hx => h.of_mem hlog hx

theorem tidy_of_isWord {x : Part α} (h : x.run.AsksOnly (Request.IsWord m.session)) : Tidy m x :=
  tidy_of_isApart (h.mono fun _ hr => .inl hr.isPlain)

theorem consult_isApart (token : Token) (deadline : Option Nat) (request : Model.Request) :
    (consult token deadline request).AsksOnly Request.IsApart := by
  refine (consult_serves token deadline request).mono fun r hr => ?_
  rcases hr with hr | rfl
  · exact .inl hr.isPlain
  · exact .inr ⟨request, rfl⟩

/-- **A call has a stretch of the log to itself**, in which its handler is run. -/
theorem tidy_dispatch (c : Model.ToolCall) : Tidy m (m.dispatch c) := by
  intro log stop h
  obtain ⟨called, answered, attended, service, last, rfl, hservice, hlast⟩ := leads_dispatch h
  have hserves : ∀ x ∈ service, x.request.Serves fun _ => True :=
    fun _ hx => (invoke_serves m c).of_mem hservice hx
  obtain ⟨course, hserved⟩ := served_of_leads hservice called answered
  have hrecords : (m.frame c called answered attended).Records m.setup attended.result :=
    ⟨rfl, rfl, rfl⟩
  exact .call rfl rfl hserves hserved hrecords
    (tidy_of_isWord (verdict_isWord attended) last stop hlast)

theorem tidy_answer (text : String) : Tidy m (m.answer text) :=
  Mission.Compositional.answer (m := m) (s := m.setup)
    (R := fun _ x _ => Tidy m x)
    { alike := .refl _
      bind := Tidy.bind
      word := tidy_of_isWord
      consult := fun _ => tidy_of_isApart (asksOnly_run_lift (consult_isApart _ _ _))
      dispatch := tidy_dispatch } text

end Parts

/-! ## The whole run -/

/-- **In the log of a run every call has a stretch to itself**, in which its handler is run. -/
theorem run_unfolds {text : String} {log : Log} {o : Outcome}
    (h : Leads (run setup i text token) log (.done (.ok o))) :
    Unfolds setup token i o.session log := by
  obtain ⟨lock, inner, taken, freed, dropped, swept, rfl, hinner⟩ := leads_run h
  obtain ⟨key, start, middle, u, rfl, hmiddle⟩ := leads_runLocked hinner
  obtain ⟨-, -, -, -, -, -, -, -, hsession, -⟩ := answer_recounts hmiddle
  rw [hsession]
  have hanswer : Unfolds setup token i key middle := tidy_answer text middle o hmiddle
  have hended : Unfolds setup token i key [⟨.emit (.ended o.ending), u⟩] :=
    .apart (.inl trivial) .nil
  have hafter : Unfolds setup token i key
      [⟨.freeLock lock, freed⟩, ⟨.dropLock lock, dropped⟩, ⟨.sweepLock i, swept⟩] :=
    .apart (.inl trivial) (.apart (.inl trivial) (.apart (.inl trivial) .nil))
  have hresolved {log : Log} (hlog : Unfolds setup token i key log) : Unfolds setup token i key
      (⟨.store (.resolve i), (.ok key : Except Error SessionKey)⟩ :: log) :=
    .apart (.inl trivial) hlog
  have hworked := hresolved (.apart (x := ⟨.time, start⟩) (.inl trivial) (hanswer.append hended))
  exact .apart (.inl trivial) (.apart (.inl trivial) (hworked.append hafter))

end Parley.Agent
