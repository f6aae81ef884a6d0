import Parley.Proofs.Agent.Relay

/-!
# How a run takes its leave

Others see that a run has ended by its last event, which says how (`farewell`).  Whatever the
store refuses on the way, a run that has its session comes to this event, and to no other of its
kind before (`answer_goesOn`).  Nothing is pending by then, also when an error ended the run in
the middle (`settles_answer`), so no message of a handler is shown after it.

The exception is a run whose session cannot be resolved.  It ends before it has said anything
(`run_ends_once`).
-/

namespace Parley.Agent

open Program

variable {m : Mission} {α β : Type} {trace : List Sight} {log first second : Log} {r : Relay}

/-! ## The end is not said before -/

/-- **While it answers, a run does not say that it has ended.** -/
theorem answer_goesOn (text : String) : (m.answer text).run.AsksOnly Request.GoesOn :=
  Mission.Grants.answer
    { word := Request.IsWord.goesOn
      served := Request.Serves.goesOn
      askModel := fun _ => nofun
      append := fun _ => nofun
      pass := nofun
      call := fun _ => nofun
      result := fun _ _ _ => nofun } text

/-- Others see the end of a run only when the run says so. -/
theorem events_of_goesOn (h : ∀ x ∈ own trace, x.request.GoesOn) :
    ∀ e, .ended e ∉ events trace := by
  intro e he
  obtain ⟨s, hs, hevent⟩ := List.mem_filterMap.1 he
  cases s with
  | taken | shown => cases hevent
  | asked x =>
    have hx : x.request.GoesOn := h x (List.mem_filterMap.2 ⟨_, hs, rfl⟩)
    obtain ⟨r, a⟩ := x
    cases r with
    | emit e' =>
      cases e' with
      | ended e' => exact hx e' rfl
      | _ => cases hevent
    | _ => cases hevent

/-! ## Nothing is pending at the end -/

/-- A log after which nothing is pending, if nothing was before. -/
def Delivers (log : Log) : Prop :=
  ∀ trace r, own trace = log → ({} : Relay).run? trace = some r → r = {}

/-- What is seen of a log after which nothing is pending, and what is seen of the rest. -/
theorem Delivers.split (hfirst : Delivers first) (hown : own trace = first ++ second)
    (h : ({} : Relay).run? trace = some r) :
    ∃ front back, trace = front ++ back ∧ own front = first ∧ own back = second ∧
      ({} : Relay).run? back = some r := by
  obtain ⟨front, back, rfl, hfront, hback⟩ := List.filterMap_eq_append_iff.1 hown
  rw [Relay.run?_append] at h
  obtain ⟨middle, hmiddle, hrest⟩ := Option.bind_eq_some_iff.1 h
  obtain rfl := hfirst front middle hfront hmiddle
  exact ⟨front, back, rfl, hfront, hback, hrest⟩

theorem Delivers.append (hfirst : Delivers first) (hsecond : Delivers second) :
    Delivers (first ++ second) := by
  intro trace r hown hrelay
  obtain ⟨_, back, -, -, hback, hrest⟩ := hfirst.split hown hrelay
  exact hsecond back r hback hrest

/-- When nothing is pending and nothing is sent, all that is seen is the log. -/
theorem eq_map_of_idle (h : ∀ x ∈ log, x.request.SendsNothing) (hown : own trace = log)
    (hrelay : ({} : Relay).run? trace = some r) : trace = log.map .asked ∧ r = {} := by
  obtain ⟨rest, rfl, hrest, hidle⟩ :=
    Relay.stretch_of_idle h (hown.trans (List.append_nil log).symm) hrelay
  obtain ⟨rfl, rfl⟩ := Relay.nil_of_idle hrest hidle
  exact ⟨List.append_nil _, rfl⟩

theorem delivers_of_sendsNothing (h : ∀ x ∈ log, x.request.SendsNothing) : Delivers log :=
  fun _ _ hown hrelay => (eq_map_of_idle h hown hrelay).2

/-- What was sent before the run let others go first is shown. -/
theorem delivers_of_pass {u : Unit} (h : Delivers log) : Delivers (first ++ ⟨.pass, u⟩ :: log) := by
  intro trace r hown hrelay
  obtain ⟨_, rest, -, -, hrest, -, hidle⟩ := Relay.stretch_of_pass hown hrelay
  exact h rest r hrest hidle

/-- After a part, whatever it came to, nothing is pending. -/
def Settles (x : Part α) : Prop := ∀ log result, Leads x.run log (.done result) → Delivers log

theorem Settles.bind {x : Part α} {f : α → Part β} (hx : Settles x) (hf : ∀ a, Settles (f a)) :
    Settles (x >>= f) := by
  intro log result h
  rcases leads_run_bind_cases h with ⟨first, second, a, rfl, hfirst, hsecond⟩ | ⟨e, -, hfirst⟩
  · exact (hx first _ hfirst).append (hf a second _ hsecond)
  · exact hx log _ hfirst

theorem settles_of_sendsNothing {x : Part α} (h : x.run.AsksOnly Request.SendsNothing) :
    Settles x :=
  fun _ _ hlog => delivers_of_sendsNothing fun _ hx => h.of_mem hlog hx

theorem settles_of_isWord {x : Part α} {key : SessionKey}
    (h : x.run.AsksOnly (Request.IsWord key)) : Settles x :=
  settles_of_sendsNothing (h.mono fun _ hr => Request.IsApart.sendsNothing (.inl hr.isPlain))

/-- A handler may leave messages pending; they are shown before the run goes on. -/
theorem settles_served {p : Program interface α} {f : α → Part β} (hf : ∀ a, Settles (f a)) :
    Settles (ExceptT.lift p >>= fun a => inquire .pass >>= fun _ => f a) := by
  intro log result h
  rcases leads_run_bind_cases h with ⟨service, rest, a, rfl, -, hrest⟩ | ⟨e, -, herror⟩
  · obtain ⟨u, last, rfl, hlast⟩ := leads_ask hrest
    exact delivers_of_pass (hf a last result hlast)
  · obtain ⟨a, ha, -⟩ := leads_run_lift_cases herror
    cases ha

/-- **After a call nothing is pending**, also when its result could not be recorded. -/
theorem settles_dispatch (c : Model.ToolCall) : Settles (m.dispatch c) := by
  refine .bind (settles_of_sendsNothing (inquire_asksOnly nofun)) fun _ => ?_
  refine .bind (settles_of_sendsNothing (record_asks nofun fun _ => nofun)) fun _ => ?_
  refine settles_served fun attended => ?_
  refine .bind (settles_of_sendsNothing (record_asks nofun fun _ => nofun)) fun _ => ?_
  refine .bind (settles_of_sendsNothing (inquire_asksOnly nofun)) fun _ => ?_
  exact settles_of_isWord (verdict_isWord attended)

theorem settles_answer (text : String) : Settles (m.answer text) :=
  Mission.Compositional.answer (m := m) (s := m.setup) (R := fun _ x _ => Settles x)
    { alike := .refl _
      bind := Settles.bind
      word := settles_of_isWord
      consult := fun _ => settles_of_sendsNothing
        (asksOnly_run_lift ((consult_isApart _ _ _).mono fun _ hr => hr.sendsNothing))
      dispatch := settles_dispatch } text

/-! ## The whole run -/

theorem resolved_append (first second : Log) :
    resolved (first ++ second) = resolved first ++ resolved second :=
  List.filterMap_append

theorem resolved_of_isFor {key : SessionKey} (h : ∀ x ∈ log, x.request.IsFor key) :
    resolved log = [] := by
  refine List.filterMap_eq_nil_iff.2 fun x hx => ?_
  have hx := h x hx
  obtain ⟨r, a⟩ := x
  cases r with
  | store r => cases r <;> first | exact hx.elim | rfl
  | _ => rfl

/-- **A run takes its leave once.**  Let messages be shown at any time after they were sent, as the
relay allows, and let the store refuse whatever it likes.  When a run has come to its result,
nothing is pending.  If its session was resolved, the last thing that others have seen of it is
how it ended, after the error if an error ended it, and they had not seen an end before.  If the
session was not resolved, the run failed, and others have seen nothing. -/
theorem run_ends_once {setup : Setup} {i : Identity} {text : String} {token : Token}
    {result : Except Error Outcome}
    (h : Leads (run setup i text token) (own trace) (.done result))
    (hrelay : ({} : Relay).run? trace = some r) :
    r = {} ∧
      ((∃ key before, resolved (own trace) = [(i, .ok key)] ∧
        events trace = before ++ farewell result ∧ ∀ e, .ended e ∉ before) ∨
      ∃ e, resolved (own trace) = [(i, .error e)] ∧ result = .error e ∧ events trace = []) := by
  obtain ⟨lock, inner, taken, freed, dropped, swept, hown, hinner⟩ := leads_run h
  let parting : Log := (farewell result).map fun e => ⟨.emit e, ()⟩
  let after : Log := [⟨.freeLock lock, freed⟩, ⟨.dropLock lock, dropped⟩, ⟨.sweepLock i, swept⟩]
  rcases leads_runLocked_cases hinner with
    ⟨key, start, middle, rfl, hmiddle⟩ | ⟨e, rfl, rfl⟩
  · let before : Log := [⟨.fetchLock i, lock⟩, ⟨.takeLock lock, taken⟩,
      ⟨.store (.resolve i), (.ok key : Except Error SessionKey)⟩, ⟨.time, start⟩]
    have hlog : own trace = before ++ (middle ++ (parting ++ after)) :=
      hown.trans (congrArg (before ++ ·) (List.append_assoc ..))
    have hbefore : ∀ x ∈ before, x.request.SendsNothing := by
      simp [before, Request.SendsNothing]
    have hquiet : ∀ x ∈ parting ++ after, x.request.SendsNothing := by
      cases result <;> simp [parting, after, farewell, Request.SendsNothing]
    obtain ⟨more, rfl, hmore, hidle⟩ := Relay.stretch_of_idle hbefore hlog hrelay
    obtain ⟨front, back, rfl, hfront, hback, hlast⟩ :=
      (settles_answer text middle result hmiddle).split hmore hidle
    obtain ⟨rfl, rfl⟩ := eq_map_of_idle hquiet hback hlast
    have hgoesOn : ∀ x ∈ own front, x.request.GoesOn := by
      rw [hfront]
      exact fun x hx => (answer_goesOn text).of_mem hmiddle hx
    have hfarewell : events ((parting ++ after).map .asked) = farewell result := by
      cases result <;> rfl
    have hresolved : resolved middle = [] :=
      resolved_of_isFor fun x hx => (answer_asksOnly text).of_mem hmiddle hx
    refine ⟨rfl, .inl ⟨key, events front, ?_, ?_, events_of_goesOn hgoesOn⟩⟩
    · have hrest : resolved (parting ++ after) = [] := by
        cases result <;> rfl
      rw [hlog, resolved_append, resolved_append, hresolved, hrest]
      rfl
    · rw [events_append, events_append, hfarewell]
      rfl
  · have hquiet : ∀ x ∈ own trace, x.request.SendsNothing := by
      rw [hown]
      simp [Request.SendsNothing]
    obtain ⟨htrace, rfl⟩ := eq_map_of_idle hquiet rfl hrelay
    refine ⟨rfl, .inr ⟨e, ?_, rfl, ?_⟩⟩
    · rw [hown]
      rfl
    · rw [htrace, hown]
      rfl

/-- A run whose message the directory of the session files refuses to take. -/
theorem run_ends_once_refused :
    let i : Identity := ⟨"cli", "local"⟩
    let p := run {} i "hello" 0
    let refusal (a : FileAction) : Option FileError :=
      if a = .append "cli_local.jsonl" then some .denied else none
    let w := { World.rehearsal [.text "hi"] with store := { disk := some { refusal } } }
    let trace := (w.course 50 p).2.1.flatMap Sight.atOnce
    let e := Error.file .denied
    Leads p (own trace) (.done (.error e)) ∧ ({} : Relay).run? trace = some {} ∧
      ∃ key before, resolved (own trace) = [(i, .ok key)] ∧
        events trace = before ++ [.error e.message, .ended .fatalError] ∧
        ∀ e, .ended e ∉ before := by
  intro i p refusal w trace e
  obtain ⟨hown, hrelay, hevents⟩ := atOnce_allowed (w.course 50 p).2.1
  have hlog : Leads p (own trace) (.done (.error e)) := by
    rw [show own trace = _ from hown]
    exact leads_of_error (by decide +kernel)
  have hseen : events trace ≠ [] := by
    rw [show events trace = _ from hevents]
    decide +kernel
  obtain ⟨-, hsession | ⟨_, -, -, hnothing⟩⟩ := run_ends_once hlog hrelay
  · exact ⟨hlog, hrelay, hsession⟩
  · exact absurd hnothing hseen

/-- A run that does not say that it has ended: a directory stands where the draft of its session's
file would be written, so the session cannot be made. -/
theorem ends_unannounced :
    let i : Identity := ⟨"cli", "local"⟩
    let p := run {} i "hello" 0
    let d : Directory := { entries := (Table.empty).set "cli_local.tmp" .directory }
    let w := { World.rehearsal [.text "hi"] with store := { disk := some d } }
    let trace := (w.course 50 p).2.1.flatMap Sight.atOnce
    Leads p (own trace) (.done (.error (.file .isDirectory))) ∧
      ({} : Relay).run? trace = some {} ∧ events trace = [] := by
  intro i p d w trace
  obtain ⟨hown, hrelay, hevents⟩ := atOnce_allowed (w.course 50 p).2.1
  refine ⟨?_, hrelay, hevents.trans (by decide +kernel)⟩
  rw [show own trace = _ from hown]
  exact leads_of_error (by decide +kernel)

end Parley.Agent
