import Parley.Proofs.Agent.Log

/-!
# What becomes of a handler

A handler under watch is a program that is asked for by another: its requests are passed on, what
it sends is emitted, and its rests become waits.  Whatever the surroundings answer, the requests
that were passed on are those of one course of the handler from its start, and the course ends
either at the handler's end, whose result is the result, or at a rest in which the handler was
given up, and then the result is that it was cancelled (`handles_of_watch`).

What is emitted for a handler are the messages that it sent in this course, in their order and each
once, also when its time is up (`Passes`).
-/

namespace Parley.Agent

open Program

/-- What a handler asked and was answered. -/
abbrev ToolLog := List Tool.interface.Inquiry

/-- The request of a handler that was passed on. -/
def handled? : interface.Inquiry → Option Tool.interface.Inquiry
  | ⟨.tool r, a⟩ => some ⟨r, a⟩
  | ⟨.emit (.message m), _⟩ => some ⟨.send m, true⟩
  | _ => none

/-- The requests of a handler other than its rests, which are not passed on. -/
def passed (course : ToolLog) : ToolLog :=
  course.filter fun x =>
    match x.request with
    | .rest _ => false
    | _ => true

/-- A course of a handler from its start, which came to its end with the result, or was given up
in a rest. -/
def Runs (p : Program Tool.interface Tool.Result) (course : ToolLog) (result : Tool.Result) :
    Prop :=
  ∃ q, Leads p course q ∧
    (q = .done result ∨ result = .cancelled ∧ ∃ ms next, q = .ask (.rest ms) next)

/-- The message that a handler sent, if somebody took it. -/
def posted? : Tool.interface.Inquiry → Option OutboundMessage
  | ⟨.send m, true⟩ => some m
  | _ => none

/-- The messages that a handler sent. -/
def posted (course : ToolLog) : List OutboundMessage := course.filterMap posted?

/-- The message that is emitted for a handler. -/
def message? : interface.Inquiry → Option OutboundMessage
  | ⟨.emit (.message m), _⟩ => some m
  | _ => none

/-- A log has the requests of a course of a handler in their order, and what was sent is emitted. -/
structure Passes (course : ToolLog) (log : Log) : Prop where
  requests : passed course = log.filterMap handled?
  messages : posted course = log.filterMap message?

/-- A log has the requests of one course of a handler. -/
def Handles (p : Program Tool.interface Tool.Result) (log : Log) (result : Tool.Result) : Prop :=
  ∃ course, Runs p course result ∧ Passes course log

/-- A log without requests of a handler emits no message. -/
theorem passes_nil {log : Log} (h : log.filterMap handled? = []) : Passes [] log := by
  refine ⟨h.symm, (List.filterMap_eq_nil_iff.2 fun x hx => ?_).symm⟩
  have hunhandled := List.filterMap_eq_nil_iff.1 h x hx
  obtain ⟨r, a⟩ := x
  cases r with
  | emit e => cases e <;> first | rfl | cases hunhandled
  | _ => rfl

namespace Handles

variable {log : Log} {result : Tool.Result}

theorem done (result : Tool.Result) : Handles (.done result) [] result :=
  ⟨[], ⟨_, .refl _, .inl rfl⟩, passes_nil rfl⟩

/-- A handler that was given up in a rest. -/
theorem given_up {ms : Nat} {next : Unit → Program Tool.interface Tool.Result}
    (h : log.filterMap handled? = []) : Handles (.ask (.rest ms) next) log .cancelled :=
  ⟨[], ⟨_, .refl _, .inr ⟨rfl, ms, next, rfl⟩⟩, passes_nil h⟩

/-- A handler that came to the end of a rest. -/
theorem rested {ms : Nat} {next : Unit → Program Tool.interface Tool.Result} (first : Log)
    (hfirst : first.filterMap handled? = []) (h : Handles (next ()) log result) :
    Handles (.ask (.rest ms) next) (first ++ log) result := by
  obtain ⟨course, ⟨q, hcourse, hend⟩, hpasses⟩ := h
  refine ⟨⟨.rest ms, ()⟩ :: course,
    ⟨q, .step (I := Tool.interface) (r := .rest ms) () hcourse, hend⟩, ?_, ?_⟩
  · rw [List.filterMap_append, hfirst, List.nil_append, ← hpasses.requests]
    rfl
  · rw [List.filterMap_append, ← (passes_nil hfirst).messages, ← hpasses.messages]
    rfl

/-- A request that was passed on. -/
theorem asked {r : Tool.Request} {a : r.Answer} {x : interface.Inquiry}
    {next : r.Answer → Program Tool.interface Tool.Result} (hrest : ∀ ms, r ≠ .rest ms)
    (hx : handled? x = some ⟨r, a⟩) (hmessage : message? x = posted? ⟨r, a⟩)
    (h : Handles (next a) log result) : Handles (.ask r next) (x :: log) result := by
  obtain ⟨course, ⟨q, hcourse, hend⟩, hpasses⟩ := h
  refine ⟨⟨r, a⟩ :: course, ⟨q, .step (I := Tool.interface) (r := r) a hcourse, hend⟩, ?_, ?_⟩
  · rw [List.filterMap_cons_some hx, ← hpasses.requests, passed, passed, List.filter_cons_of_pos]
    cases r <;> first | rfl | exact absurd rfl (hrest _)
  · rw [posted, List.filterMap_cons, List.filterMap_cons, hmessage, ← hpasses.messages]
    rfl

end Handles

theorem handles_of_indulge {limit : Nat} {p : Program Tool.interface Tool.Result} {log : Log}
    {a : Attended} (h : Leads (indulge limit p) log (.done a)) : Handles p log a.result := by
  induction p generalizing log with
  | done result =>
    obtain ⟨rfl, hdone⟩ := leads_done h
    cases hdone
    exact .done _
  | ask r next ih =>
    cases r with
    | rest ms =>
      obtain ⟨now, log, rfl, hnow⟩ := leads_ask h
      obtain ⟨awake, log, rfl, hawake⟩ := leads_ask hnow
      change Leads (if awake.due then _ else _) log _ at hawake
      split at hawake
      · exact .rested [⟨.time, now⟩, ⟨.wait _ _ _, awake⟩] rfl (ih () hawake)
      · obtain ⟨rfl, hdone⟩ := leads_done hawake
        cases hdone
        exact .given_up rfl
    | send message =>
      obtain ⟨answer, log, rfl, hnext⟩ := leads_ask h
      exact .asked nofun rfl rfl (ih true hnext)
    | _ =>
      obtain ⟨answer, log, rfl, hnext⟩ := leads_ask h
      exact .asked nofun rfl rfl (ih answer hnext)

/-- **A handler under watch is run once**, to its end or up to a rest in which it is given up. -/
theorem handles_of_watch {yields : Bool} {token : Token} {deadline : Option Nat}
    {p : Program Tool.interface Tool.Result} {log : Log} {a : Attended}
    (h : Leads (watch yields token deadline p) log (.done a)) : Handles p log a.result := by
  induction p generalizing log with
  | done result =>
    obtain ⟨rfl, hdone⟩ := leads_done h
    cases hdone
    exact .done _
  | ask r next ih =>
    cases r with
    | rest ms =>
      obtain ⟨start, log, rfl, hstart⟩ := leads_ask h
      obtain ⟨awake, log, rfl, hawake⟩ := leads_ask hstart
      change Leads (if yields && awake.cancelled then _ else _) log _ at hawake
      split at hawake
      · obtain ⟨rfl, hdone⟩ := leads_done hawake
        cases hdone
        exact .given_up rfl
      split at hawake
      · exact .rested [⟨.time, start⟩, ⟨.wait _ _ _, awake⟩] rfl (ih () hawake)
      split at hawake
      · obtain ⟨rfl, hdone⟩ := leads_done hawake
        cases hdone
        exact .given_up rfl
      -- the deadline passed, and a tool that does not yield has some time left
      obtain ⟨now, log, rfl, hnow⟩ := leads_ask hawake
      obtain ⟨late, log, rfl, hlate⟩ := leads_ask hnow
      change Leads (if late.due then _ else _) log _ at hlate
      split at hlate
      · exact .rested [⟨.time, start⟩, ⟨.wait _ _ _, awake⟩, ⟨.time, now⟩,
          ⟨.wait _ _ _, late⟩] rfl (handles_of_indulge hlate)
      · obtain ⟨rfl, hdone⟩ := leads_done hlate
        cases hdone
        exact .given_up rfl
    | send message =>
      obtain ⟨answer, log, rfl, hnext⟩ := leads_ask h
      exact .asked nofun rfl rfl (ih true hnext)
    | _ =>
      obtain ⟨answer, log, rfl, hnext⟩ := leads_ask h
      exact .asked nofun rfl rfl (ih answer hnext)

end Parley.Agent
