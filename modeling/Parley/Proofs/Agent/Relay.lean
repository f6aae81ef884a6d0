import Parley.Proofs.Agent.Unfolding

/-!
# Messages that are relayed

A handler that sends a message does not show it to anybody.  It puts it into a mailbox that has
room for sixteen, and somebody else takes the messages out, one by one, and shows them.  Before
the result of the call is recorded, the run waits until the mailbox is empty and nothing is in
hand (`Request.pass`).  So what others see of a run is neither its log nor in the order of its log:
it is a trace of *sights*, in which messages are shown some time after they were sent.

## What is lost and what is not

The messages that were sent are those that were shown and those that are pending, in this order
(`pending_run?`).  While a handler is at work, and however it comes to its end, messages may be
pending; when the run goes on after it, none are.  A log of a run is a sequence of calls with
requests apart from calls between them (`Unfolds`), and the sights of a call stay together
(`run_relays`).

What was sent is what the handler of the call sent in its course (`CallFrame.Served.messages`), also
after the deadline, when a tool that does not yield has some time left.  So a message is not lost on
its way into the mailbox either.

A handler whose message has to wait for room is one that rests before it sends: if it is given up
there, the message was not sent.
-/

namespace Parley.Agent

open Program

/-! ## Sights -/

/-- What can be seen of a run and of the messages that its handlers send. -/
inductive Sight where
  /-- The run asks for something and is answered. -/
  | asked (x : interface.Inquiry)
  /-- A message is taken out of the mailbox. -/
  | taken
  /-- The message in hand is shown. -/
  | shown (m : OutboundMessage)

namespace Sight

/-- What the run asked for. -/
def own? : Sight → Option interface.Inquiry
  | asked x => some x
  | _ => none

/-- The message that a handler sends. -/
def sent? : Sight → Option OutboundMessage
  | asked x => message? x
  | _ => none

/-- The message that is shown. -/
def shown? : Sight → Option OutboundMessage
  | shown m => some m
  | _ => none

/-- The event that others see.  They do not see a message that is sent. -/
def event? : Sight → Option Event
  | asked ⟨.emit (.message _), _⟩ => none
  | asked ⟨.emit e, _⟩ => some e
  | shown m => some (.message m)
  | _ => none

end Sight

/-- The log of the run in a trace. -/
def own (trace : List Sight) : Log := trace.filterMap Sight.own?

/-- The messages that were sent. -/
def sent (trace : List Sight) : List OutboundMessage := trace.filterMap Sight.sent?

/-- The messages that were shown. -/
def shown (trace : List Sight) : List OutboundMessage := trace.filterMap Sight.shown?

/-- The events that others have seen. -/
def events (trace : List Sight) : List Event := trace.filterMap Sight.event?

/-! ## The relay -/

/-- The messages that are sent and not shown. -/
structure Relay where
  mailbox : List OutboundMessage := []
  /-- The message that was taken out. -/
  hand : Option OutboundMessage := none
  deriving DecidableEq

/-- A request that sends no message. -/
def Request.SendsNothing (r : Request) : Prop := ∀ m, r ≠ .emit (.message m)

theorem Sight.sent?_of_sendsNothing {x : interface.Inquiry} (h : x.request.SendsNothing) :
    (asked x).sent? = none := by
  obtain ⟨r, a⟩ := x
  cases r with
  | emit e => cases e <;> first | rfl | exact absurd rfl (h _)
  | _ => rfl

theorem Request.IsApart.sendsNothing {r : Request} (h : r.IsApart) : r.SendsNothing := by
  rintro m rfl
  rcases h with h | ⟨request, h⟩
  · exact h
  · cases h

theorem CallFrame.opening_sendsNothing (f : CallFrame) :
    ∀ x ∈ f.opening, x.request.SendsNothing :=
  List.forall_mem_cons.2 ⟨nofun, List.forall_mem_cons.2 ⟨nofun, List.forall_mem_singleton.2 nofun⟩⟩

theorem CallFrame.closing_sendsNothing (f : CallFrame) :
    ∀ x ∈ f.closing.tail, x.request.SendsNothing :=
  List.forall_mem_cons.2 ⟨nofun, List.forall_mem_cons.2 ⟨nofun, List.forall_mem_singleton.2 nofun⟩⟩

namespace Relay

/-- How many messages the mailbox has room for. -/
def room : Nat := 16

/-- The relay after a sight, if it allows it. -/
def step? (r : Relay) : Sight → Option Relay
  | .asked ⟨.emit (.message m), _⟩ =>
    if r.mailbox.length < room then some { r with mailbox := r.mailbox ++ [m] } else none
  | .asked ⟨.pass, _⟩ => if r.mailbox.isEmpty && r.hand.isNone then some r else none
  | .asked _ => some r
  | .taken =>
    match r.hand, r.mailbox with
    | none, m :: rest => some ⟨rest, some m⟩
    | _, _ => none
  | .shown m => if r.hand = some m then some { r with hand := none } else none

/-- The relay after a trace, if it allows it. -/
def run? (r : Relay) : List Sight → Option Relay
  | [] => some r
  | s :: trace => (r.step? s).bind (·.run? trace)

/-- The messages that wait to be shown, in order. -/
def pending (r : Relay) : List OutboundMessage := r.hand.toList ++ r.mailbox

variable {r r' : Relay} {s : Sight} {first second trace : List Sight} {log rest : Log}

theorem eq_empty_of_pending (h : r.pending = []) : r = {} := by
  obtain ⟨mailbox, hand⟩ := r
  obtain ⟨hhand, hmailbox⟩ := List.append_eq_nil_iff.1 h
  cases hand with
  | none =>
    cases hmailbox
    rfl
  | some m => cases hhand

/-- **A sight moves messages on and loses none.** -/
theorem pending_step? (h : r.step? s = some r') :
    r.pending ++ s.sent?.toList = s.shown?.toList ++ r'.pending := by
  obtain ⟨mailbox, hand⟩ := r
  cases s with
  | asked x =>
    obtain ⟨x, a⟩ := x
    cases x with
    | emit e =>
      cases e with
      | message m =>
        rw [step?] at h
        split at h
        · cases h
          exact List.append_assoc ..
        · cases h
      | _ =>
        cases h
        exact List.append_nil _
    | pass =>
      rw [step?] at h
      split at h
      · cases h
        exact List.append_nil _
      · cases h
    | _ =>
      cases h
      exact List.append_nil _
  | taken =>
    cases hand with
    | some m => cases h
    | none =>
      cases mailbox with
      | nil => cases h
      | cons m rest =>
        cases h
        exact List.append_nil _
  | shown m =>
    rw [step?] at h
    split at h
    · rename_i hm
      cases h
      rw [show hand = some m from hm]
      exact List.append_nil _
    · cases h

/-- **What was sent is what was shown and what is pending**, in this order. -/
theorem pending_run? (h : r.run? trace = some r') :
    r.pending ++ sent trace = shown trace ++ r'.pending := by
  induction trace generalizing r with
  | nil =>
    cases h
    exact List.append_nil _
  | cons s trace ih =>
    obtain ⟨next, hstep, hrest⟩ := Option.bind_eq_some_iff.1 h
    have hsent : sent (s :: trace) = s.sent?.toList ++ sent trace := by
      rw [sent, List.filterMap_cons]
      cases s.sent? <;> rfl
    have hshown : shown (s :: trace) = s.shown?.toList ++ shown trace := by
      rw [shown, List.filterMap_cons]
      cases s.shown? <;> rfl
    rw [hsent, hshown, ← List.append_assoc, pending_step? hstep, List.append_assoc, ih hrest,
      List.append_assoc]

theorem run?_append :
    r.run? (first ++ second) = (r.run? first).bind (·.run? second) := by
  induction first generalizing r with
  | nil => rfl
  | cons s first ih =>
    rw [List.cons_append, run?, run?, Option.bind_assoc]
    exact Option.bind_congr fun next _ => ih

/-! ## When nothing is pending -/

theorem step?_pass {u : Unit} (h : r.step? (.asked ⟨.pass, u⟩) = some r') : r = {} ∧ r' = {} := by
  change (if r.mailbox.isEmpty && r.hand.isNone then some r else none) = some r' at h
  split at h
  · rename_i hidle
    rw [Bool.and_eq_true, List.isEmpty_iff, Option.isNone_iff_eq_none] at hidle
    cases h
    have hempty : r = {} := eq_empty_of_pending (by rw [pending, hidle.1, hidle.2]; rfl)
    exact ⟨hempty, hempty⟩
  · cases h

/-- When nothing is pending, the next sight is what the run asks for next. -/
theorem asked_of_idle {x : interface.Inquiry} (hx : x.request.SendsNothing)
    (hown : own trace = x :: log) (h : ({} : Relay).run? trace = some r) :
    ∃ rest, trace = .asked x :: rest ∧ own rest = log ∧ ({} : Relay).run? rest = some r := by
  cases trace with
  | nil => cases hown
  | cons s rest =>
    obtain ⟨next, hstep, hrest⟩ := Option.bind_eq_some_iff.1 h
    cases s with
    | taken | shown => cases hstep
    | asked y =>
      obtain ⟨rfl, hrestown⟩ := List.cons.inj hown
      have hpending := pending_step? hstep
      rw [Sight.sent?_of_sendsNothing hx] at hpending
      rw [eq_empty_of_pending hpending.symm] at hrest
      exact ⟨rest, rfl, hrestown, hrest⟩

/-- When nothing is pending and nothing is sent, what is seen is what the run asks for. -/
theorem stretch_of_idle {stretch : Log} (hstretch : ∀ x ∈ stretch, x.request.SendsNothing)
    (hown : own trace = stretch ++ log) (h : ({} : Relay).run? trace = some r) :
    ∃ rest, trace = stretch.map .asked ++ rest ∧ own rest = log ∧
      ({} : Relay).run? rest = some r := by
  induction stretch generalizing trace with
  | nil => exact ⟨trace, rfl, hown, h⟩
  | cons x stretch ih =>
    obtain ⟨hx, hstretch⟩ := List.forall_mem_cons.1 hstretch
    obtain ⟨more, rfl, hown, hmore⟩ := asked_of_idle hx hown h
    obtain ⟨rest, rfl, hown, hrest⟩ := ih hstretch hown hmore
    exact ⟨rest, rfl, hown, hrest⟩

theorem nil_of_idle (hown : own trace = []) (h : ({} : Relay).run? trace = some r) :
    trace = [] ∧ r = {} := by
  cases trace with
  | nil =>
    cases h
    exact ⟨rfl, rfl⟩
  | cons s rest =>
    obtain ⟨next, hstep, -⟩ := Option.bind_eq_some_iff.1 h
    cases s with
    | taken | shown => cases hstep
    | asked x => cases hown

/-- Before the run goes on after a handler, everything that was sent is shown. -/
theorem stretch_of_pass {service : Log} {u : Unit}
    (hown : own trace = service ++ ⟨.pass, u⟩ :: log) (h : ({} : Relay).run? trace = some r) :
    ∃ first rest, trace = first ++ .asked ⟨.pass, u⟩ :: rest ∧ own first = service ∧
      own rest = log ∧ ({} : Relay).run? first = some {} ∧ ({} : Relay).run? rest = some r := by
  obtain ⟨front, back, rfl, hfront, hback⟩ := List.filterMap_eq_append_iff.1 hown
  obtain ⟨last, s, rest, rfl, hlast, hs, hrest⟩ := List.filterMap_eq_cons_iff.1 hback
  cases s with
  | taken | shown => cases hs
  | asked x =>
    cases hs
    rw [← List.append_assoc] at h ⊢
    rw [run?_append] at h
    obtain ⟨idle, hfirst, hpass⟩ := Option.bind_eq_some_iff.1 h
    obtain ⟨next, hstep, hnext⟩ := Option.bind_eq_some_iff.1 hpass
    obtain ⟨rfl, rfl⟩ := step?_pass hstep
    refine ⟨front ++ last, rest, rfl, ?_, hrest, hfirst, hnext⟩
    rw [own, List.filterMap_append, hfront, List.filterMap_eq_nil_iff.2 hlast, List.append_nil]

end Relay

/-! ## The sights of a run -/

/-- Whether an event is about a call. -/
def Event.isOfCall : Event → Bool
  | call _ | result .. | message _ => true
  | _ => false

/-- Whether a turn that was added is a call or a result. -/
def isOfCall : SessionKey × Role × Content → Bool
  | (_, _, .text _) => false
  | _ => true

/-- The events of a call: its announcement, the messages that its handler sent, its result. -/
def CallFrame.events (f : CallFrame) (messages : List OutboundMessage) : List Event :=
  .call f.notice :: messages.map .message ++ [.result f.notice.callId f.notice.name f.status]

/-- A trace in which calls, with the messages that their handlers sent, have stretches to
themselves.  In each the handler of the tool that the call reaches is run, and its messages are
shown, in the order in which it sent them; all are shown before the run goes on.  The result that is
recorded is the handler's. -/
inductive Displays (setup : Setup) (token : Token) (i : Identity) (key : SessionKey) :
    List (CallFrame × List OutboundMessage) → List Sight → Prop where
  | nil : Displays setup token i key [] []
  | apart {x : interface.Inquiry} {calls : List (CallFrame × List OutboundMessage)}
    {trace : List Sight} (hx : x.request.IsApart) (h : Displays setup token i key calls trace) :
    Displays setup token i key calls (.asked x :: trace)
  | call {f : CallFrame} (hidentity : f.notice.identity = i) (hsession : f.notice.session = key)
    {service : List Sight} (hservice : ∀ x ∈ own service, x.request.Serves fun _ => True)
    {course : ToolLog} {result : Tool.Result}
    (hserved : f.Served setup.tools token (own service) course result)
    (hrecords : f.Records setup result)
    (hsent : sent service = posted course) (hshown : shown service = posted course)
    (horder : ∀ first second, service = first ++ second → shown first <+: sent first)
    {calls : List (CallFrame × List OutboundMessage)} {trace : List Sight}
    (h : Displays setup token i key calls trace) :
    Displays setup token i key ((f, posted course) :: calls)
      (f.opening.map .asked ++ (service ++ (f.closing.map .asked ++ trace)))

variable {setup : Setup} {token : Token} {i : Identity} {key : SessionKey}

/-- What is sent is what is emitted for a handler. -/
theorem sent_eq_filterMap (trace : List Sight) : sent trace = (own trace).filterMap message? := by
  rw [sent, own, List.filterMap_filterMap]
  refine congrArg (List.filterMap · trace) (funext fun s => ?_)
  cases s <;> rfl

/-- **A log that unfolds in calls is displayed so.** -/
theorem displays_of_unfolds {log : Log} {trace : List Sight} {r : Relay}
    (h : Unfolds setup token i key log) (hown : own trace = log)
    (hrelay : ({} : Relay).run? trace = some r) :
    (∃ calls, Displays setup token i key calls trace) ∧ r = {} := by
  induction h generalizing trace with
  | nil =>
    obtain ⟨rfl, rfl⟩ := Relay.nil_of_idle hown hrelay
    exact ⟨⟨[], .nil⟩, rfl⟩
  | apart hx _ ih =>
    obtain ⟨rest, rfl, hown, hrest⟩ := Relay.asked_of_idle hx.sendsNothing hown hrelay
    obtain ⟨⟨calls, hcalls⟩, rfl⟩ := ih hown hrest
    exact ⟨⟨calls, .apart hx hcalls⟩, rfl⟩
  | @call f hidentity hsession service hservice course result hserved hrecords log _ ih =>
    obtain ⟨more, rfl, hown, hmore⟩ := Relay.stretch_of_idle f.opening_sendsNothing hown hrelay
    obtain ⟨first, back, rfl, rfl, hown, hfirst, hback⟩ := Relay.stretch_of_pass hown hmore
    obtain ⟨rest, rfl, hown, hrest⟩ :=
      Relay.stretch_of_idle f.closing_sendsNothing hown hback
    obtain ⟨⟨calls, hcalls⟩, rfl⟩ := ih hown hrest
    have hsent : sent first = posted course := (sent_eq_filterMap first).trans hserved.messages
    -- nothing is pending when the handler starts, nor when the run goes on
    have hshown : shown first = sent first :=
      (List.append_nil _).symm.trans (Relay.pending_run? hfirst).symm
    refine ⟨⟨_, .call hidentity hsession hservice hserved hrecords hsent (hshown.trans hsent) ?_
      hcalls⟩, rfl⟩
    rintro front last rfl
    rw [Relay.run?_append] at hfirst
    obtain ⟨middle, hfront, -⟩ := Option.bind_eq_some_iff.1 hfirst
    exact ⟨middle.pending, (Relay.pending_run? hfront).symm⟩

theorem events_append (first second : List Sight) :
    events (first ++ second) = events first ++ events second :=
  List.filterMap_append

/-- While a handler is served, others see its messages as they are shown, and nothing else. -/
theorem events_of_service {service : List Sight}
    (h : ∀ x ∈ own service, x.request.Serves fun _ => True) :
    events service = (shown service).map .message := by
  induction service with
  | nil => rfl
  | cons s service ih =>
    cases s with
    | taken => exact ih h
    | shown m => exact congrArg (Event.message m :: ·) (ih h)
    | asked x =>
      obtain ⟨hx, hservice⟩ := List.forall_mem_cons.1 h
      have hunseen : (Sight.asked x).event? = none := by
        obtain ⟨r, a⟩ := x
        cases r with
        | emit e => cases e <;> first | rfl | exact hx.elim
        | _ => rfl
      rw [events, List.filterMap_cons_none hunseen]
      exact ih hservice

/-- **What others see of calls**: of each in order its announcement, the messages that its handler
sent, and its result. -/
theorem events_of_displays {calls : List (CallFrame × List OutboundMessage)} {trace : List Sight}
    (h : Displays setup token i key calls trace) :
    (events trace).filter Event.isOfCall = calls.flatMap fun c => c.1.events c.2 := by
  induction h with
  | nil => rfl
  | @apart x calls trace hx _ ih =>
    have hother : ∀ e ∈ (Sight.asked x).event?, e.isOfCall = false := by
      obtain ⟨r, a⟩ := x
      rcases hx with hx | ⟨request, rfl⟩
      · cases r with
        | emit e => cases e <;> first | exact hx.elim | exact fun _ he => by cases he; rfl
        | _ => exact nofun
      · exact nofun
    rw [← ih, events, List.filterMap_cons]
    cases hevent : (Sight.asked x).event? with
    | none => rfl
    | some e =>
      have hfalse : ¬e.isOfCall = true := Bool.eq_false_iff.1 (hother e hevent)
      exact List.filter_cons_of_neg hfalse
  | @call f _ _ service hservice course _ _ _ _ hshown _ calls trace _ ih =>
    have hmessages : (events service).filter Event.isOfCall = (posted course).map .message := by
      rw [events_of_service hservice, hshown]
      exact List.filter_eq_self.2 fun _ he => by
        obtain ⟨m, -, rfl⟩ := List.mem_map.1 he
        rfl
    have hopening : (events (f.opening.map .asked)).filter Event.isOfCall = [.call f.notice] := rfl
    have hclosing : (events (f.closing.map .asked)).filter Event.isOfCall =
        [.result f.notice.callId f.notice.name f.status] := rfl
    rw [events_append, events_append, events_append, List.filter_append, List.filter_append,
      List.filter_append, ih, hopening, hmessages, hclosing, List.flatMap_cons, CallFrame.events,
      List.cons_append, List.cons_append, List.append_assoc]
    rfl

theorem own_map_asked (log : Log) : own (log.map .asked) = log := by
  rw [own, List.filterMap_map]
  exact List.filterMap_some

theorem own_append (first second : List Sight) : own (first ++ second) = own first ++ own second :=
  List.filterMap_append

theorem added_append (first second : Log) :
    added (first ++ second) = added first ++ added second :=
  List.filterMap_append

theorem isOfCall_of_isApart {x : interface.Inquiry} (hx : x.request.IsApart) :
    ∀ t ∈ added? x, isOfCall t = false := by
  intro t ht
  unfold added? at ht
  split at ht
  · rename_i key turn _
    cases ht
    rcases hx with hx | ⟨request, hx⟩
    · obtain ⟨role, content, now⟩ := turn
      cases content <;> first | rfl | cases hx
    · cases hx
  · cases ht

/-- The calls that were recorded, with their results. -/
theorem turns_of_displays {calls : List (CallFrame × List OutboundMessage)} {trace : List Sight}
    (h : Displays setup token i key calls trace) :
    (added (own trace)).filter isOfCall = calls.flatMap fun c => c.1.turns := by
  induction h with
  | nil => rfl
  | @apart x calls trace hx _ ih =>
    rw [← ih]
    show (added (x :: own trace)).filter isOfCall = _
    rw [added, List.filterMap_cons]
    cases hturn : added? x with
    | none => rfl
    | some t =>
      exact List.filter_cons_of_neg (Bool.eq_false_iff.1 (isOfCall_of_isApart hx t hturn))
  | @call f _ _ service hservice _ _ _ _ _ _ _ calls trace _ ih =>
    have hquiet : added (own service) = [] :=
      (show Tells key _ [] [] from
        tells_of_unread fun x hx => (hservice x hx).isAside.isUnread).added
    rw [own_append, own_append, own_append, own_map_asked, own_map_asked, added_append,
      added_append, added_append, hquiet, List.nil_append, List.filter_append, List.filter_append,
      ih]
    rfl

/-! ## Messages that are shown at once -/

/-- The event that a run emits. -/
def emitted? : interface.Inquiry → Option Event
  | ⟨.emit e, _⟩ => some e
  | _ => none

/-- The sights of a request whose message, if it sends one, is shown at once. -/
def Sight.atOnce (x : interface.Inquiry) : List Sight :=
  .asked x ::
    match (Sight.asked x).sent? with
    | some m => [.taken, .shown m]
    | none => []

theorem Relay.run?_atOnce (x : interface.Inquiry) :
    ({} : Relay).run? (Sight.atOnce x) = some {} := by
  obtain ⟨r, a⟩ := x
  cases r with
  | emit e =>
    cases e with
    | message m =>
      show (if some m = some m then some ({} : Relay) else none).bind some = some {}
      rw [if_pos rfl]
      rfl
    | _ => rfl
  | _ => rfl

/-- **Every log has a trace**: messages may be shown at once, and then others see the events as the
run emits them. -/
theorem atOnce_allowed (log : Log) :
    own (log.flatMap Sight.atOnce) = log ∧
      ({} : Relay).run? (log.flatMap Sight.atOnce) = some {} ∧
      events (log.flatMap Sight.atOnce) = log.filterMap emitted? := by
  induction log with
  | nil => exact ⟨rfl, rfl, rfl⟩
  | cons x log ih =>
    obtain ⟨hown, hrun, hevents⟩ := ih
    rw [List.flatMap_cons, own_append, Relay.run?_append, Relay.run?_atOnce, events_append, hown,
      hevents]
    obtain ⟨r, a⟩ := x
    cases r with
    | emit e => cases e <;> exact ⟨rfl, hrun, rfl⟩
    | _ => exact ⟨rfl, hrun, rfl⟩

/-! ## The whole run -/

/-- **The events about calls.**  Let messages be shown at any time after they were sent, as the
relay allows.  If a run comes to an outcome, its calls have stretches of the trace to themselves:
each is announced, recorded and only then served, by one run of the handler of the tool that it
reaches; the messages that this handler sent are shown in the order in which it sent them, all of
them and once, however it came to its end; and then its result is recorded and announced.  So the
events about calls are those of the calls that were recorded, one call after the other, and nothing
is pending in the end. -/
theorem run_relays {text : String} {trace : List Sight} {o : Outcome} {r : Relay}
    (h : Leads (run setup i text token) (own trace) (.done (.ok o)))
    (hrelay : ({} : Relay).run? trace = some r) :
    (∃ calls : List (CallFrame × List OutboundMessage),
      Displays setup token i o.session calls trace ∧
      (events trace).filter Event.isOfCall = (calls.flatMap fun c => c.1.events c.2) ∧
      (added (own trace)).filter isOfCall = calls.flatMap fun c => c.1.turns) ∧
    r = {} := by
  obtain ⟨⟨calls, hcalls⟩, hidle⟩ := displays_of_unfolds (run_unfolds h) rfl hrelay
  exact ⟨⟨calls, hcalls, events_of_displays hcalls, turns_of_displays hcalls⟩, hidle⟩

/-- A tool that does not yield, and sends a message before and after it rests. -/
def herald : Tool where
  name := "herald"
  description := ""
  schema := .null
  handler _ call := do
    let _ ← Tool.ask (.send ⟨call.identity, "one", [], none⟩)
    Tool.ask (.rest 1500)
    let _ ← Tool.ask (.send ⟨call.identity, "two", [], none⟩)
    .done (.text "told")
  yields := false

/-- **A message that is sent after the deadline** is shown, and both are shown before the result,
though late. -/
theorem run_relays_late :
    let i : Identity := ⟨"cli", "local"⟩
    let setup : Setup := { config := { timeoutMs := 1000 }, tools := ⟨[herald]⟩ }
    let p := run setup i "hello" 0
    let w := World.rehearsal [.calls "" [("herald", .obj [])]]
    let log := (w.courseThrough 50 [1000, 1500] p).2.1
    let atWork (x : interface.Inquiry) : Bool :=
      match x.request with
      | .pass => false
      | _ => true
    let one : OutboundMessage := ⟨i, "one", [], none⟩
    let two : OutboundMessage := ⟨i, "two", [], none⟩
    let trace := (log.takeWhile atWork).map .asked ++ [.taken, .shown one, .taken, .shown two] ++
      (log.dropWhile atWork).map .asked
    let o : Outcome := { session := ⟨"cli:local"⟩, ending := .timeout, iterations := 0 }
    let notice : CallNotice := ⟨i, o.session, "call_1_0", "herald", "[tool:herald]"⟩
    Leads p (own trace) (.done (.ok o)) ∧ ({} : Relay).run? trace = some {} ∧
      ∃ calls : List (CallFrame × List OutboundMessage), Displays setup 0 i o.session calls trace ∧
        (calls.flatMap fun c => c.1.events c.2) =
          [.call notice, .message one, .message two, .result "call_1_0" "herald" .ok] := by
  intro i setup p w log atWork one two trace o notice
  have hlog : Leads p log (.done (.ok o)) := by
    rw [← eq_done_of_value (show (w.courseThrough 50 [1000, 1500] p).2.2.value? = some o by
      decide +kernel)]
    exact leads_courseThrough 50 [1000, 1500] w p
  have hrelay : ({} : Relay).run? trace = some {} := by decide +kernel
  have hshown : (events trace).filter Event.isOfCall =
      [.call notice, .message one, .message two, .result "call_1_0" "herald" .ok] := by
    decide +kernel
  clear_value log atWork
  have hown : own trace = log := by
    show own (_ ++ _ ++ _) = log
    rw [own_append, own_append, own_map_asked, own_map_asked]
    exact (congrArg (· ++ log.dropWhile atWork) (List.append_nil _)).trans
      List.takeWhile_append_dropWhile
  rw [← hown] at hlog
  obtain ⟨⟨calls, hcalls, hevents, -⟩, -⟩ := run_relays hlog hrelay
  exact ⟨hlog, hrelay, calls, hcalls, hevents.symm.trans hshown⟩

end Parley.Agent
