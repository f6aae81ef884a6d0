import Parley.Agent.Run
import Parley.Agent.World
import Parley.Proofs.Courses

/-!
# The log of a run

A course of a run is a list of inquiries, its *log*.  Three things are read off it: the turns that
were added to sessions (`added`), the answers of the model (`answers`), and what the identity's
session was resolved to (`resolved`).  `Tells` says all three at once of a part of a run; logs of
parts in sequence are appended, and so is what they tell.

## What leaves no trace

A handler, whatever it does, only makes requests that neither the store's transcripts nor the
model get to see (`invoke_asksOnly`): of the sessions it reaches five requests, and none of them
adds a turn.  The same goes for listening to the model's answer.

## What asking the model comes to

The model is asked at most once, and a reply is the whole of its answer: a stream that was cut
short by a cancellation, a deadline or a failure makes no reply (`consult_tells`).
-/

namespace Parley.Agent

open Program

/-- What a run asked and was answered. -/
abbrev Log := List interface.Inquiry

/-! ## Reading a log -/

/-- The turn that was added to a session, without its time. -/
def added? : interface.Inquiry → Option (SessionKey × Role × Content)
  | ⟨.store (.append key t), .ok _⟩ => some (key, t.role, t.content)
  | _ => none

/-- The answer of the model. -/
def answer? : interface.Inquiry → Option (Except Model.Failure Model.Stream)
  | ⟨.askModel _, answer⟩ => some answer
  | _ => none

/-- An identity and the key that its session was resolved to. -/
def resolved? : interface.Inquiry → Option (Identity × Except Error SessionKey)
  | ⟨.store (.resolve i), key⟩ => some (i, key)
  | _ => none

/-- The turns that were added to sessions. -/
def added (log : Log) : List (SessionKey × Role × Content) := log.filterMap added?

/-- The answers of the model. -/
def answers (log : Log) : List (Except Model.Failure Model.Stream) := log.filterMap answer?

/-- What sessions were resolved to. -/
def resolved (log : Log) : List (Identity × Except Error SessionKey) := log.filterMap resolved?

/-- The reply that an answer of the model makes when it is heard to its end. -/
def replyOf (answer : Except Model.Failure Model.Stream) : Option Model.Reply :=
  match answer with
  | .ok stream => (Model.collectFrom {} stream.items).toOption
  | .error _ => none

/-- A log in which some turns were added to one session and the model gave some answers, after
the session was resolved. -/
structure Tells (key : SessionKey) (log : Log) (said : List (Role × Content))
    (heard : List (Except Model.Failure Model.Stream)) : Prop where
  added : added log = said.map (Prod.mk key)
  answers : answers log = heard
  resolved : resolved log = []

theorem Tells.append {key : SessionKey} {log log' : Log} {said said' : List (Role × Content)}
    {heard heard' : List (Except Model.Failure Model.Stream)} (h : Tells key log said heard)
    (h' : Tells key log' said' heard') :
    Tells key (log ++ log') (said ++ said') (heard ++ heard') where
  added := by rw [Agent.added, List.filterMap_append, List.map_append, ← h.added, ← h'.added]; rfl
  answers := by rw [Agent.answers, List.filterMap_append, ← h.answers, ← h'.answers]; rfl
  resolved := by
    have h₁ := h.resolved
    have h₂ := h'.resolved
    rw [Agent.resolved] at h₁ h₂ ⊢
    rw [List.filterMap_append, h₁, h₂, List.append_nil]

/-- First the model was heard, and then turns were added. -/
theorem Tells.answered {key : SessionKey} {log log' : Log} {said : List (Role × Content)}
    {heard : List (Except Model.Failure Model.Stream)} (h : Tells key log [] heard)
    (h' : Tells key log' said []) : Tells key (log ++ log') said heard := by
  have := h.append h'
  rwa [List.nil_append, List.append_nil] at this

/-! ## A program alone in a world -/

/-- A program after some answers of a world, the world then, and the log of it.  It stops early
when it is done or has to wait. -/
def World.course {α : Type} : Nat → World → Program interface α → World × Log × Program interface α
  | 0, w, p => (w, [], p)
  | _ + 1, w, .done a => (w, [], .done a)
  | n + 1, w, .ask r next =>
    match w.answer? r with
    | none => (w, [], .ask r next)
    | some (answer, w) =>
      let (w, log, q) := World.course n w (next answer)
      (w, ⟨r, answer⟩ :: log, q)

/-- A program after some answers of a world in which time passes up to given moments, one each time
that the program has to wait. -/
def World.courseThrough {α : Type} (n : Nat) :
    List Nat → World → Program interface α → World × Log × Program interface α
  | [], w, p => w.course n p
  | moment :: moments, w, p =>
    let (w, first, q) := w.course n p
    let (w, rest, q) := courseThrough n moments { w with time := moment } q
    (w, first ++ rest, q)

/-- A world in which nothing has happened, with a model that follows a script. -/
def World.rehearsal (lines : List Model.ScriptLine) : World :=
  { clock := ⟨0, 0⟩, provider := .script ⟨lines, none, []⟩ }

theorem leads_course {α : Type} (n : Nat) (w : World) (p : Program interface α) :
    Leads p (w.course n p).2.1 (w.course n p).2.2 := by
  induction n generalizing w p with
  | zero => exact .refl _
  | succ n ih =>
    cases p with
    | done a => exact .refl _
    | ask r next =>
      rw [World.course]
      split
      · exact .refl _
      · exact .step _ (ih _ _)

theorem leads_courseThrough {α : Type} (n : Nat) (moments : List Nat) (w : World)
    (p : Program interface α) :
    Leads p (w.courseThrough n moments p).2.1 (w.courseThrough n moments p).2.2 := by
  induction moments generalizing w p with
  | nil => exact leads_course n w p
  | cons moment moments ih => exact (leads_course n w p).trans (ih _ _)

/-- A program that comes to a value in a world. -/
theorem leads_of_value {ε α : Type} {n : Nat} {w : World} {p : Program interface (Except ε α)}
    {a : α} (h : (w.course n p).2.2.value? = some a) :
    Leads p (w.course n p).2.1 (.done (.ok a)) := by
  rw [← eq_done_of_value h]
  exact leads_course n w p

/-- A program that comes to an error in a world. -/
theorem leads_of_error {ε α : Type} {n : Nat} {w : World} {p : Program interface (Except ε α)}
    {e : ε} (h : (w.course n p).2.2.error? = some e) :
    Leads p (w.course n p).2.1 (.done (.error e)) := by
  rw [← eq_done_of_error h]
  exact leads_course n w p

/-! ## Requests that leave no trace in a session -/

/-- A request that neither the store nor the model gets to see. -/
def Request.IsUnread : Request → Prop
  | .store _ | .askModel _ => False
  | _ => True

/-- A request that a handler or a listener makes, which the locks do not get to see either. -/
def Request.IsAside : Request → Prop
  | .tool _ | .time | .wait .. | .isCancelled _ | .pass | .emit _ => True
  | _ => False

theorem Request.IsAside.isUnread {r : Request} (h : r.IsAside) : r.IsUnread := by
  cases r <;> first | exact h.elim | trivial

/-- A log of unread requests tells nothing. -/
theorem tells_of_unread {key : SessionKey} {log : Log}
    (h : ∀ x ∈ log, x.request.IsUnread) : Tells key log [] [] := by
  induction log with
  | nil => exact ⟨rfl, rfl, rfl⟩
  | cons x log ih =>
    have hx := h x List.mem_cons_self
    have hlog := ih fun y hy => h y (List.mem_cons_of_mem _ hy)
    have hone : Tells key [x] [] [] := by
      obtain ⟨r, a⟩ := x
      cases r <;> first | exact hx.elim | exact ⟨rfl, rfl, rfl⟩
    exact hone.append hlog

theorem tells_of_asksOnly {α : Type} {key : SessionKey} {p q : Program interface α} {log : Log}
    (hp : p.AsksOnly Request.IsAside) (h : Leads p log q) : Tells key log [] [] :=
  tells_of_unread fun _ hx => (hp.of_mem h hx).isUnread

theorem asksOnly_ask {P : Request → Prop} {r : Request} (h : P r) : (ask r).AsksOnly P :=
  ⟨h, fun _ => trivial⟩

/-! ## Handlers -/

/-- A request that is made for a handler whose own requests have a property. -/
def Request.Serves (P : Tool.Request → Prop) : Request → Prop
  | .tool r => P r
  | .emit (.message m) => P (.send m)
  | .time | .wait .. | .isCancelled _ => True
  | _ => False

theorem Request.Serves.mono {P Q : Tool.Request → Prop} {r : Request} (h : r.Serves P)
    (hPQ : ∀ t, P t → Q t) : r.Serves Q := by
  cases r with
  | tool t => exact hPQ t h
  | emit e =>
    cases e with
    | message m => exact hPQ (.send m) h
    | _ => exact h.elim
  | _ => exact h

theorem Request.Serves.isAside {P : Tool.Request → Prop} {r : Request} (h : r.Serves P) :
    r.IsAside := by
  cases r <;> first | exact h.elim | trivial

section Handlers

variable {P : Tool.Request → Prop} {p : Program Tool.interface Tool.Result}

theorem indulge_asksOnly (limit : Nat) (h : p.AsksOnly P) :
    (indulge limit p).AsksOnly (Request.Serves P) := by
  induction p with
  | done result => trivial
  | ask r next ih =>
    cases r with
    | rest ms =>
      refine ⟨trivial, fun now => ⟨trivial, fun awake => ?_⟩⟩
      show (if awake.due then _ else _ : Program interface Attended).AsksOnly _
      split
      · exact ih () (h.2 ())
      · trivial
    | send message => exact ⟨h.1, fun _ => ih true (h.2 true)⟩
    | _ => exact ⟨h.1, fun a => ih a (h.2 a)⟩

/-- What is asked for while a handler is watched is asked for by the handler, or is time. -/
theorem watch_asksOnly (yields : Bool) (token : Token) (deadline : Option Nat)
    (h : p.AsksOnly P) : (watch yields token deadline p).AsksOnly (Request.Serves P) := by
  induction p with
  | done result => trivial
  | ask r next ih =>
    cases r with
    | rest ms =>
      refine ⟨trivial, fun start => ⟨trivial, fun awake => ?_⟩⟩
      show (if yields && awake.cancelled then _ else _ : Program interface Attended).AsksOnly _
      split
      · trivial
      split
      · exact ih () (h.2 ())
      split
      · trivial
      refine ⟨trivial, fun now => ⟨trivial, fun late => ?_⟩⟩
      show (if late.due then _ else _ : Program interface Attended).AsksOnly _
      split
      · exact indulge_asksOnly _ (h.2 ())
      · trivial
    | send message => exact ⟨h.1, fun _ => ih true (h.2 true)⟩
    | _ => exact ⟨h.1, fun a => ih a (h.2 a)⟩

end Handlers

/-- **A tool that is run, whatever it does, asks for what handlers ask for.** -/
theorem invoke_serves (m : Mission) (c : Model.ToolCall) :
    (m.invoke c).AsksOnly (Request.Serves fun _ => True) := by
  unfold Mission.invoke
  split
  · trivial
  · refine ⟨trivial, fun cancelled => ?_⟩
    show (if _ then _ else _ : Program interface Attended).AsksOnly _
    split
    · trivial
    · exact watch_asksOnly _ _ _ (asksOnly_true _)

/-- **A tool, whatever it does, adds no turn and asks no model.** -/
theorem invoke_asksOnly (m : Mission) (c : Model.ToolCall) :
    (m.invoke c).AsksOnly Request.IsAside :=
  (invoke_serves m c).mono fun _ h => h.isAside

/-! ## Recording -/

theorem leads_inquire {r : Request} {a : r.Answer} {log : Log}
    (h : Leads (inquire r).run log (.done (.ok a))) : log = [⟨r, a⟩] :=
  leads_request (leads_run_lift h)

/-- Recording a turn asks for the time, and then adds the turn. -/
theorem leads_record {key : SessionKey} {turn : Timestamp → Turn} {log : Log} {u : Unit}
    (h : Leads (record key turn).run log (.done (.ok u))) :
    ∃ now : Timestamp, log = [⟨.tool .clock, now⟩,
      ⟨.store (.append key (turn now)), (.ok () : Except Error Unit)⟩] := by
  obtain ⟨first, second, now, rfl, hnow, hadd⟩ := leads_run_bind h
  have h₁ := leads_inquire hnow
  have h₂ := leads_request (I := interface) (r := Request.store (.append key (turn now))) hadd
  subst h₁ h₂
  exact ⟨now, rfl⟩

/-- Recording a turn adds it. -/
theorem record_tells {key : SessionKey} {turn : Timestamp → Turn} {role : Role}
    {content : Content} {log : Log} {u : Unit}
    (h : Leads (record key turn).run log (.done (.ok u)))
    (hrole : ∀ now, (turn now).role = role) (hcontent : ∀ now, (turn now).content = content) :
    Tells key log [(role, content)] [] := by
  obtain ⟨now, rfl⟩ := leads_record h
  refine ⟨?_, rfl, rfl⟩
  show [(key, (turn now).role, (turn now).content)] = _
  rw [hrole, hcontent]
  rfl

/-- Asking for something that leaves no trace. -/
theorem inquire_tells (key : SessionKey) {r : Request} {a : r.Answer} {log : Log}
    (hr : r.IsAside) (h : Leads (inquire r).run log (.done (.ok a))) : Tells key log [] [] :=
  tells_of_asksOnly (asksOnly_ask hr) (leads_run_lift h)

/-! ## Listening to the model -/

/-- Listening only takes time and heeds the token. -/
theorem listen_serves (token : Token) (deadline : Option Nat) (heard : Model.Accumulator)
    (stream : Model.Stream) :
    (listen token deadline heard stream).AsksOnly (Request.Serves fun _ => False) := by
  induction stream generalizing heard with
  | nil => exact ⟨trivial, fun _ => trivial⟩
  | cons beat rest ih =>
    cases beat with
    | wait ms =>
      refine ⟨trivial, fun now => ⟨trivial, fun awake => ?_⟩⟩
      show (if awake.expired then _ else _ : Program interface Asked).AsksOnly _
      split
      · trivial
      split
      · trivial
      · exact ih heard
    | item item =>
      refine ⟨trivial, fun (cancelled : Bool) => ?_⟩
      cases cancelled with
      | true => trivial
      | false =>
        cases item with
        | ok delta => exact ih _
        | error f => trivial
    | silence => exact ⟨trivial, fun _ => trivial⟩

theorem listen_asksOnly (token : Token) (deadline : Option Nat) (heard : Model.Accumulator)
    (stream : Model.Stream) : (listen token deadline heard stream).AsksOnly Request.IsAside :=
  (listen_serves token deadline heard stream).mono fun _ h => h.isAside

/-- Asking the model takes a request to it, and then listening. -/
theorem consult_serves (token : Token) (deadline : Option Nat) (request : Model.Request) :
    (consult token deadline request).AsksOnly fun r : Request =>
      r.Serves (fun _ => False) ∨ r = .askModel request := by
  refine ⟨.inl trivial, fun now => ⟨.inl trivial, fun awake => ?_⟩⟩
  show (if awake.expired then _ else _ : Program interface Asked).AsksOnly _
  split
  · trivial
  split
  · trivial
  refine ⟨.inr rfl, fun answer => ?_⟩
  cases answer with
  | error f => trivial
  | ok stream => exact (listen_serves token deadline {} stream).mono fun _ => .inl

/-- What listening can come to, given what the stream would make. -/
def Asked.IsOf (whole : Except Model.Failure Model.Reply) : Asked → Prop
  | .reply r => whole = .ok r
  | .failed _ => whole.toOption = none
  | .timeout | .cancelled => True

theorem isOf_of (whole : Except Model.Failure Model.Reply) : (Asked.of whole).IsOf whole := by
  cases whole with
  | ok r => rfl
  | error f => cases f <;> first | exact trivial | rfl

/-- A reply is all of the stream, and a failure is the stream's. -/
theorem listen_isOf {token : Token} {deadline : Option Nat} {heard : Model.Accumulator}
    {stream : Model.Stream} {log : Log} {asked : Asked}
    (h : Leads (listen token deadline heard stream) log (.done asked)) :
    asked.IsOf (Model.collectFrom heard stream.items) := by
  induction stream generalizing heard log with
  | nil =>
    obtain ⟨c, rest, -, hrest⟩ := leads_ask h
    obtain ⟨-, hdone⟩ := leads_done hrest
    cases hdone
    cases (c : Bool)
    · exact isOf_of _
    · trivial
  | cons beat rest ih =>
    cases beat with
    | wait ms =>
      obtain ⟨now, _, -, h₁⟩ := leads_ask h
      obtain ⟨awake, _, -, h₂⟩ := leads_ask h₁
      change Leads (if awake.expired then _ else _) _ _ at h₂
      split at h₂
      · cases (leads_done h₂).2
        trivial
      split at h₂
      · cases (leads_done h₂).2
        trivial
      · exact ih h₂
    | item item =>
      obtain ⟨c, _, -, h₁⟩ := leads_ask h
      cases (c : Bool) with
      | true =>
        cases (leads_done h₁).2
        trivial
      | false =>
        cases item with
        | ok delta => exact ih h₁
        | error f =>
          cases (leads_done h₁).2
          exact isOf_of (.error f)
    | silence =>
      obtain ⟨awake, _, -, h₁⟩ := leads_ask h
      cases (leads_done h₁).2
      show Asked.IsOf _ (if awake.expired then .timeout else .cancelled)
      split <;> trivial

/-- What asking the model can come to, given its answers: at most one. -/
def Asked.Fits (heard : List (Except Model.Failure Model.Stream)) : Asked → Prop
  | .reply r => heard.map replyOf = [some r]
  | .failed _ => heard.map replyOf = [none]
  | .timeout | .cancelled => heard.length ≤ 1

/-- **Asking the model adds no turn**, and a reply is the whole of the model's one answer. -/
theorem consult_tells (key : SessionKey) {token : Token} {deadline : Option Nat}
    {request : Model.Request} {log : Log} {asked : Asked}
    (h : Leads (consult token deadline request) log (.done asked)) :
    ∃ heard, Tells key log [] heard ∧ asked.Fits heard := by
  obtain ⟨now, log₁, rfl, h₁⟩ := leads_ask h
  obtain ⟨awake, log₂, rfl, h₂⟩ := leads_ask h₁
  have hbefore : Tells key [⟨.time, now⟩, ⟨.wait (some now) (some token) deadline, awake⟩] [] [] :=
    ⟨rfl, rfl, rfl⟩
  change Leads (if awake.expired then _ else _) _ _ at h₂
  split at h₂
  · obtain ⟨rfl, hdone⟩ := leads_done h₂
    cases hdone
    exact ⟨[], hbefore, Nat.zero_le _⟩
  split at h₂
  · obtain ⟨rfl, hdone⟩ := leads_done h₂
    cases hdone
    exact ⟨[], hbefore, Nat.zero_le _⟩
  obtain ⟨answer, log₃, rfl, h₃⟩ := leads_ask h₂
  have hasked : Tells key [⟨.askModel request, answer⟩] [] [answer] := ⟨rfl, rfl, rfl⟩
  cases answer with
  | error f =>
    obtain ⟨rfl, hdone⟩ := leads_done h₃
    cases hdone
    refine ⟨_, hbefore.append hasked, ?_⟩
    cases f <;> first | exact Nat.le_refl 1 | rfl
  | ok stream =>
    have hwhole := listen_isOf h₃
    have hrest : Tells key log₃ [] [] := tells_of_asksOnly (listen_asksOnly _ _ _ _) h₃
    refine ⟨_, hbefore.append (hasked.append hrest), ?_⟩
    cases asked with
    | reply r =>
      show [replyOf (.ok stream)] = [some r]
      rw [replyOf, show Model.collectFrom {} stream.items = .ok r from hwhole]
      rfl
    | failed f =>
      show [replyOf (.ok stream)] = [none]
      rw [replyOf, show (Model.collectFrom {} stream.items).toOption = none from hwhole]
    | timeout => exact Nat.le_refl 1
    | cancelled => exact Nat.le_refl 1

end Parley.Agent
