import Parley.Proofs.Agent.Relay
import Parley.Proofs.Agent.Tracking

/-!
# What the bus delivers

Handling a message runs it and brings what the run has to say to the channels.  The requests of the
handler are those of the run, but for what the run emits: in place of an event that users get to see
its item is offered to a channel, and in place of any other event there is nothing (`Carried`).  So
the items are offered once each and in the order of the events, whatever the channels answer, and
the answers make no difference to anything but the counts (`leads_handle`).  In a world each item
goes to the channel that its own identity names (`World.brought_course`).
-/

namespace Parley.Agent

open Program

/-! ## Items and verdicts -/

/-- What a channel answers to an item. -/
abbrev Verdict := Except Error Unit

/-- The events that a run emits. -/
def emissions (log : Log) : List Event := log.filterMap emitted?

/-- What users get to see of some events. -/
def items (i : Identity) (events : List Event) : List Outbound :=
  events.filterMap (Event.toOutbound? i)

/-- An item that is offered to a channel, and what the channel answers. -/
def offer? : interface.Inquiry → Option (Outbound × Verdict)
  | ⟨.deliver o, verdict⟩ => some (o, verdict)
  | _ => none

/-- The items that are offered to channels, and the answers. -/
def offers (log : Log) : List (Outbound × Verdict) := log.filterMap offer?

variable {verdicts : List Verdict}

/-- How many items arrived. -/
def arrived (verdicts : List Verdict) : Nat := verdicts.countP (·.isOk)

/-- How many items did not. -/
def lost (verdicts : List Verdict) : Nat := verdicts.countP (!·.isOk)

theorem arrived_append (first second : List Verdict) :
    arrived (first ++ second) = arrived first + arrived second :=
  List.countP_append

theorem lost_append (first second : List Verdict) :
    lost (first ++ second) = lost first + lost second :=
  List.countP_append

theorem arrived_ok (u : Unit) : arrived (.ok u :: verdicts) = 1 + arrived verdicts := by
  rw [arrived, List.countP_cons_of_pos rfl, Nat.add_comm, arrived]

theorem lost_ok (u : Unit) : lost (.ok u :: verdicts) = lost verdicts :=
  List.countP_cons_of_neg Bool.false_ne_true

theorem arrived_error (e : Error) : arrived (.error e :: verdicts) = arrived verdicts :=
  List.countP_cons_of_neg Bool.false_ne_true

theorem lost_error (e : Error) : lost (.error e :: verdicts) = 1 + lost verdicts := by
  rw [lost, List.countP_cons_of_pos rfl, Nat.add_comm, lost]

theorem arrived_add_lost (verdicts : List Verdict) :
    arrived verdicts + lost verdicts = verdicts.length := by
  rw [arrived, lost, List.length_eq_countP_add_countP (fun v : Verdict => v.isOk)]
  congr 1
  exact List.countP_congr fun v _ => by simp

section Steps

variable {i : Identity} {x : interface.Inquiry} {log : Log} {e : Event} {o : Outbound}

theorem emissions_cons_of_none (h : emitted? x = none) (log : Log) :
    emissions (x :: log) = emissions log :=
  List.filterMap_cons_none h

theorem emissions_emit (e : Event) (u : Unit) (log : Log) :
    emissions (⟨.emit e, u⟩ :: log) = e :: emissions log := rfl

theorem eq_emit_of_emitted? (h : emitted? x = some e) : ∃ u : Unit, x = ⟨.emit e, u⟩ := by
  unfold emitted? at h
  split at h
  · cases h
    exact ⟨_, rfl⟩
  · cases h

theorem items_cons_of_none (h : e.toOutbound? i = none) (events : List Event) :
    items i (e :: events) = items i events :=
  List.filterMap_cons_none h

theorem items_cons_of_some (h : e.toOutbound? i = some o) (events : List Event) :
    items i (e :: events) = o :: items i events :=
  List.filterMap_cons_some h

theorem items_append (i : Identity) (first second : List Event) :
    items i (first ++ second) = items i first ++ items i second :=
  List.filterMap_append

theorem offers_cons_of_none (h : offer? x = none) (log : Log) : offers (x :: log) = offers log :=
  List.filterMap_cons_none h

theorem offers_append (first second : Log) :
    offers (first ++ second) = offers first ++ offers second :=
  List.filterMap_append

theorem offers_deliver (o : Outbound) (verdict : Verdict) (log : Log) :
    offers (⟨.deliver o, verdict⟩ :: log) = (o, verdict) :: offers log := rfl

end Steps

/-- A request that offers nothing to a channel. -/
def Request.DeliversNothing (r : Request) : Prop := ∀ o, r ≠ .deliver o

theorem offer?_eq_none {x : interface.Inquiry} (h : x.request.DeliversNothing) :
    offer? x = none := by
  obtain ⟨r, a⟩ := x
  cases r with
  | deliver o => exact absurd rfl (h o)
  | _ => rfl

/-- **A run delivers nothing by itself.** -/
theorem run_deliversNothing (setup : Setup) (i : Identity) (text : String) (token : Token) :
    (run setup i text token).AsksOnly Request.DeliversNothing := by
  refine (Stage.run_asksOnly setup i text token).mono fun r hr => ?_
  rintro o rfl
  rcases hr with (hr | ⟨key, hr⟩) | hr
  · cases hr
  · exact hr.elim
  · exact hr trivial

/-- Some items were offered, each once and in order, and the answers were counted. -/
structure Tallies (sent : List Outbound) (answered : List (Outbound × Verdict))
    (delivered failed : Nat) : Prop where
  offered : answered.map Prod.fst = sent
  delivered : delivered = arrived (answered.map Prod.snd)
  failed : failed = lost (answered.map Prod.snd)

/-- Each item either arrived or did not. -/
theorem Tallies.total {sent : List Outbound} {answered : List (Outbound × Verdict)}
    {delivered failed : Nat} (h : Tallies sent answered delivered failed) :
    delivered + failed = sent.length := by
  rw [h.delivered, h.failed, arrived_add_lost, ← h.offered, List.length_map, List.length_map]

theorem tallies_zip {sent : List Outbound} (h : verdicts.length = sent.length) :
    Tallies sent (sent.zip verdicts) (arrived verdicts) (lost verdicts) := by
  have hanswers : (sent.zip verdicts).map Prod.snd = verdicts := List.map_snd_zip (Nat.le_of_eq h)
  exact ⟨List.map_fst_zip (Nat.le_of_eq h.symm), by rw [hanswers], by rw [hanswers]⟩

/-! ## Logs that are carried out -/

variable {i : Identity} {α : Type} {p : Program interface α} {inner log : Log}

/-- The log of a run as its bus carries it out, with what the channels answer. -/
inductive Carried (i : Identity) : Log → List Verdict → Log → Prop where
  | nil : Carried i [] [] []
  | other {x : interface.Inquiry} (hemitted : emitted? x = none) (hoffer : offer? x = none)
    {inner log : Log} {verdicts : List Verdict} (h : Carried i inner verdicts log) :
    Carried i (x :: inner) verdicts (x :: log)
  /-- Nothing is made of an event that users do not get to see. -/
  | internal {e : Event} (u : Unit) (he : e.toOutbound? i = none) {inner log : Log}
    {verdicts : List Verdict} (h : Carried i inner verdicts log) :
    Carried i (⟨.emit e, u⟩ :: inner) verdicts log
  | offered {e : Event} (u : Unit) {o : Outbound} (he : e.toOutbound? i = some o)
    (verdict : Verdict) {inner log : Log} {verdicts : List Verdict}
    (h : Carried i inner verdicts log) :
    Carried i (⟨.emit e, u⟩ :: inner) (verdict :: verdicts) (⟨.deliver o, verdict⟩ :: log)

/-- **Each item is offered once, in the order of the events.** -/
theorem Carried.offers_eq (h : Carried i inner verdicts log) :
    verdicts.length = (items i (emissions inner)).length ∧
      offers log = (items i (emissions inner)).zip verdicts := by
  induction h with
  | nil => exact ⟨rfl, rfl⟩
  | other hemitted hoffer _ ih =>
    rw [offers_cons_of_none hoffer, emissions_cons_of_none hemitted]
    exact ih
  | internal u he _ ih =>
    rw [emissions_emit, items_cons_of_none he]
    exact ih
  | offered u he verdict _ ih =>
    obtain ⟨hlength, hoffers⟩ := ih
    rw [emissions_emit, items_cons_of_some he, offers_deliver, hoffers]
    exact ⟨congrArg (· + 1) hlength, rfl⟩

/-- **Channels may answer anything.** -/
theorem exists_carried (hinner : ∀ x ∈ inner, x.request.DeliversNothing)
    (hlength : verdicts.length = (items i (emissions inner)).length) :
    ∃ log, Carried i inner verdicts log := by
  induction inner generalizing verdicts with
  | nil =>
    rw [List.eq_nil_of_length_eq_zero hlength]
    exact ⟨[], .nil⟩
  | cons x inner ih =>
    obtain ⟨hx, hmore⟩ := List.forall_mem_cons.1 hinner
    cases hemitted : emitted? x with
    | none =>
      rw [emissions_cons_of_none hemitted] at hlength
      obtain ⟨log, hlog⟩ := ih hmore hlength
      exact ⟨x :: log, .other hemitted (offer?_eq_none hx) hlog⟩
    | some e =>
      obtain ⟨u, rfl⟩ := eq_emit_of_emitted? hemitted
      rw [emissions_emit] at hlength
      cases he : e.toOutbound? i with
      | none =>
        rw [items_cons_of_none he] at hlength
        obtain ⟨log, hlog⟩ := ih hmore hlength
        exact ⟨log, .internal u he hlog⟩
      | some o =>
        rw [items_cons_of_some he] at hlength
        obtain ⟨verdict, verdicts, rfl⟩ := List.exists_cons_of_length_eq_add_one hlength
        obtain ⟨log, hlog⟩ := ih hmore (Nat.succ.inj hlength)
        exact ⟨_, .offered u he verdict hlog⟩

/-! ## Handling a message -/

theorem leads_delivering {a : α} {delivered failed delivered' failed' : Nat}
    (hp : p.AsksOnly Request.DeliversNothing)
    (h : Leads (delivering i delivered failed p) log (.done (a, delivered', failed'))) :
    ∃ inner verdicts, Leads p inner (.done a) ∧ Carried i inner verdicts log ∧
      delivered' = delivered + arrived verdicts ∧ failed' = failed + lost verdicts := by
  induction p generalizing delivered failed log with
  | done b =>
    obtain ⟨rfl, hdone⟩ := leads_done h
    cases hdone
    exact ⟨[], [], .refl _, .nil, rfl, rfl⟩
  | ask r next ih =>
    cases r with
    | deliver o => exact absurd rfl (hp.1 o)
    | emit e =>
      rw [delivering] at h
      split at h
      · rename_i he
        obtain ⟨inner, verdicts, hinner, hcarried, hcounts⟩ := ih () (hp.2 ()) h
        exact ⟨_, verdicts, .step () hinner, .internal () he hcarried, hcounts⟩
      · rename_i o he
        obtain ⟨verdict, rest, rfl, hrest⟩ := leads_ask h
        cases (verdict : Verdict) with
        | ok u =>
          obtain ⟨inner, verdicts, hinner, hcarried, harrived, hlost⟩ := ih () (hp.2 ()) hrest
          refine ⟨_, _, .step () hinner, .offered () he (.ok u) hcarried, ?_, ?_⟩
          · rw [harrived, arrived_ok, Nat.add_assoc]
          · rw [hlost, lost_ok]
        | error e =>
          obtain ⟨inner, verdicts, hinner, hcarried, harrived, hlost⟩ := ih () (hp.2 ()) hrest
          refine ⟨_, _, .step () hinner, .offered () he (.error e) hcarried, ?_, ?_⟩
          · rw [harrived, arrived_error]
          · rw [hlost, lost_error, Nat.add_assoc]
    | _ =>
      obtain ⟨answer, rest, rfl, hrest⟩ := leads_ask h
      obtain ⟨inner, verdicts, hinner, hcarried, hcounts⟩ := ih answer (hp.2 answer) hrest
      exact ⟨_, verdicts, .step answer hinner, .other rfl rfl hcarried, hcounts⟩

theorem Carried.leads {a : α} (h : Carried i inner verdicts log)
    (hinner : Leads p inner (.done a)) (delivered failed : Nat) :
    Leads (delivering i delivered failed p) log
      (.done (a, delivered + arrived verdicts, failed + lost verdicts)) := by
  induction h generalizing p delivered failed with
  | nil =>
    cases hinner
    exact .refl _
  | @other x hemitted hoffer inner log verdicts _ ih =>
    cases hinner with
    | @step r next _ _ answer hrest =>
    cases r with
    | emit e => cases hemitted
    | _ => exact .step answer (ih hrest delivered failed)
  | internal u he _ ih =>
    cases hinner with
    | step _ hrest =>
    rw [delivering, he]
    exact ih hrest delivered failed
  | offered u he verdict _ ih =>
    cases hinner with
    | step _ hrest =>
    rw [delivering, he]
    cases verdict with
    | ok v =>
      rw [arrived_ok, lost_ok, ← Nat.add_assoc]
      exact .step _ (ih hrest (delivered + 1) failed)
    | error e =>
      rw [arrived_error, lost_error, ← Nat.add_assoc]
      exact .step _ (ih hrest delivered (failed + 1))

theorem handle_eq (setup : Setup) (m : Inbound) :
    handle setup m = .ask (.track m.identity) fun token =>
      delivering m.identity 0 0 (run setup m.identity m.prompt token) >>=
        Phase.untrack m.identity token := rfl

/-- Tracking offers nothing. -/
theorem offers_handled (i : Identity) (token : Token) (u v : Unit) (carried : Log) :
    offers (⟨.track i, token⟩ :: (carried ++
      [⟨.untrack i token, u⟩, ⟨.sweepTracked i, v⟩])) = offers carried := by
  rw [offers_cons_of_none rfl, offers_append]
  exact List.append_nil _

/-- **How a message is handled**: it is tracked, its run is carried out, and it is untracked. -/
theorem leads_handle {setup : Setup} {m : Inbound} {result : Except Error Dispatched} :
    Leads (handle setup m) log (.done result) ↔
      ∃ (token : Token) (inner carried : Log) (verdicts : List Verdict)
        (ran : Except Error Outcome) (u v : Unit),
        Leads (run setup m.identity m.prompt token) inner (.done ran) ∧
        Carried m.identity inner verdicts carried ∧
        log = ⟨.track m.identity, token⟩ :: (carried ++
          [⟨.untrack m.identity token, u⟩, ⟨.sweepTracked m.identity, v⟩]) ∧
        result = ran.map fun outcome => ⟨outcome, arrived verdicts, lost verdicts⟩ := by
  rw [handle_eq]
  constructor
  · intro h
    obtain ⟨token, rest, rfl, hrest⟩ := leads_ask h
    obtain ⟨carried, last, ⟨ran, delivered, failed⟩, rfl, hcarried, hlast⟩ :=
      leads_bind (f := Phase.untrack m.identity token) hrest
    obtain ⟨u, swept, rfl, hswept⟩ := leads_ask hlast
    obtain ⟨v, nothing, rfl, hend⟩ := leads_ask hswept
    obtain ⟨rfl, hdone⟩ := leads_done hend
    cases hdone
    obtain ⟨inner, verdicts, hinner, hcarries, rfl, rfl⟩ :=
      leads_delivering (run_deliversNothing _ _ _ _) hcarried
    refine ⟨token, inner, carried, verdicts, ran, u, v, hinner, hcarries, rfl, ?_⟩
    rw [Nat.zero_add, Nat.zero_add]
  · rintro ⟨token, inner, carried, verdicts, ran, u, v, hinner, hcarries, rfl, rfl⟩
    have hcarried := hcarries.leads hinner 0 0
    rw [Nat.zero_add, Nat.zero_add] at hcarried
    have hlast : Leads (Phase.untrack m.identity token (ran, arrived verdicts, lost verdicts))
        [⟨.untrack m.identity token, u⟩, ⟨.sweepTracked m.identity, v⟩]
        (.done (ran.map fun outcome => ⟨outcome, arrived verdicts, lost verdicts⟩)) :=
      .step (I := interface) (r := .untrack m.identity token) u
        (.step (I := interface) (r := .sweepTracked m.identity) v (.refl _))
    exact .step (I := interface) (r := .track m.identity) token (hcarried.bind hlast)

/-- **When a message is handled, the items of its run are offered and counted.** -/
theorem tallies_of_leads_handle {setup : Setup} {m : Inbound} {d : Dispatched}
    (h : Leads (handle setup m) log (.done (.ok d))) :
    ∃ token inner, Leads (run setup m.identity m.prompt token) inner (.done (.ok d.outcome)) ∧
      Tallies (items m.identity (emissions inner)) (offers log) d.delivered d.failed := by
  obtain ⟨token, inner, carried, verdicts, ran, u, v, hinner, hcarried, rfl, hresult⟩ :=
    leads_handle.1 h
  cases ran with
  | error e => cases hresult
  | ok outcome =>
    cases hresult
    obtain ⟨hlength, hoffers⟩ := hcarried.offers_eq
    rw [offers_handled, hoffers]
    exact ⟨token, inner, hinner, tallies_zip hlength⟩

/-- **Whatever the channels answer, the outcome is that of the run.** -/
theorem exists_leads_handle {setup : Setup} {m : Inbound} {token : Token} {outcome : Outcome}
    (h : Leads (run setup m.identity m.prompt token) inner (.done (.ok outcome)))
    (hlength : verdicts.length = (items m.identity (emissions inner)).length) :
    ∃ log, offers log = (items m.identity (emissions inner)).zip verdicts ∧
      Leads (handle setup m) log (.done (.ok ⟨outcome, arrived verdicts, lost verdicts⟩)) := by
  have hdelivers (x : interface.Inquiry) (hx : x ∈ inner) : x.request.DeliversNothing :=
    (run_deliversNothing setup m.identity m.prompt token).of_mem h hx
  obtain ⟨carried, hcarried⟩ := exists_carried hdelivers hlength
  refine ⟨_, ?_, leads_handle.2
    ⟨token, inner, carried, verdicts, .ok outcome, (), (), h, hcarried, rfl, rfl⟩⟩
  rw [offers_handled]
  exact hcarried.offers_eq.2

/-! ## In a world -/

namespace World

/-- What recording channels keep of some items. -/
def recorded (w : World) (sent : List Outbound) : List (String × Outbound) :=
  (sent.filter fun o => w.channels.get? o.identity.channel = some .recorder).map fun o =>
    (o.identity.channel, o)

/-- A world has the same channels as another, and what they have seen since are some items. -/
structure Brought (w : World) (sent : List Outbound) (w' : World) : Prop where
  channels : w'.channels = w.channels
  isHeard : w'.isHeard = w.isHeard
  seen : w'.seen = w.seen ++ w.recorded sent

variable {w w' w'' : World} {first second sent : List Outbound} {o : Outbound}

theorem recorded_append (w : World) (first second : List Outbound) :
    w.recorded (first ++ second) = w.recorded first ++ w.recorded second := by
  rw [recorded, List.filter_append, List.map_append]
  rfl

theorem recorded_of_recorder (h : w.channels.get? o.identity.channel = some .recorder) :
    w.recorded [o] = [(o.identity.channel, o)] :=
  congrArg (List.map _) (List.filter_cons_of_pos (a := o) (decide_eq_true h))

theorem recorded_of_ne_recorder (h : w.channels.get? o.identity.channel ≠ some .recorder) :
    w.recorded [o] = [] :=
  congrArg (List.map _) (List.filter_cons_of_neg (a := o) (by rwa [decide_eq_true_eq]))

theorem recorded_congr (h : w'.channels = w.channels) (sent : List Outbound) :
    w'.recorded sent = w.recorded sent := by
  rw [recorded, recorded, h]

theorem brought_nil (hchannels : w'.channels = w.channels) (hheard : w'.isHeard = w.isHeard)
    (hseen : w'.seen = w.seen) : w.Brought [] w' :=
  ⟨hchannels, hheard, hseen.trans (List.append_nil _).symm⟩

theorem Brought.trans (h : w.Brought first w') (h' : w'.Brought second w'') :
    w.Brought (first ++ second) w'' where
  channels := h'.channels.trans h.channels
  isHeard := h'.isHeard.trans h.isHeard
  seen := by
    rw [h'.seen, h.seen, recorded_congr h.channels, recorded_append, List.append_assoc]

/-- What a channel answers depends on the channels, and on whether clients listen. -/
theorem deliver_congr (hchannels : w'.channels = w.channels) (hheard : w'.isHeard = w.isHeard)
    (o : Outbound) : (w'.deliver o).1 = (w.deliver o).1 := by
  rw [deliver, deliver, hchannels]
  cases w.channels.get? o.identity.channel with
  | none => rfl
  | some c =>
    cases c with
    | gateway =>
      rw [announce, announce, hheard]
      cases w.isHeard <;> rfl
    | _ => rfl

/-- An answer to a request that delivers nothing brings nothing. -/
theorem Alters.brought {r : Request} (h : Alters r w w') (hr : r.DeliversNothing) :
    w.Brought [] w' :=
  brought_nil h.channels h.isHeard (h.seen hr)

theorem Brought.of_ne_recorder (h : w.Brought [] w')
    (hget : w.channels.get? o.identity.channel ≠ some .recorder) : w.Brought [o] w' where
  channels := h.channels
  isHeard := h.isHeard
  seen := by
    rw [recorded_of_ne_recorder hget]
    exact h.seen

/-- An item is kept if the channel of its own identity is a recording one. -/
theorem brought_deliver (w : World) (o : Outbound) : w.Brought [o] (w.deliver o).2 := by
  cases hget : w.channels.get? o.identity.channel with
  | none =>
    rw [deliver, hget]
    exact (brought_nil rfl rfl rfl).of_ne_recorder (by rw [hget]; decide)
  | some c =>
    cases c with
    | recorder =>
      rw [deliver, hget]
      exact ⟨rfl, rfl, by rw [recorded_of_recorder hget]⟩
    | failing =>
      rw [deliver, hget]
      exact (brought_nil rfl rfl rfl).of_ne_recorder (by rw [hget]; decide)
    | gateway =>
      have hpass : Request.pass.DeliversNothing := by
        intro o h
        cases h
      have hannounced := (alters_announce .pass w (.ofOutbound o)).brought hpass
      rw [deliver, hget]
      cases hannounce : w.announce (.ofOutbound o) with
      | mk heard w' =>
        rw [hannounce] at hannounced
        cases heard <;> exact hannounced.of_ne_recorder (by rw [hget]; decide)

/-- **What is offered goes to the channel of its own identity**, which answers and keeps it, or it
is not there. -/
theorem brought_answer? {r : Request} {a : r.Answer} (h : w.answer? r = some (a, w')) :
    w.Brought ((offers [⟨r, a⟩]).map Prod.fst) w' ∧
      ∀ x ∈ offers [⟨r, a⟩], x.2 = (w.deliver x.1).1 := by
  by_cases hr : ∃ o, r = .deliver o
  · obtain ⟨o, rfl⟩ := hr
    obtain ⟨rfl, rfl⟩ := Prod.mk.inj (Option.some.inj h)
    exact ⟨w.brought_deliver o, List.forall_mem_singleton.2 rfl⟩
  · have hr : Request.DeliversNothing r := fun o ho => hr ⟨o, ho⟩
    rw [offers_cons_of_none (offer?_eq_none hr)]
    exact ⟨(alters_of_answer? h).brought hr, List.forall_mem_nil _⟩

/-- So it is along a course, for the channels stay what they are. -/
theorem brought_course {α : Type} (n : Nat) (w : World) (p : Program interface α) :
    w.Brought ((offers (w.course n p).2.1).map Prod.fst) (w.course n p).1 ∧
      ∀ x ∈ offers (w.course n p).2.1, x.2 = (w.deliver x.1).1 := by
  have hstart : w.Brought ((offers []).map Prod.fst) w ∧
      ∀ x ∈ offers [], x.2 = (w.deliver x.1).1 :=
    ⟨brought_nil rfl rfl rfl, List.forall_mem_nil _⟩
  refine course_induction (P := fun w' log _ => w.Brought ((offers log).map Prod.fst) w' ∧
    ∀ x ∈ offers log, x.2 = (w.deliver x.1).1) (fun hanswer h => ?_) n hstart
  obtain ⟨hbrought, hverdicts⟩ := h
  obtain ⟨hnext, hverdict⟩ := brought_answer? hanswer
  rw [offers_append, List.map_append, List.forall_mem_append]
  exact ⟨hbrought.trans hnext, hverdicts, fun x hx =>
    (hverdict x hx).trans (deliver_congr hbrought.channels hbrought.isHeard x.1)⟩

/-- In a world the answers are those of the channels that the items name. -/
theorem offers_course {α : Type} {n : Nat} {p : Program interface α}
    (h : (offers (w.course n p).2.1).map Prod.fst = sent) :
    offers (w.course n p).2.1 = sent.map (fun o => (o, (w.deliver o).1)) ∧
      w.Brought sent (w.course n p).1 := by
  obtain ⟨hbrought, hverdicts⟩ := w.brought_course n p
  refine ⟨?_, h ▸ hbrought⟩
  rw [← h, List.map_map]
  exact (List.map_id' _).symm.trans
    (List.map_congr_left fun x hx => Prod.ext rfl (hverdicts x hx))

end World

end Parley.Agent
