import Parley.Proofs.Agent.Delivery

/-!
# The run and its bus, side by side

A run does not wait until what it has to say is delivered.  Its events, and the messages that are
relayed for its handlers, are put into a queue with room for sixty-four; beside the run, the bus
takes them out one by one, offers what is made of them to the channels, and stops when the queue is
empty and nothing can come any more.  A `Pipe` is the state of all this, and a trace of `Motion`s is
one way in which the run, the relay and the bus take turns.

What every motion preserves is a balance (`Pipe.Moves`): what was owed and what came up is what was
offered and what is still owed, in this order; each channel was given its own items; and the counts
are those of the answers.  When the bus stops nothing is owed (`Pipe.Settled`), and until then
something can move, so that they never wait for each other (`Pipe.exists_step?`).  So whatever the
turns, what is offered is what handling the message offers (`handle_delivers_once`).
-/

namespace Parley.Agent

open Program

/-! ## Motions -/

/-- What can be seen of a run, its relay and its bus. -/
inductive Motion where
  /-- Something is seen of the run or the relay.  If that is an event, it is put into the queue. -/
  | seen (s : Sight)
  /-- The run has returned. -/
  | returned
  /-- An event is taken out of the queue. -/
  | received
  /-- The item in hand was offered to its channel, which has answered. -/
  | answered (o : Outbound) (verdict : Verdict)
  /-- Nothing can come any more, and the bus stops. -/
  | closed

namespace Motion

/-- What is seen of the run and the relay. -/
def sight? : Motion → Option Sight
  | seen s => some s
  | _ => none

/-- Whether the run asks for something. -/
def isOfRun : Motion → Bool
  | seen (.asked _) => true
  | _ => false

/-- The item that is offered, and the answer. -/
def offer? : Motion → Option (Outbound × Verdict)
  | answered o verdict => some (o, verdict)
  | _ => none

end Motion

/-- What is seen of the run and the relay in a trace. -/
def sights (trace : List Motion) : List Sight := trace.filterMap Motion.sight?

/-- The items that are offered in a trace, and the answers. -/
def offered (trace : List Motion) : List (Outbound × Verdict) := trace.filterMap Motion.offer?

theorem sights_append (first second : List Motion) :
    sights (first ++ second) = sights first ++ sights second :=
  List.filterMap_append

theorem offered_append (first second : List Motion) :
    offered (first ++ second) = offered first ++ offered second :=
  List.filterMap_append

theorem events_cons (s : Sight) (trace : List Sight) :
    events (s :: trace) = s.event?.toList ++ events trace := by
  rw [events, List.filterMap_cons]
  cases s.event? <;> rfl

/-- What the channels have been given, by name; there are no others. -/
abbrev Adapters := Table String (List Outbound)

/-- The state of a run's events on their way to the channels. -/
structure Pipe where
  adapters : Adapters
  relay : Relay := {}
  queue : List Event := []
  /-- The item that is being offered. -/
  hand : Option Outbound := none
  isRunning : Bool := true
  /-- Whether the bus has not stopped. -/
  isOpen : Bool := true
  delivered : Nat := 0
  failed : Nat := 0

namespace Pipe

/-- How many events the queue has room for. -/
def room : Nat := 64

/-- The pipe when the item in hand was answered. -/
def settle (l : Pipe) (o : Outbound) (verdict : Verdict) : Option Pipe :=
  let channel := o.identity.channel
  let counted : Pipe :=
    { l with hand := none
             delivered := l.delivered + arrived [verdict], failed := l.failed + lost [verdict] }
  match l.adapters.get? channel with
  | none => if verdict = .error (.channelNotFound channel) then some counted else none
  | some given => some { counted with adapters := l.adapters.set channel (given ++ [o]) }

/-- The pipe after a motion, if it allows it. -/
def step? (i : Identity) (l : Pipe) : Motion → Option Pipe
  | .seen s =>
    if s.own?.isSome && !l.isRunning then none
    else
      (l.relay.step? s).bind fun relay =>
        match s.event? with
        | none => some { l with relay }
        | some e =>
          if l.queue.length < room then some { l with relay, queue := l.queue ++ [e] } else none
  | .returned => if l.isRunning then some { l with isRunning := false } else none
  | .received =>
    match l.hand, l.queue with
    | none, e :: rest => some { l with queue := rest, hand := e.toOutbound? i }
    | _, _ => none
  | .answered o verdict => if l.hand = some o then l.settle o verdict else none
  | .closed =>
    if l.isOpen && !l.isRunning && l.relay = {} && l.queue.isEmpty && l.hand.isNone then
      some { l with isOpen := false }
    else none

/-- The pipe after a trace, if it allows it. -/
def run? (i : Identity) (l : Pipe) : List Motion → Option Pipe
  | [] => some l
  | m :: trace => (l.step? i m).bind (·.run? i trace)

/-- The items that were not offered yet. -/
def owed (i : Identity) (l : Pipe) : List Outbound := l.hand.toList ++ items i l.queue

/-! ## What motions preserve -/

/-- The items of a channel. -/
def ofChannel (channel : String) (sent : List Outbound) : List Outbound :=
  sent.filter (·.identity.channel = channel)

theorem ofChannel_append (channel : String) (first second : List Outbound) :
    ofChannel channel (first ++ second) = ofChannel channel first ++ ofChannel channel second :=
  List.filter_append ..

theorem ofChannel_self (o : Outbound) : ofChannel o.identity.channel [o] = [o] :=
  List.filter_cons_of_pos (decide_eq_true rfl)

theorem ofChannel_of_ne {o : Outbound} {channel : String} (h : o.identity.channel ≠ channel) :
    ofChannel channel [o] = [] :=
  List.filter_cons_of_neg (by rwa [decide_eq_true_eq])

/-- A channel that is missing cannot answer anything else. -/
def Allows (adapters : Adapters) (o : Outbound) (verdict : Verdict) : Prop :=
  adapters.get? o.identity.channel = none →
    verdict = .error (.channelNotFound o.identity.channel)

/-- **How a pipe moves along a trace.** -/
structure Moves (i : Identity) (l : Pipe) (trace : List Motion) (l' : Pipe) : Prop where
  relay : l.relay.run? (sights trace) = some l'.relay
  /-- Nothing is lost, and the order stays. -/
  owed : l.owed i ++ items i (events (sights trace)) =
    (offered trace).map Prod.fst ++ l'.owed i
  /-- Each channel is given its own items. -/
  given : ∀ channel, l'.adapters.get? channel =
    (l.adapters.get? channel).map (· ++ ofChannel channel ((offered trace).map Prod.fst))
  allowed : ∀ x ∈ offered trace, Allows l.adapters x.1 x.2
  delivered : l'.delivered = l.delivered + arrived ((offered trace).map Prod.snd)
  failed : l'.failed = l.failed + lost ((offered trace).map Prod.snd)

variable {i : Identity} {l l' l'' : Pipe} {m : Motion} {first second trace : List Motion}

theorem Moves.refl (i : Identity) (l : Pipe) : Moves i l [] l where
  relay := rfl
  owed := List.append_nil _
  given channel := by
    show _ = (l.adapters.get? channel).map (· ++ [])
    simp only [List.append_nil, Option.map_id']
  allowed := nofun
  delivered := rfl
  failed := rfl

theorem Moves.trans (h : Moves i l first l') (h' : Moves i l' second l'') :
    Moves i l (first ++ second) l'' where
  relay := by
    rw [sights_append, Relay.run?_append, h.relay]
    exact h'.relay
  owed := by
    rw [sights_append, events_append, items_append, ← List.append_assoc, h.owed, List.append_assoc,
      h'.owed, offered_append, List.map_append, List.append_assoc]
  given channel := by
    rw [h'.given, h.given, Option.map_map, offered_append, List.map_append, ofChannel_append]
    exact Option.map_congr fun _ _ => List.append_assoc ..
  allowed := by
    rw [offered_append]
    refine List.forall_mem_append.2 ⟨h.allowed, fun x hx hmissing => h'.allowed x hx ?_⟩
    rw [h.given, hmissing]
    rfl
  delivered := by
    rw [h'.delivered, h.delivered, offered_append, List.map_append, arrived_append, Nat.add_assoc]
  failed := by
    rw [h'.failed, h.failed, offered_append, List.map_append, lost_append, Nat.add_assoc]

/-- A motion that offers nothing and sees nothing moves what is owed and nothing else. -/
theorem moves_of_silent (hsight : m.sight? = none) (hoffer : m.offer? = none)
    (hadapters : l'.adapters = l.adapters) (hrelay : l'.relay = l.relay)
    (howed : l'.owed i = l.owed i) (hdelivered : l'.delivered = l.delivered)
    (hfailed : l'.failed = l.failed) : Moves i l [m] l' := by
  have hsights : sights [m] = [] := List.filterMap_cons_none hsight
  have hoffered : offered [m] = [] := List.filterMap_cons_none hoffer
  constructor
  · rw [hsights, hrelay]
    rfl
  · rw [hsights, hoffered, howed]
    exact List.append_nil _
  · intro channel
    rw [hoffered, hadapters]
    exact (Moves.refl i l).given channel
  · rw [hoffered]
    exact nofun
  · rw [hoffered]
    exact hdelivered
  · rw [hoffered]
    exact hfailed

/-- An event that is seen is owed. -/
theorem moves_of_seen {s : Sight} (h : l.step? i (.seen s) = some l') :
    Moves i l [.seen s] l' := by
  rw [step?] at h
  split at h
  · cases h
  obtain ⟨relay, hrelay, hnext⟩ := Option.bind_eq_some_iff.1 h
  have hrun : l.relay.run? (sights [.seen s]) = some relay := by
    show (l.relay.step? s).bind some = some relay
    rw [hrelay]
    rfl
  have hevents : events (sights [.seen s]) = s.event?.toList :=
    (events_cons s []).trans (List.append_nil _)
  cases hevent : s.event? with
  | none =>
    rw [hevent] at hnext hevents
    cases hnext
    exact ⟨hrun, by rw [hevents]; exact List.append_nil _, (Moves.refl i l).given, nofun, rfl, rfl⟩
  | some e =>
    rw [hevent] at hnext hevents
    dsimp only at hnext
    split at hnext
    · cases hnext
      refine ⟨hrun, ?_, (Moves.refl i l).given, nofun, rfl, rfl⟩
      show _ = l.hand.toList ++ items i (l.queue ++ [e])
      rw [hevents, owed, items_append, ← List.append_assoc]
      rfl
    · cases hnext

/-- What is taken out of the queue is still owed, if anything is made of it. -/
theorem owed_received {e : Event} {rest : List Event} (l : Pipe) (hhand : l.hand = none)
    (hqueue : l.queue = e :: rest) :
    ({ l with queue := rest, hand := e.toOutbound? i } : Pipe).owed i = l.owed i := by
  rw [owed, owed, hhand, hqueue]
  cases he : e.toOutbound? i with
  | none =>
    rw [items_cons_of_none he]
  | some o =>
    rw [items_cons_of_some he]
    rfl

/-- What was offered is owed no longer, and its channel has it. -/
theorem moves_of_answered {o : Outbound} {verdict : Verdict}
    (h : l.step? i (.answered o verdict) = some l') : Moves i l [.answered o verdict] l' := by
  rw [step?] at h
  split at h
  case isFalse => cases h
  rename_i hhand
  have howed : l.owed i ++ [] = [o] ++ items i l.queue := by
    rw [List.append_nil, owed, hhand]
    rfl
  rw [settle] at h
  cases hget : l.adapters.get? o.identity.channel with
  | none =>
    rw [hget] at h
    dsimp only at h
    split at h
    · rename_i hverdict
      cases h
      refine ⟨rfl, howed, fun channel => ?_, List.forall_mem_singleton.2 fun _ => hverdict, rfl,
        rfl⟩
      show l.adapters.get? channel = (l.adapters.get? channel).map (· ++ ofChannel channel [o])
      by_cases hchannel : o.identity.channel = channel
      · rw [← hchannel, hget]
        rfl
      · simp only [ofChannel_of_ne hchannel, List.append_nil, Option.map_id']
    · cases h
  | some given =>
    rw [hget] at h
    cases h
    refine ⟨rfl, howed, fun channel => ?_, List.forall_mem_singleton.2 fun hmissing => ?_, rfl,
      rfl⟩
    · show (l.adapters.set o.identity.channel (given ++ [o])).get? channel =
        (l.adapters.get? channel).map (· ++ ofChannel channel [o])
      rw [Table.get?_set]
      by_cases hchannel : o.identity.channel = channel
      · rw [if_pos hchannel.symm, ← hchannel, hget, ofChannel_self]
        rfl
      · rw [if_neg (Ne.symm hchannel)]
        simp only [ofChannel_of_ne hchannel, List.append_nil, Option.map_id']
    · rw [hget] at hmissing
      cases hmissing

/-- **Every motion keeps the balance.** -/
theorem moves_of_step? (h : l.step? i m = some l') : Moves i l [m] l' := by
  cases m with
  | seen s => exact moves_of_seen h
  | answered o verdict => exact moves_of_answered h
  | returned =>
    rw [step?] at h
    split at h
    · cases h
      exact moves_of_silent rfl rfl rfl rfl rfl rfl rfl
    · cases h
  | received =>
    rw [step?] at h
    split at h
    · rename_i e rest hhand hqueue
      cases h
      exact moves_of_silent rfl rfl rfl rfl (owed_received _ hhand hqueue) rfl rfl
    · cases h
  | closed =>
    rw [step?] at h
    split at h
    · cases h
      exact moves_of_silent rfl rfl rfl rfl rfl rfl rfl
    · cases h

/-- **Every trace keeps the balance.** -/
theorem moves_of_run? (h : l.run? i trace = some l') : Moves i l trace l' := by
  induction trace generalizing l with
  | nil =>
    cases h
    exact .refl i _
  | cons m trace ih =>
    obtain ⟨next, hstep, hrest⟩ := Option.bind_eq_some_iff.1 h
    exact (moves_of_step? hstep).trans (ih hrest)

/-! ## When the bus stops -/

/-- Nothing can come any more, and nothing is left. -/
structure Settled (l : Pipe) : Prop where
  returned : l.isRunning = false
  relay : l.relay = {}
  queue : l.queue = []
  hand : l.hand = none

/-- **A pipe on which nothing is left stands still**, when the bus has stopped. -/
theorem Settled.step?_eq_none (h : l.Settled) (hstopped : l.isOpen = false) (m : Motion) :
    l.step? i m = none := by
  obtain ⟨hreturned, hrelay, hqueue, hhand⟩ := h
  cases m with
  | seen s =>
    rw [step?, hreturned, hrelay]
    cases s <;> rfl
  | returned => rw [step?, hreturned, if_neg Bool.false_ne_true]
  | received => rw [step?, hqueue, hhand]
  | answered o verdict => rw [step?, hhand, if_neg nofun]
  | closed =>
    rw [step?, hstopped]
    rfl

theorem settle_isOpen {o : Outbound} {verdict : Verdict} (h : l.settle o verdict = some l') :
    l'.isOpen = l.isOpen := by
  rw [settle] at h
  dsimp only at h
  split at h
  · split at h
    · cases h
      rfl
    · cases h
  · cases h
    rfl

/-- The bus stops when nothing is left, and goes on otherwise. -/
theorem isOpen_of_step? (h : l.step? i m = some l') : l'.isOpen = l.isOpen ∨ l'.Settled := by
  cases m with
  | seen s =>
    rw [step?] at h
    split at h
    · cases h
    obtain ⟨relay, -, hnext⟩ := Option.bind_eq_some_iff.1 h
    split at hnext
    · cases hnext
      exact .inl rfl
    · split at hnext
      · cases hnext
        exact .inl rfl
      · cases hnext
  | returned =>
    rw [step?] at h
    split at h
    · cases h
      exact .inl rfl
    · cases h
  | received =>
    rw [step?] at h
    split at h
    · cases h
      exact .inl rfl
    · cases h
  | answered o verdict =>
    rw [step?] at h
    split at h
    · exact .inl (settle_isOpen h)
    · cases h
  | closed =>
    rw [step?] at h
    split at h
    · rename_i hidle
      simp only [Bool.and_eq_true, Bool.not_eq_true', decide_eq_true_eq, List.isEmpty_iff,
        Option.isNone_iff_eq_none] at hidle
      obtain ⟨⟨⟨⟨-, hreturned⟩, hrelay⟩, hqueue⟩, hhand⟩ := hidle
      cases h
      exact .inr ⟨hreturned, hrelay, hqueue, hhand⟩
    · cases h

/-- **The bus does not stop before everything is offered.** -/
theorem settled_of_run? (hopen : l.isOpen = false → l.Settled) (h : l.run? i trace = some l')
    (hstopped : l'.isOpen = false) : l'.Settled := by
  induction trace generalizing l with
  | nil =>
    cases h
    exact hopen hstopped
  | cons m trace ih =>
    obtain ⟨next, hstep, hrest⟩ := Option.bind_eq_some_iff.1 h
    refine ih (fun hnext => ?_) hrest
    rcases isOpen_of_step? hstep with hsame | hsettled
    · have hclosed := hsame.symm.trans hnext
      rw [(hopen hclosed).step?_eq_none hclosed] at hstep
      cases hstep
    · exact hsettled

/-! ## That it goes on -/

/-- Whatever a channel answers, if it is there, the pipe goes on. -/
theorem exists_settle {o : Outbound} {verdict : Verdict} (h : Allows l.adapters o verdict) :
    ∃ l', l.settle o verdict = some l' ∧ l'.relay = l.relay ∧ l'.queue = l.queue ∧
      l'.hand = none ∧ l'.isRunning = l.isRunning ∧ l'.isOpen = l.isOpen := by
  rw [settle]
  cases hget : l.adapters.get? o.identity.channel with
  | none =>
    dsimp only
    rw [if_pos (h hget)]
    exact ⟨_, rfl, rfl, rfl, rfl, rfl, rfl⟩
  | some given => exact ⟨_, rfl, rfl, rfl, rfl, rfl, rfl⟩

/-- Every item can be answered. -/
theorem exists_allows (adapters : Adapters) (o : Outbound) : ∃ verdict, Allows adapters o verdict :=
  ⟨.error (.channelNotFound o.identity.channel), fun _ => rfl⟩

/-- While there is room, what is seen of the run or the relay is put into the queue. -/
theorem step?_seen {s : Sight} {relay : Relay} (hrunning : s.own?.isSome → l.isRunning)
    (hroom : l.queue.length < room) (hrelay : l.relay.step? s = some relay) :
    l.step? i (.seen s) = some { l with relay, queue := l.queue ++ s.event?.toList } := by
  have hallowed : ¬ (s.own?.isSome && !l.isRunning) = true := by
    rw [Bool.and_eq_true, Bool.not_eq_true']
    rintro ⟨hown, hreturned⟩
    rw [hrunning hown] at hreturned
    cases hreturned
  rw [step?, if_neg hallowed, hrelay, Option.bind_some]
  cases s.event? with
  | none =>
    rw [Option.toList_none, List.append_nil]
  | some e =>
    dsimp only
    rw [if_pos hroom]
    rfl

theorem step?_received {e : Event} {rest : List Event} (hhand : l.hand = none)
    (hqueue : l.queue = e :: rest) :
    l.step? i .received = some { l with queue := rest, hand := e.toOutbound? i } := by
  rw [step?, hhand, hqueue]

theorem step?_answered {o : Outbound} (verdict : Verdict) (hhand : l.hand = some o) :
    l.step? i (.answered o verdict) = l.settle o verdict :=
  if_pos hhand

theorem step?_closed (hopen : l.isOpen) (h : l.Settled) :
    l.step? i .closed = some { l with isOpen := false } := by
  rw [step?, hopen, h.returned, h.relay, h.queue, h.hand]
  rfl

/-- When nothing is pending, a run may ask for anything. -/
theorem relay_step?_of_idle (x : interface.Inquiry) :
    ∃ r : Relay, ({} : Relay).step? (.asked x) = some r := by
  obtain ⟨r, a⟩ := x
  cases r with
  | emit e => cases e <;> exact ⟨_, rfl⟩
  | _ => exact ⟨_, rfl⟩

/-- A relay on which something is pending can move by itself. -/
theorem relay_step?_of_pending {r : Relay} (h : r ≠ {}) :
    ∃ s r', s.own? = none ∧ r.step? s = some r' := by
  obtain ⟨mailbox, held⟩ := r
  cases held with
  | some message => exact ⟨.shown message, _, rfl, if_pos rfl⟩
  | none =>
    cases mailbox with
    | cons message rest => exact ⟨.taken, _, rfl, rfl⟩
    | nil => exact absurd rfl h

/-- **The pipe never gets stuck**: as long as the bus has not stopped, something other than the run
can move, or else the run has not returned and whatever it asks for next is allowed. -/
theorem exists_step? (i : Identity) (hopen : l.isOpen) :
    (∃ m l', m.isOfRun = false ∧ l.step? i m = some l') ∨
      l.isRunning ∧ ∀ x, ∃ l', l.step? i (.seen (.asked x)) = some l' := by
  cases hhand : l.hand with
  | some o =>
    obtain ⟨verdict, hallows⟩ := exists_allows l.adapters o
    obtain ⟨l', hsettle, -⟩ := exists_settle hallows
    exact .inl ⟨.answered o verdict, l', rfl, (step?_answered verdict hhand).trans hsettle⟩
  | none =>
  cases hqueue : l.queue with
  | cons e rest => exact .inl ⟨.received, _, rfl, step?_received hhand hqueue⟩
  | nil =>
  have hroom : l.queue.length < room := by
    rw [hqueue]
    decide
  by_cases hrelay : l.relay = {}
  · cases hrunning : l.isRunning with
    | false => exact .inl ⟨.closed, _, rfl, step?_closed hopen ⟨hrunning, hrelay, hqueue, hhand⟩⟩
    | true =>
      refine .inr ⟨rfl, fun x => ?_⟩
      obtain ⟨relay, hstep⟩ := relay_step?_of_idle x
      exact ⟨_, step?_seen (fun _ => hrunning) hroom (hrelay ▸ hstep)⟩
  · obtain ⟨s, relay, hown, hstep⟩ := relay_step?_of_pending hrelay
    have hrunning : s.own?.isSome → l.isRunning := by
      rw [hown]
      exact nofun
    refine .inl ⟨.seen s, _, ?_, step?_seen hrunning hroom hstep⟩
    cases s with
    | asked x => cases hown
    | _ => rfl

/-! ## That there are traces -/

/-- A pipe on which nothing is under way beside the run and its relay. -/
structure Clear (l : Pipe) : Prop where
  running : l.isRunning
  opened : l.isOpen
  queue : l.queue = []
  hand : l.hand = none

/-- The answers are possible where some channels are missing. -/
def AllowsAll (adapters : Adapters) (verdicts : List Verdict) (sent : List Outbound) : Prop :=
  List.Forall₂ (fun verdict o => Allows adapters o verdict) verdicts sent

theorem run?_append : l.run? i (first ++ second) = (l.run? i first).bind (·.run? i second) := by
  induction first generalizing l with
  | nil => rfl
  | cons m first ih =>
    rw [List.cons_append, run?, run?, Option.bind_assoc]
    exact Option.bind_congr fun next _ => ih

/-- Missing channels stay missing, and there are no others. -/
theorem Moves.allowsAll (h : Moves i l trace l') {verdicts : List Verdict} {sent : List Outbound}
    (hall : AllowsAll l.adapters verdicts sent) : AllowsAll l'.adapters verdicts sent := by
  refine hall.imp fun verdict o hallows hmissing => hallows ?_
  rw [h.given] at hmissing
  exact Option.map_eq_none_iff.1 hmissing

/-- What is seen may be delivered at once, with any answers. -/
theorem exists_run?_of_sight {s : Sight} {relay : Relay} {verdicts : List Verdict}
    (hclear : l.Clear) (hrelay : l.relay.step? s = some relay)
    (hall : AllowsAll l.adapters verdicts (items i s.event?.toList)) :
    ∃ trace l', sights trace = [s] ∧ (offered trace).map Prod.snd = verdicts ∧
      l.run? i trace = some l' ∧ l'.Clear ∧ l'.relay = relay := by
  obtain ⟨hrunning, hopen, hqueue, hhand⟩ := hclear
  have hroom : l.queue.length < room := by
    rw [hqueue]
    decide
  have hseen := step?_seen (i := i) (fun _ => hrunning) hroom hrelay
  rw [hqueue, List.nil_append] at hseen
  cases hevent : s.event? with
  | none =>
    rw [hevent] at hseen hall
    cases List.forall₂_nil_right_iff.1 hall
    exact ⟨[.seen s], { l with relay, queue := [] }, rfl, rfl, congrArg (Option.bind · some) hseen,
      ⟨hrunning, hopen, rfl, hhand⟩, rfl⟩
  | some e =>
    rw [hevent, Option.toList_some] at hseen hall
    have hreceived := step?_received (i := i) (l := { l with relay, queue := [e] }) hhand rfl
    cases he : e.toOutbound? i with
    | none =>
      rw [items_cons_of_none he] at hall
      cases List.forall₂_nil_right_iff.1 hall
      refine ⟨[.seen s, .received], { l with relay, queue := [], hand := none }, rfl, rfl, ?_,
        ⟨hrunning, hopen, rfl, rfl⟩, rfl⟩
      rw [he] at hreceived
      rw [run?, hseen]
      exact congrArg (Option.bind · some) hreceived
    | some o =>
      rw [items_cons_of_some he] at hall
      obtain ⟨verdict, none, hallows, hnone, rfl⟩ := List.forall₂_cons_right_iff.1 hall
      cases List.forall₂_nil_right_iff.1 hnone
      rw [he] at hreceived
      obtain ⟨l', hsettle, hrelay', hqueue', hhand', hrunning', hopen'⟩ :=
        exists_settle (l := { l with relay, queue := [], hand := some o }) hallows
      refine ⟨[.seen s, .received, .answered o verdict], l', rfl, rfl, ?_,
        ⟨hrunning'.trans hrunning, hopen'.trans hopen, hqueue', hhand'⟩, hrelay'⟩
      rw [run?, hseen]
      show (Pipe.step? i _ .received).bind _ = _
      rw [hreceived]
      show (Pipe.step? i _ (.answered o verdict)).bind _ = _
      rw [step?_answered verdict rfl]
      exact congrArg (Option.bind · some) hsettle

/-- **Whatever is seen of a run can be delivered**, whatever the channels answer. -/
theorem exists_run? {seen : List Sight} {relay : Relay} {verdicts : List Verdict}
    (hclear : l.Clear) (hrelay : l.relay.run? seen = some relay)
    (hall : AllowsAll l.adapters verdicts (items i (events seen))) :
    ∃ trace l', sights trace = seen ∧ (offered trace).map Prod.snd = verdicts ∧
      l.run? i trace = some l' ∧ l'.Clear ∧ l'.relay = relay := by
  induction seen generalizing l verdicts with
  | nil =>
    cases hrelay
    cases List.forall₂_nil_right_iff.1 hall
    exact ⟨[], l, rfl, rfl, rfl, hclear, rfl⟩
  | cons s seen ih =>
    obtain ⟨next, hstep, hrest⟩ := Option.bind_eq_some_iff.1 hrelay
    rw [events_cons, items_append] at hall
    obtain ⟨first, l', hfirst, hverdicts, hrun, hclear', rfl⟩ :=
      exists_run?_of_sight hclear hstep (List.forall₂_take_append _ _ _ hall)
    obtain ⟨second, l'', hsecond, hverdicts', hrun', hclear'', rfl⟩ :=
      ih hclear' hrest ((moves_of_run? hrun).allowsAll (List.forall₂_drop_append _ _ _ hall))
    refine ⟨first ++ second, l'', ?_, ?_, ?_, hclear'', rfl⟩
    · rw [sights_append, hfirst, hsecond]
      rfl
    · rw [offered_append, List.map_append, hverdicts, hverdicts', List.take_append_drop]
    · rw [run?_append, hrun]
      exact hrun'

/-- When nothing is under way and the run returns, the bus may stop. -/
theorem Clear.exists_close (h : l.Clear) (i : Identity) (hrelay : l.relay = {}) :
    ∃ l', l.run? i [.returned, .closed] = some l' ∧ l'.isOpen = false := by
  have hreturned : l.step? i .returned = some { l with isRunning := false } := if_pos h.running
  refine ⟨{ l with isRunning := false, isOpen := false }, ?_, rfl⟩
  rw [run?, hreturned]
  exact congrArg (Option.bind · some) (step?_closed (l := { l with isRunning := false }) h.opened
    ⟨rfl, hrelay, h.queue, h.hand⟩)

end Pipe

/-! ## The events that others see -/

/-- Where nothing is sent, others see the events as the run emits them. -/
theorem events_map_asked {log : Log} (h : ∀ x ∈ log, x.request.SendsNothing) :
    events (log.map .asked) = emissions log := by
  rw [events, List.filterMap_map]
  refine List.filterMap_congr fun x hx => ?_
  obtain ⟨r, a⟩ := x
  cases r with
  | emit e =>
    cases e with
    | message m => exact absurd rfl (h _ hx m)
    | _ => rfl
  | _ => rfl

/-- All that a handler emits are the messages that it sends. -/
theorem emissions_of_service {service : List Sight}
    (h : ∀ x ∈ own service, x.request.Serves fun _ => True) :
    emissions (own service) = (sent service).map .message := by
  induction service with
  | nil => rfl
  | cons s service ih =>
    cases s with
    | taken | shown m => exact ih h
    | asked x =>
      obtain ⟨hx, hservice⟩ := List.forall_mem_cons.1 h
      obtain ⟨r, a⟩ := x
      cases r with
      | emit e =>
        cases e with
        | message m => exact congrArg (Event.message m :: ·) (ih hservice)
        | _ => exact hx.elim
      | _ => exact ih hservice

/-- **Others see the events in the order in which they are emitted**, late or not: a message is
shown before the run emits anything else. -/
theorem events_eq_emissions {setup : Setup} {token : Token} {i : Identity} {key : SessionKey}
    {calls : List (CallFrame × List OutboundMessage)} {trace : List Sight}
    (h : Displays setup token i key calls trace) : events trace = emissions (own trace) := by
  have happend (first second : Log) :
      emissions (first ++ second) = emissions first ++ emissions second := List.filterMap_append
  induction h with
  | nil => rfl
  | @apart x calls trace hx _ ih =>
    have hseen := events_map_asked (List.forall_mem_singleton.2 hx.sendsNothing)
    show events ([x].map .asked ++ trace) = emissions ([x] ++ own trace)
    rw [events_append, happend, hseen, ih]
  | @call f _ _ service hservice _ _ _ _ hsent hshown _ calls trace _ ih =>
    have hopening : events (f.opening.map .asked) = emissions f.opening := rfl
    have hclosing : events (f.closing.map .asked) = emissions f.closing := rfl
    have hserved : events service = emissions (own service) := by
      rw [events_of_service hservice, emissions_of_service hservice, hshown, hsent]
    rw [events_append, events_append, events_append, own_append, own_append, own_append,
      own_map_asked, own_map_asked, happend, happend, happend, hopening, hserved, hclosing, ih]

/-! ## Deliveries -/

/-- What the bus and the channels have done with some items when the bus stops. -/
structure Pipe.Brings (adapters : Adapters) (sent : List Outbound) (trace : List Motion)
    (l : Pipe) : Prop where
  tallies : Tallies sent (offered trace) l.delivered l.failed
  /-- Each channel is given the items of which the identity names it, in order. -/
  given : ∀ channel, l.adapters.get? channel =
    (adapters.get? channel).map (· ++ ofChannel channel sent)
  allowed : ∀ x ∈ offered trace, Allows adapters x.1 x.2

theorem Pipe.Moves.brings {i : Identity} {adapters : Adapters} {trace : List Motion} {l : Pipe}
    (h : Moves i { adapters } trace l) (hsettled : l.Settled) :
    Brings adapters (items i (events (sights trace))) trace l := by
  have hnothing : l.owed i = [] := by
    rw [Pipe.owed, hsettled.hand, hsettled.queue]
    rfl
  have hoffered := h.owed.symm
  rw [hnothing, List.append_nil] at hoffered
  refine ⟨⟨hoffered, h.delivered.trans (Nat.zero_add _), h.failed.trans (Nat.zero_add _)⟩,
    fun channel => ?_, h.allowed⟩
  rw [h.given, hoffered]
  rfl

/-- **However the run, the relay and the bus take turns**, when the bus stops they have done with
the events of the run what is to be done. -/
theorem Pipe.brings_of_run? {i : Identity} {setup : Setup} {text : String} {token : Token}
    {o : Outcome} {adapters : Adapters} {trace : List Motion} {l : Pipe}
    (h : Leads (run setup i text token) (own (sights trace)) (.done (.ok o)))
    (hrun : Pipe.run? i { adapters } trace = some l) (hstopped : l.isOpen = false) :
    events (sights trace) = emissions (own (sights trace)) ∧
      Brings adapters (items i (emissions (own (sights trace)))) trace l := by
  have hmoves := moves_of_run? hrun
  have hsettled : l.Settled := settled_of_run? (fun hclosed => by cases hclosed) hrun hstopped
  obtain ⟨⟨calls, hcalls⟩, -⟩ := displays_of_unfolds (run_unfolds h) rfl hmoves.relay
  have hevents := events_eq_emissions hcalls
  exact ⟨hevents, hevents ▸ hmoves.brings hsettled⟩

/-- **Any answers that the channels can give may be given** to the items of a log. -/
theorem Pipe.exists_closed {i : Identity} {adapters : Adapters} {verdicts : List Verdict}
    (inner : Log) (hall : AllowsAll adapters verdicts (items i (emissions inner))) :
    ∃ trace l, own (sights trace) = inner ∧ Pipe.run? i { adapters } trace = some l ∧
      l.isOpen = false ∧ (offered trace).map Prod.snd = verdicts := by
  obtain ⟨hown, hrelay, (hevents : events _ = emissions inner)⟩ := atOnce_allowed inner
  obtain ⟨trace, l, hsights, hanswers, hrun, hclear, hidle⟩ :=
    exists_run? (i := i) (l := { adapters }) ⟨rfl, rfl, rfl, rfl⟩ hrelay (hevents ▸ hall)
  obtain ⟨l', hclose, hstopped⟩ := hclear.exists_close i hidle
  refine ⟨trace ++ [.returned, .closed], l', ?_, ?_, hstopped, ?_⟩
  · rw [sights_append, hsights]
    exact (own_append _ _).trans ((List.append_nil _).trans hown)
  · rw [run?_append, hrun]
    exact hclose
  · rw [offered_append, List.map_append, hanswers]
    exact List.append_nil _

/-- **The bus delivers everything once and counts it.**  When handling a message comes to an
outcome, its run came to this outcome, and what users get to see of the events of the run was
offered item by item, in the order of the events and each item once; the counts are those of the
answers, and together there are as many as items.  The answers make no other difference: had the
channels answered anything else, the same items had been offered, and the outcome had been the same.
In a world the answers are those of the channels that the items themselves name, and these have kept
what they were given.  And so it is however the run, the relay and the bus take turns: when the bus
stops, the same items were offered in the same order, each to the channel that it names, and were
counted so; and for any answers that the channels can give there are turns in which they give
them. -/
theorem handle_delivers_once {setup : Setup} {m : Inbound} {log : Log} {d : Dispatched}
    (h : Leads (handle setup m) log (.done (.ok d))) :
    ∃ (token : Token) (inner : Log),
      let sent := items m.identity (emissions inner)
      Leads (run setup m.identity m.prompt token) inner (.done (.ok d.outcome)) ∧
      Tallies sent (offers log) d.delivered d.failed ∧ d.delivered + d.failed = sent.length ∧
      (∀ verdicts : List Verdict, verdicts.length = sent.length →
        ∃ log', offers log' = sent.zip verdicts ∧ Leads (handle setup m) log'
          (.done (.ok ⟨d.outcome, arrived verdicts, lost verdicts⟩))) ∧
      (∀ (n : Nat) (w : World), (w.course n (handle setup m)).2.1 = log →
        offers log = sent.map (fun o => (o, (w.deliver o).1)) ∧
        w.Brought sent (w.course n (handle setup m)).1) ∧
      ∀ adapters : Adapters,
        (∀ trace l, own (sights trace) = inner →
          Pipe.run? m.identity { adapters } trace = some l → l.isOpen = false →
          events (sights trace) = emissions inner ∧ Pipe.Brings adapters sent trace l) ∧
        ∀ verdicts, Pipe.AllowsAll adapters verdicts sent →
          ∃ trace l, own (sights trace) = inner ∧
            Pipe.run? m.identity { adapters } trace = some l ∧ l.isOpen = false ∧
            (offered trace).map Prod.snd = verdicts := by
  obtain ⟨token, inner, hinner, htallies⟩ := tallies_of_leads_handle h
  refine ⟨token, inner, hinner, htallies, htallies.total,
    fun answers hanswers => exists_leads_handle hinner hanswers, fun n w hlog => ?_,
    fun adapters => ⟨fun trace l hown hrun hstopped => ?_,
      fun answers hall => Pipe.exists_closed inner hall⟩⟩
  · rw [← hlog] at htallies ⊢
    exact World.offers_course htallies.offered
  · subst hown
    exact Pipe.brings_of_run? hinner hrun hstopped

/-- A tool that sends messages to other chats. -/
def courier : Tool where
  name := "courier"
  description := ""
  schema := .null
  handler _ _ := do
    let _ ← Tool.ask (.send ⟨⟨"web", "7"⟩, "one", [], none⟩)
    let _ ← Tool.ask (.send ⟨⟨"gone", "8"⟩, "two", [], none⟩)
    .done (.text "sent")

/-- **A channel that fails and one that is missing** cost their items, and the reply arrives. -/
theorem handle_delivers_once_elsewhere :
    let setup : Setup := { tools := ⟨[courier]⟩ }
    let m : Inbound := { identity := ⟨"cli", "local"⟩, text := "go" }
    let w : World :=
      { World.rehearsal [.calls "" [("courier", .obj [])], .text "bye"] with
        channels := (Table.empty.set "cli" .recorder).set "web" .failing }
    let log := (w.course 60 (handle setup m)).2.1
    let o : Outcome :=
      { session := ⟨"cli:local"⟩, ending := .finalAnswer, iterations := 1, reply := some "bye" }
    Leads (handle setup m) log (.done (.ok ⟨o, 2, 2⟩)) ∧
      ((w.course 60 (handle setup m)).1.seen.map fun x => x.2.identity.channel) = ["cli", "cli"] ∧
      ∃ (token : Token) (inner : Log),
        Leads (run setup m.identity m.prompt token) inner (.done (.ok o)) ∧
        Tallies (items m.identity (emissions inner)) (offers log) 2 2 := by
  intro setup m w log o
  have hlog : Leads (handle setup m) log (.done (.ok ⟨o, 2, 2⟩)) :=
    leads_of_value (by decide +kernel)
  obtain ⟨token, inner, hinner, htallies, -⟩ := handle_delivers_once hlog
  exact ⟨hlog, by decide +kernel, token, inner, hinner, htallies⟩

end Parley.Agent
