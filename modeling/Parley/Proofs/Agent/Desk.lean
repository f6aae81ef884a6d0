import Mathlib.Data.List.Induction
import Parley.Proofs.Agent.Tracking

/-!
# Messages that are handled at once

A `Desk` is the table of the runs in flight with the cancelled tokens, and the messages that are
being handled.  Its steps are a message that comes in, the answer to one request of one handler,
and an abort from elsewhere; they may come in any order.  Only the table and the tokens answer for
themselves (`Ledger.Answers`), so the runs do as they please.
-/

namespace Parley.Agent

open Program

/-! ## Desks -/

/-- What handlers share, and the handlers. -/
structure Desk where
  ledger : Ledger := {}
  handlers : List Handler := []

/-- What happens at a step. -/
inductive Deed where
  /-- A message comes in. -/
  | came
  /-- A handler, as it stood, is answered. -/
  | answered (h : Handler) (r : Request)
  /-- An identity is aborted, and so many runs were in flight. -/
  | aborted (i : Identity) (count : Nat)

namespace Desk

/-- The tokens of an identity that are listed. -/
def tokens (d : Desk) (i : Identity) : List Token := d.ledger.inFlight.tokens i

/-- A step, and what happens at it. -/
inductive Step : Desk → Deed → Desk → Prop where
  | come (l : Ledger) (handlers : List Handler) (setup : Setup) (m : Inbound) :
    Step ⟨l, handlers⟩ .came ⟨l, handlers ++ [⟨m.identity, [], handle setup m⟩]⟩
  | answer {l l' : Ledger} {i : Identity} {r : Request} {a : r.Answer} (before after : List Handler)
    (log : Log) (next : r.Answer → Program interface (Except Error Dispatched))
    (h : l.Answers r a l') :
    Step ⟨l, before ++ ⟨i, log, .ask r next⟩ :: after⟩ (.answered ⟨i, log, .ask r next⟩ r)
      ⟨l', before ++ ⟨i, log ++ [⟨r, a⟩], next a⟩ :: after⟩
  | abort {l l' : Ledger} {i : Identity} {count : Nat} (handlers : List Handler)
    (h : l.Answers (.abort i) count l') : Step ⟨l, handlers⟩ (.aborted i count) ⟨l', handlers⟩

/-- The desks that come of an empty one. -/
inductive Reached : Desk → Prop where
  | empty : Reached {}
  | step {d d' : Desk} {deed : Deed} (h : Reached d) (hs : d.Step deed d') : Reached d'

/-- The handlers of a desk, each with its phase, and the table in agreement with them. -/
structure Staged (d : Desk) (staged : List (Handler × Phase)) : Prop where
  handlers : d.handlers = staged.map Prod.fst
  fits : ∀ x ∈ staged, x.2.Fits x.1.identity x.1.log x.1.program
  sound : d.ledger.Sound (staged.map fun x => (x.1.identity, x.2))

namespace Staged

variable {l l' : Ledger} {d : Desk} {i : Identity} {staged : List (Handler × Phase)}

theorem empty : Staged {} [] where
  handlers := rfl
  fits := nofun
  sound := .empty

theorem come {handlers : List Handler} (h : Staged ⟨l, handlers⟩ staged) (setup : Setup)
    (m : Inbound) :
    Staged ⟨l, handlers ++ [⟨m.identity, [], handle setup m⟩]⟩
      (staged ++ [(⟨m.identity, [], handle setup m⟩, .fresh)]) where
  handlers := by
    rw [List.map_append, ← h.handlers]
    rfl
  fits := List.forall_mem_append.2 ⟨h.fits, List.forall_mem_singleton.2 (Phase.fits_handle ..)⟩
  sound := by
    rw [List.map_append]
    exact (h.sound.cons_fresh m.identity).perm (List.perm_append_singleton _ _).symm

/-- **An answered handler moves on**, and all others stay where they are. -/
theorem answer {before after : List Handler} {log : Log} {r : Request} {a : r.Answer}
    {next : r.Answer → Program interface (Except Error Dispatched)}
    (h : Staged ⟨l, before ++ ⟨i, log, .ask r next⟩ :: after⟩ staged) (ha : l.Answers r a l') :
    ∃ (front back : List (Handler × Phase)) (ph ph' : Phase),
      staged = front ++ (⟨i, log, .ask r next⟩, ph) :: back ∧ ph.Moves i r a ph' ∧
      Staged ⟨l', before ++ ⟨i, log ++ [⟨r, a⟩], next a⟩ :: after⟩
        (front ++ (⟨i, log ++ [⟨r, a⟩], next a⟩, ph') :: back) := by
  obtain ⟨front, ph, back, rfl, rfl, rfl⟩ := exists_companion h.handlers
  have hmem : ((⟨i, log, .ask r next⟩, ph) : Handler × Phase) ∈
      front ++ (⟨i, log, .ask r next⟩, ph) :: back :=
    List.mem_append_right _ List.mem_cons_self
  obtain ⟨ph', hmoves, hfits⟩ := Phase.moves_of_fits (h.fits _ hmem) a
  refine ⟨front, back, ph, ph', rfl, hmoves, ?_, forall_exchange h.fits hfits, ?_⟩
  · rw [List.map_append, List.map_cons]
  · have hsound := h.sound
    rw [List.map_append, List.map_cons] at hsound ⊢
    exact ((hsound.perm List.perm_middle).moves hmoves ha).perm List.perm_middle.symm

/-- A handler runs under a token by its phase if it does so by its log. -/
theorem running?_eq_iff (h : Staged d staged) {x : Handler × Phase} (hx : x ∈ staged) {t : Token} :
    x.2.running? = some t ↔ x.1.IsTracked t := by
  rw [Phase.running?_eq_iff, Handler.IsTracked, (h.fits x hx).1]

theorem mem_handlers (h : Staged d staged) {x : Handler × Phase} (hx : x ∈ staged) :
    x.1 ∈ d.handlers :=
  h.handlers ▸ List.mem_map_of_mem hx

/-- No token is given out twice. -/
theorem distinct (h : Staged d staged) : (d.handlers.flatMap Handler.tokens).Nodup := by
  have htokens : ∀ x ∈ staged, x.1.tokens = x.2.token?.toList := by
    intro x hx
    rw [Handler.tokens, (h.fits x hx).1, Phase.tokens_trackings]
  have heq : d.handlers.flatMap Handler.tokens = staged.filterMap (·.2.token?) := by
    rw [h.handlers, List.flatMap_map, List.filterMap_eq_flatMap_toList]
    exact List.flatMap_congr htokens
  have hdistinct := h.sound.distinct
  rw [List.filterMap_map] at hdistinct
  rw [heq]
  exact hdistinct

theorem kept (h : Staged d staged) {x : Handler} (hx : x ∈ d.handlers) {t : Token}
    (ht : x.IsTracked t) : t ∈ d.tokens x.identity ∨ t ∈ d.ledger.cancelled := by
  rw [h.handlers] at hx
  obtain ⟨y, hy, rfl⟩ := List.mem_map.1 hx
  exact h.sound.kept _ (List.mem_map_of_mem hy) t ((h.running?_eq_iff hy).2 ht)

theorem owned (h : Staged d staged) {t : Token} (ht : t ∈ d.tokens i) :
    ∃ x ∈ d.handlers, x.identity = i ∧ x.IsTracked t := by
  obtain ⟨z, hmem, hidentity, hrunning⟩ := h.sound.owned i t ht
  obtain ⟨y, hy, rfl⟩ := List.mem_map.1 hmem
  exact ⟨y.1, h.mem_handlers hy, hidentity, (h.running?_eq_iff hy).1 hrunning⟩

/-- When all messages are handled, nothing is listed, and no entry is left. -/
theorem cleared (h : Staged d staged) (hdone : ∀ x ∈ d.handlers, x.IsDone) :
    d.ledger.inFlight.running = .empty := by
  have hfinished : ∀ x ∈ staged, ∃ t, x.2 = .finished t := by
    intro x hx
    obtain ⟨result, hresult⟩ := hdone x.1 (h.mem_handlers hx)
    have hfits := h.fits x hx
    rw [hresult] at hfits
    exact Phase.eq_finished hfits
  refine Table.eq_empty fun i => ?_
  cases hentry : d.ledger.inFlight.running.get? i with
  | none => rfl
  | some tokens =>
    cases tokens with
    | nil =>
      obtain ⟨t, ht⟩ := h.sound.guarded i hentry
      obtain ⟨x, hx, heq⟩ := List.mem_map.1 ht
      obtain ⟨u, hu⟩ := hfinished x hx
      exact absurd (hu.symm.trans (Prod.mk.inj heq).2) nofun
    | cons t tokens =>
      have hlisted : t ∈ d.ledger.inFlight.tokens i := by
        rw [InFlight.tokens_of_get? hentry]
        exact List.mem_cons_self
      obtain ⟨y, hmem, -, hrunning⟩ := h.sound.owned i t hlisted
      obtain ⟨x, hx, rfl⟩ := List.mem_map.1 hmem
      obtain ⟨u, hu⟩ := hfinished x hx
      dsimp only at hrunning
      rw [hu] at hrunning
      cases hrunning

end Staged

variable {d d' : Desk} {deed : Deed}

/-- **Whatever comes in and in whatever order, the table agrees with the handlers.** -/
theorem Reached.staged (h : d.Reached) : ∃ staged, Staged d staged := by
  induction h with
  | empty => exact ⟨[], .empty⟩
  | step _ hs ih =>
    obtain ⟨staged, hstaged⟩ := ih
    cases hs with
    | come l handlers setup m => exact ⟨_, hstaged.come setup m⟩
    | answer before after log next ha =>
      obtain ⟨front, back, ph, ph', -, -, hnext⟩ := hstaged.answer ha
      exact ⟨_, hnext⟩
    | abort handlers ha =>
      obtain ⟨-, rfl⟩ := ha
      exact ⟨staged, hstaged.handlers, hstaged.fits, hstaged.sound.abort _⟩

/-- What takes a token out of the table. -/
theorem Staged.left {staged : List (Handler × Phase)} (h : Staged d staged)
    (hs : d.Step deed d') {i : Identity} {t : Token} (hbefore : t ∈ d.tokens i)
    (hafter : t ∉ d'.tokens i) :
    (∃ x ∈ d.handlers, x.identity = i ∧ x.IsTracked t ∧ deed = .answered x (.untrack i t)) ∨
      ∃ count, deed = .aborted i count ∧ t ∈ d'.ledger.cancelled := by
  cases hs with
  | come => exact absurd hbefore hafter
  | @answer l l' j r a before after log next ha =>
    left
    obtain ⟨front, back, ph, ph', rfl, hmoves, -⟩ := h.answer ha
    obtain ⟨rfl, hrunning, rfl⟩ := hmoves.untrack_of_left ha hbefore hafter
    have hmem : ((⟨i, log, .ask (.untrack i t) next⟩, ph) : Handler × Phase) ∈
        front ++ (⟨i, log, .ask (.untrack i t) next⟩, ph) :: back :=
      List.mem_append_right _ List.mem_cons_self
    exact ⟨_, h.mem_handlers hmem, rfl, (h.running?_eq_iff hmem).1 hrunning, rfl⟩
  | @abort l l' j count handlers ha =>
    right
    obtain ⟨-, rfl⟩ := ha
    have hij : i = j := by
      by_contra hne
      refine hafter ?_
      show t ∈ (l.inFlight.abort j).2.tokens i
      rw [InFlight.tokens_abort, if_neg hne]
      exact hbefore
    subst hij
    exact ⟨count, rfl, List.mem_append_left _ hbefore⟩

/-- Tokens are cancelled by aborts only. -/
theorem Staged.cancelled_eq {staged : List (Handler × Phase)} (h : Staged d staged)
    (hs : d.Step deed d') (hdeed : ∀ i count, deed ≠ .aborted i count) :
    d'.ledger.cancelled = d.ledger.cancelled := by
  cases hs with
  | come => rfl
  | answer before after log next ha =>
    obtain ⟨front, back, ph, ph', -, hmoves, -⟩ := h.answer ha
    exact hmoves.cancelled_eq ha
  | abort => exact absurd rfl (hdeed _ _)

/-- **No run in flight is lost track of**, however messages come in, are handled and are aborted.

- No token is given out twice.
- The token of a handler that has not given it back is listed under its identity or cancelled, and
  such tokens are all that is listed.
- A token leaves the table when its own handler gives it back, or when its identity is aborted, and
  then it is cancelled.  Nothing but an abort cancels tokens.
- An abort finds each token once, says how many there are, cancels these tokens and no others, and
  removes the entry of the identity and no other.
- When all messages are handled, the table is empty. -/
theorem tracking_of_reached (h : d.Reached) :
    (d.handlers.flatMap Handler.tokens).Nodup ∧
    (∀ x ∈ d.handlers, ∀ t, x.IsTracked t →
      t ∈ d.tokens x.identity ∨ t ∈ d.ledger.cancelled) ∧
    (∀ i, ∀ t ∈ d.tokens i, ∃ x ∈ d.handlers, x.identity = i ∧ x.IsTracked t) ∧
    (∀ deed d', d.Step deed d' →
      (∀ i, ∀ t ∈ d.tokens i, t ∉ d'.tokens i →
        (∃ x ∈ d.handlers, x.identity = i ∧ x.IsTracked t ∧ deed = .answered x (.untrack i t)) ∨
          ∃ count, deed = .aborted i count ∧ t ∈ d'.ledger.cancelled) ∧
      ((∀ i count, deed ≠ .aborted i count) → d'.ledger.cancelled = d.ledger.cancelled)) ∧
    (∀ i count d', d.Step (.aborted i count) d' →
      (d.tokens i).Nodup ∧ count = (d.tokens i).length ∧
      d'.ledger.cancelled = d.tokens i ++ d.ledger.cancelled ∧
      d'.ledger.inFlight.running = d.ledger.inFlight.running.erase i ∧
      d'.handlers = d.handlers) ∧
    ((∀ x ∈ d.handlers, x.IsDone) → d.ledger.inFlight.running = .empty) := by
  obtain ⟨staged, hstaged⟩ := h.staged
  refine ⟨hstaged.distinct, fun x hx t ht => hstaged.kept hx ht, fun i t ht => hstaged.owned ht,
    fun deed d' hs => ⟨fun i t hbefore hafter => hstaged.left hs hbefore hafter,
      hstaged.cancelled_eq hs⟩, fun i count d' hs => ?_, hstaged.cleared⟩
  have honce := hstaged.sound.once i
  cases hs with
  | abort handlers ha =>
    obtain ⟨hcount, rfl⟩ := ha
    exact ⟨honce, hcount, rfl, rfl, rfl⟩

/-! ## Handlers in a world -/

/-- What handlers share of a world. -/
def shared (w : World) : Ledger := ⟨w.inFlight, w.cancelled⟩

/-- **A world answers as the ledger does.** -/
theorem answers_of_world {w w' : World} {r : Request} {a : r.Answer}
    (h : w.answer? r = some (a, w')) : (shared w).Answers r a (shared w') := by
  have halters := World.alters_of_answer? h
  have hstays (hr : r.SparesTable) : shared w' = shared w := by
    rw [shared, shared, halters.inFlight hr, halters.cancelled hr]
  cases r with
  | track | abort =>
    cases h
    exact ⟨rfl, rfl⟩
  | untrack | sweepTracked | cancel =>
    cases h
    rfl
  | _ => exact hstays trivial

/-- Handlers that are answered in turns: which, and how often. -/
def turns (w : World) (handlers : List Handler) : List (Nat × Nat) → World × List Handler
  | [] => (w, handlers)
  | (k, n) :: rest =>
    match handlers[k]? with
    | none => turns w handlers rest
    | some x =>
      let course := w.course n x.program
      turns course.1 (handlers.set k ⟨x.identity, x.log ++ course.2.1, course.2.2⟩) rest

/-- A handler goes on in a world. -/
theorem Reached.course {i : Identity} {front back : List Handler} (n : Nat) {w : World} {log : Log}
    {p : Program interface (Except Error Dispatched)}
    (h : Reached ⟨shared w, front ++ ⟨i, log, p⟩ :: back⟩) :
    Reached ⟨shared (w.course n p).1,
      front ++ ⟨i, log ++ (w.course n p).2.1, (w.course n p).2.2⟩ :: back⟩ := by
  refine World.course_induction (P := fun w log p =>
    Reached ⟨shared w, front ++ ⟨i, log, p⟩ :: back⟩) (fun ha h => ?_) n h
  exact h.step (.answer front back _ _ (answers_of_world ha))

theorem Reached.turns {w : World} {handlers : List Handler} (h : Reached ⟨shared w, handlers⟩)
    (plan : List (Nat × Nat)) :
    Reached ⟨shared (Desk.turns w handlers plan).1, (Desk.turns w handlers plan).2⟩ := by
  induction plan generalizing w handlers with
  | nil => exact h
  | cons x plan ih =>
    obtain ⟨k, n⟩ := x
    rw [Desk.turns]
    split
    · exact ih h
    case h_2 x hx =>
      obtain ⟨hk, hget⟩ := List.getElem?_eq_some_iff.1 hx
      obtain ⟨front, back, hsplit, -, hset⟩ := List.exists_of_set hk
      rw [hget] at hsplit
      rw [hsplit] at h
      have hnext := ih (h.course n)
      rw [← hset] at hnext
      exact hnext

/-- The messages that came in are there, and nothing else has happened. -/
theorem reached_come (messages : List Inbound) :
    Reached ⟨{}, messages.map fun m => ⟨m.identity, [], handle {} m⟩⟩ := by
  induction messages using List.reverseRecOn with
  | nil => exact .empty
  | append_singleton messages m ih =>
    rw [List.map_append]
    exact ih.step (.come _ _ {} m)

/-- A world in which an identity was aborted. -/
def aborted (w : World) (i : Identity) : World :=
  { w with
    inFlight := (w.inFlight.abort i).2
    cancelled := w.inFlight.tokens i ++ w.cancelled }

theorem step_aborted (w : World) (handlers : List Handler) (i : Identity) :
    Step ⟨shared w, handlers⟩ (.aborted i (w.inFlight.tokens i).length)
      ⟨shared (aborted w i), handlers⟩ :=
  .abort handlers ⟨rfl, rfl⟩

/-- Two messages of one chat and one of another come in.  All three are tracked when the first chat
is aborted, which cancels two of them.  The table is empty when all are handled. -/
theorem tracking_of_three_messages :
    let i : Identity := ⟨"cli", "local"⟩
    let j : Identity := ⟨"ws", "1"⟩
    let messages : List Inbound := [⟨i, "one", []⟩, ⟨i, "two", []⟩, ⟨j, "three", []⟩]
    let running := turns (.rehearsal [.stall])
      (messages.map fun m => ⟨m.identity, [], handle {} m⟩) [(0, 12), (1, 2), (2, 1)]
    let ended := turns (aborted running.1 i) running.2 [(0, 20), (1, 20), (2, 30)]
    let d : Desk := ⟨shared running.1, running.2⟩
    let d' : Desk := ⟨shared ended.1, ended.2⟩
    d.Reached ∧
      d.handlers.map (fun x => trackings x.log) = [[.tracked 1], [.tracked 2], [.tracked 3]] ∧
      d.tokens i = [1, 2] ∧ d.tokens j = [3] ∧ (d.handlers.flatMap Handler.tokens).Nodup ∧
      d.Step (.aborted i 2) ⟨shared (aborted running.1 i), running.2⟩ ∧
      (aborted running.1 i).cancelled = [1, 2] ∧
      d'.Reached ∧ (∀ x ∈ d'.handlers, x.IsDone) ∧ d'.ledger.inFlight.running = .empty := by
  intro i j messages running ended d d'
  have hd : d.Reached := (reached_come messages).turns (w := .rehearsal [.stall]) _
  have htokens : d.tokens i = [1, 2] := by decide +kernel
  have hcount : (running.1.inFlight.tokens i).length = 2 := congrArg List.length htokens
  have habort : d.Step (.aborted i 2) ⟨shared (aborted running.1 i), running.2⟩ :=
    hcount ▸ step_aborted running.1 running.2 i
  have hd' : d'.Reached := (hd.step habort).turns _
  have hdone : ∀ x ∈ d'.handlers, x.IsDone := by decide +kernel
  obtain ⟨hdistinct, -, -, -, haborts, -⟩ := tracking_of_reached hd
  obtain ⟨-, -, hcancelled, -⟩ := haborts i 2 _ habort
  have hnone : d.ledger.cancelled = [] := by decide +kernel
  rw [htokens, hnone] at hcancelled
  exact ⟨hd, by decide +kernel, htokens, by decide +kernel, hdistinct, habort, hcancelled, hd',
    hdone, (tracking_of_reached hd').2.2.2.2.2 hdone⟩

end Desk

end Parley.Agent
