import Mathlib.Data.List.Nodup
import Parley.Proofs.Agent.Pool
import Parley.Proofs.Table

/-!
# What the bus keeps track of

Handling a message tracks it, runs it and untracks it, and does nothing else about the table of the
runs in flight (`run_sparesTable`).  Where a handler stands is its `Phase`, kept along with it
(`Phase.Fits`).

`Ledger.Sound` says how the table and the cancelled tokens go with the phases: what is listed is
the token of a tracked handler, the token of a tracked handler is listed or cancelled, and an entry
without tokens has a handler that is about to remove it.  Each move preserves this
(`Ledger.Sound.moves`), and so does an abort (`Ledger.Sound.abort`).  An abort takes a whole entry
away while its handlers go on, so a handler may find no entry, or find another in its place; neither
does any harm, as no token is given out twice.
-/

namespace Parley.Agent

open Program

/-! ## The table -/

namespace InFlight

variable {f : InFlight} {i j : Identity} {t : Token}

/-- The tokens of an identity. -/
def tokens (f : InFlight) (i : Identity) : List Token := (f.running.get? i).getD []

theorem tokens_of_get? {tokens : List Token} (h : f.running.get? i = some tokens) :
    f.tokens i = tokens := by
  rw [InFlight.tokens, h]
  rfl

theorem tokens_track (f : InFlight) (i j : Identity) :
    (f.track i).2.tokens j = if j = i then f.tokens i ++ [f.next] else f.tokens j := by
  unfold tokens track
  rw [Table.get?_set]
  split <;> rfl

theorem tokens_untrack (f : InFlight) (i j : Identity) (t : Token) :
    (f.untrack i t).tokens j = if j = i then (f.tokens i).filter (· ≠ t) else f.tokens j := by
  unfold tokens untrack
  split
  case h_1 tokens hentry =>
    rw [Table.get?_set, hentry]
    split <;> rfl
  case h_2 hnone =>
    split
    case isTrue hj =>
      rw [hj, hnone]
      rfl
    case isFalse => rfl

/-- Only an entry without tokens is removed. -/
theorem tokens_sweep (f : InFlight) (i j : Identity) : (f.sweep i).tokens j = f.tokens j := by
  unfold tokens sweep
  split
  case h_1 hentry =>
    rw [Table.get?_erase]
    split
    case isTrue hj =>
      rw [hj, hentry]
      rfl
    case isFalse => rfl
  case h_2 => rfl

theorem tokens_abort (f : InFlight) (i j : Identity) :
    (f.abort i).2.tokens j = if j = i then [] else f.tokens j := by
  unfold tokens abort
  rw [Table.get?_erase]
  split <;> rfl

/-- An identity has an entry without tokens. -/
def Blank (f : InFlight) (i : Identity) : Prop := f.running.get? i = some []

theorem blank_of_track (h : (f.track i).2.Blank j) : f.Blank j := by
  unfold Blank track at h
  rw [Table.get?_set] at h
  split at h
  · exact absurd (Option.some.inj h) (by simp)
  · exact h

theorem blank_of_untrack (h : (f.untrack i t).Blank j) : j = i ∨ f.Blank j := by
  unfold Blank untrack at h
  split at h
  · rw [Table.get?_set] at h
    split at h
    case isTrue hj => exact .inl hj
    case isFalse => exact .inr h
  · exact .inr h

theorem blank_of_sweep (h : (f.sweep i).Blank j) : j ≠ i ∧ f.Blank j := by
  unfold Blank sweep at h
  split at h
  case h_1 =>
    rw [Table.get?_erase] at h
    split at h
    case isTrue => cases h
    case isFalse hj => exact ⟨hj, h⟩
  case h_2 hentry =>
    refine ⟨?_, h⟩
    rintro rfl
    exact hentry h

theorem blank_of_abort (h : (f.abort i).2.Blank j) : f.Blank j := by
  unfold Blank abort at h
  rw [Table.get?_erase] at h
  split at h
  · cases h
  · exact h

end InFlight

/-- What handlers share: the table, and the tokens that are cancelled. -/
structure Ledger where
  inFlight : InFlight := {}
  cancelled : List Token := []

/-- Which answers there may be to a request, and what they leave behind. -/
def Ledger.Answers (l : Ledger) : (r : Request) → r.Answer → Ledger → Prop
  | .track i, t, l' => t = (l.inFlight.track i).1 ∧
      l' = { l with inFlight := (l.inFlight.track i).2 }
  | .untrack i t, _, l' => l' = { l with inFlight := l.inFlight.untrack i t }
  | .sweepTracked i, _, l' => l' = { l with inFlight := l.inFlight.sweep i }
  | .abort i, n, l' => n = (l.inFlight.abort i).1.length ∧
      l' = ⟨(l.inFlight.abort i).2, (l.inFlight.abort i).1 ++ l.cancelled⟩
  | .cancel t, _, l' => l' = { l with cancelled := t :: l.cancelled }
  | _, _, l' => l' = l

theorem Ledger.eq_of_answers {l l' : Ledger} {r : Request} {a : r.Answer} (hr : r.SparesTable)
    (h : l.Answers r a l') : l' = l := by
  cases r with
  | track | untrack | sweepTracked | abort | cancel => exact hr.elim
  | _ => exact h

/-! ## What handlers ask for -/

/-- What is delivered instead of being emitted is asked for in its place. -/
theorem delivering_asksOnly {α : Type} {P : Request → Prop} (hP : ∀ o, P (.deliver o))
    {p : Program interface α} (h : p.AsksOnly P) (i : Identity) (delivered failed : Nat) :
    (delivering i delivered failed p).AsksOnly P := by
  induction p generalizing delivered failed with
  | done a => trivial
  | ask r next ih =>
    cases r with
    | emit e =>
      rw [delivering]
      split
      · exact ih () (h.2 ()) _ _
      · refine ⟨hP _, fun result => ?_⟩
        cases (result : Except Error Unit) with
        | ok => exact ih () (h.2 ()) _ _
        | error => exact ih () (h.2 ()) _ _
    | _ => exact ⟨h.1, fun a => ih a (h.2 a) _ _⟩

/-- **A run does not touch the table.** -/
theorem run_sparesTable (setup : Setup) (i : Identity) (text : String) (token : Token) :
    (run setup i text token).AsksOnly Request.SparesTable := by
  refine (Stage.run_asksOnly setup i text token).mono fun r hr => ?_
  rcases hr with (rfl | ⟨key, hr⟩) | hr
  · trivial
  · cases r <;> trivial
  · cases r <;> first | trivial | exact absurd trivial hr

/-! ## Handlers -/

/-- A message that is being handled: whose it is, what was asked and answered, and what is left. -/
structure Handler where
  identity : Identity
  log : Log
  program : Program interface (Except Error Dispatched)

/-- What a handler does about the table. -/
inductive Tracking where
  | tracked (t : Token)
  | untracked (t : Token)
  | swept
  deriving DecidableEq, Repr

/-- What an inquiry does about the table. -/
def tracking? : interface.Inquiry → Option Tracking
  | ⟨.track _, t⟩ => some (.tracked t)
  | ⟨.untrack _ t, _⟩ => some (.untracked t)
  | ⟨.sweepTracked _, _⟩ => some .swept
  | _ => none

/-- What was done about the table. -/
def trackings (log : Log) : List Tracking := log.filterMap tracking?

/-- The token that is given out. -/
def Tracking.token? : Tracking → Option Token
  | tracked t => some t
  | _ => none

namespace Handler

/-- The tokens that a handler was given. -/
def tokens (h : Handler) : List Token := (trackings h.log).filterMap Tracking.token?

/-- A handler was given a token and has not given it back. -/
def IsTracked (h : Handler) (t : Token) : Prop :=
  .tracked t ∈ trackings h.log ∧ .untracked t ∉ trackings h.log

/-- The message is handled. -/
def IsDone (h : Handler) : Prop := ∃ result, h.program = .done result

instance (h : Handler) : Decidable h.IsDone :=
  match hp : h.program with
  | .done result => .isTrue ⟨result, hp⟩
  | .ask _ _ => .isFalse fun ⟨_, h'⟩ => nomatch hp.symm.trans h'

end Handler

/-- What running a message comes to, with what was delivered of it. -/
abbrev Body := Program interface (Except Error Outcome × Nat × Nat)

/-- Where a handler stands. -/
inductive Phase where
  | fresh
  /-- It runs the message, under its token. -/
  | tracked (t : Token) (body : Body)
  /-- Its token is gone, and the entry is yet to be removed. -/
  | untracked (t : Token)
  | finished (t : Token)

namespace Phase

variable {i : Identity} {ph ph' : Phase} {log : Log} {r : Request} {a : r.Answer}

/-- What a handler has done about the table. -/
def trackings : Phase → List Tracking
  | fresh => []
  | tracked t _ => [.tracked t]
  | untracked t => [.tracked t, .untracked t]
  | finished t => [.tracked t, .untracked t, .swept]

/-- The token that a handler was given. -/
def token? : Phase → Option Token
  | fresh => none
  | tracked t _ | untracked t | finished t => some t

/-- The token under which a handler runs. -/
def running? : Phase → Option Token
  | tracked t _ => some t
  | _ => none

theorem tokens_trackings (ph : Phase) :
    ph.trackings.filterMap Tracking.token? = ph.token?.toList := by
  cases ph <;> rfl

/-- The phase in which a handler runs can be read off what it has done. -/
theorem running?_eq_iff {t : Token} :
    ph.running? = some t ↔ .tracked t ∈ ph.trackings ∧ .untracked t ∉ ph.trackings := by
  cases ph <;> simp [running?, trackings, eq_comm]

/-- What is left to do without the token. -/
def sweep (i : Identity) (result : Except Error Dispatched) :
    Program interface (Except Error Dispatched) :=
  .ask (.sweepTracked i) fun _ => .done result

/-- What is left to do after the message was run. -/
def untrack (i : Identity) (t : Token) (ran : Except Error Outcome × Nat × Nat) :
    Program interface (Except Error Dispatched) :=
  .ask (.untrack i t) fun _ => sweep i (ran.1.map fun outcome => ⟨outcome, ran.2.1, ran.2.2⟩)

/-- How the log and the program of a handler fit its phase. -/
def Fits (i : Identity) (log : Log) (p : Program interface (Except Error Dispatched))
    (ph : Phase) : Prop :=
  Agent.trackings log = ph.trackings ∧
    match ph with
    | fresh => ∃ body : Token → Body, (∀ t, (body t).AsksOnly Request.SparesTable) ∧
        p = .ask (.track i) fun t => body t >>= untrack i t
    | tracked t body => body.AsksOnly Request.SparesTable ∧ p = body >>= untrack i t
    | untracked _ => ∃ result, p = sweep i result
    | finished _ => ∃ result, p = .done result

/-- What an answered request does to the phase. -/
inductive Moves (i : Identity) : Phase → (r : Request) → r.Answer → Phase → Prop where
  | track (t : Token) (body : Body) : Moves i fresh (.track i) t (tracked t body)
  | work (t : Token) {r : Request} (next : r.Answer → Body) (a : r.Answer)
    (h : r.SparesTable) : Moves i (tracked t (.ask r next)) r a (tracked t (next a))
  | untrack (t : Token) (ran : Except Error Outcome × Nat × Nat) (u : Unit) :
    Moves i (tracked t (.done ran)) (.untrack i t) u (untracked t)
  | sweep (t : Token) (u : Unit) : Moves i (untracked t) (.sweepTracked i) u (finished t)

theorem trackings_append (log : Log) (x : interface.Inquiry) :
    Agent.trackings (log ++ [x]) = Agent.trackings log ++ (tracking? x).toList := by
  rw [Agent.trackings, List.filterMap_append, ← Agent.trackings]
  cases hx : tracking? x with
  | none => rw [List.filterMap_cons_none hx]; rfl
  | some l => rw [List.filterMap_cons_some hx]; rfl

theorem tracking?_eq_none (h : r.SparesTable) (a : r.Answer) : tracking? ⟨r, a⟩ = none := by
  cases r with
  | track | untrack | sweepTracked => exact h.elim
  | _ => rfl

/-- **An answered handler moves its phase.** -/
theorem moves_of_fits {next : r.Answer → Program interface (Except Error Dispatched)}
    (h : ph.Fits i log (.ask r next)) (a : r.Answer) :
    ∃ ph', ph.Moves i r a ph' ∧ ph'.Fits i (log ++ [⟨r, a⟩]) (next a) := by
  obtain ⟨hlog, h⟩ := h
  cases ph with
  | fresh =>
    obtain ⟨body, hbody, hp⟩ := h
    cases hp
    refine ⟨_, .track a (body a), ?_, hbody a, rfl⟩
    rw [trackings_append, hlog]
    rfl
  | tracked t body =>
    obtain ⟨hasks, hp⟩ := h
    cases body with
    | done ran =>
      cases hp
      refine ⟨_, .untrack t ran a, ?_, _, rfl⟩
      rw [trackings_append, hlog]
      rfl
    | ask r' next' =>
      cases hp
      refine ⟨_, .work t next' a hasks.1, ?_, hasks.2 a, rfl⟩
      rw [trackings_append, hlog, tracking?_eq_none hasks.1, Option.toList_none, List.append_nil,
        trackings, trackings]
  | untracked t =>
    obtain ⟨result, hp⟩ := h
    cases hp
    refine ⟨_, .sweep t a, ?_, result, rfl⟩
    rw [trackings_append, hlog]
    rfl
  | finished t =>
    obtain ⟨result, hp⟩ := h
    cases hp

/-- A message is handled from the beginning. -/
theorem fits_handle (setup : Setup) (m : Inbound) :
    fresh.Fits m.identity [] (handle setup m) :=
  ⟨rfl, _, fun _ => delivering_asksOnly (fun _ => trivial) (run_sparesTable _ _ _ _) _ _ _, rfl⟩

/-- A handler that came to an end has done all there is to do. -/
theorem eq_finished {result : Except Error Dispatched} (h : ph.Fits i log (.done result)) :
    ∃ t, ph = finished t := by
  obtain ⟨-, h⟩ := h
  cases ph with
  | finished t => exact ⟨t, rfl⟩
  | fresh =>
    obtain ⟨body, -, hp⟩ := h
    cases hp
  | tracked t body =>
    obtain ⟨-, hp⟩ := h
    cases body <;> cases hp
  | untracked t =>
    obtain ⟨result', hp⟩ := h
    cases hp

end Phase

/-! ## The table and the phases -/

/-- How the table and the cancelled tokens go with the phases of the handlers. -/
structure Ledger.Sound (l : Ledger) (hs : List (Identity × Phase)) : Prop where
  /-- What is listed is the token of a tracked handler of the identity. -/
  owned : ∀ i, ∀ t ∈ l.inFlight.tokens i, ∃ h ∈ hs, h.1 = i ∧ h.2.running? = some t
  /-- No tracked handler is lost. -/
  kept : ∀ h ∈ hs, ∀ t, h.2.running? = some t → t ∈ l.inFlight.tokens h.1 ∨ t ∈ l.cancelled
  below : ∀ h ∈ hs, ∀ t, h.2.token? = some t → t < l.inFlight.next
  distinct : (hs.filterMap (·.2.token?)).Nodup
  once : ∀ i, (l.inFlight.tokens i).Nodup
  /-- An entry without tokens has a handler that is about to remove it. -/
  guarded : ∀ i, l.inFlight.Blank i → ∃ t, (i, .untracked t) ∈ hs

namespace Ledger.Sound

variable {l l' : Ledger} {i : Identity} {ph ph' : Phase} {hs hs' : List (Identity × Phase)}
  {r : Request} {a : r.Answer}

theorem empty : Sound {} [] where
  owned := nofun
  kept := nofun
  below := nofun
  distinct := List.nodup_nil
  once _ := List.nodup_nil
  guarded := nofun

/-- The order of the handlers is of no account. -/
theorem perm (hp : hs.Perm hs') (h : Sound l hs) : Sound l hs' where
  owned i t ht := by
    obtain ⟨x, hx, hrest⟩ := h.owned i t ht
    exact ⟨x, hp.mem_iff.1 hx, hrest⟩
  kept x hx := h.kept x (hp.mem_iff.2 hx)
  below x hx := h.below x (hp.mem_iff.2 hx)
  distinct := (hp.filterMap _).nodup_iff.1 h.distinct
  once := h.once
  guarded i hi := by
    obtain ⟨t, ht⟩ := h.guarded i hi
    exact ⟨t, hp.mem_iff.1 ht⟩

/-- A handler may come that has not begun. -/
theorem cons_fresh (h : Sound l hs) (i : Identity) : Sound l ((i, .fresh) :: hs) where
  owned j t ht := by
    obtain ⟨x, hx, hrest⟩ := h.owned j t ht
    exact ⟨x, List.mem_cons_of_mem _ hx, hrest⟩
  kept := List.forall_mem_cons.2 ⟨nofun, h.kept⟩
  below := List.forall_mem_cons.2 ⟨nofun, h.below⟩
  distinct := h.distinct
  once := h.once
  guarded j hj := by
    obtain ⟨t, ht⟩ := h.guarded j hj
    exact ⟨t, List.mem_cons_of_mem _ ht⟩

theorem running?_of_token? {t : Token} (h : ph.running? = some t) : ph.token? = some t := by
  cases ph <;> first | exact h | cases h

/-- A token that is listed was given out. -/
theorem lt_next (h : Sound l hs) {t : Token} (ht : t ∈ l.inFlight.tokens i) :
    t < l.inFlight.next := by
  obtain ⟨x, hx, -, hrunning⟩ := h.owned i t ht
  exact h.below x hx t (running?_of_token? hrunning)

/-- A handler that stays in its phase may change in all else. -/
theorem relabel (h : Sound l ((i, ph) :: hs)) (hrunning : ph'.running? = ph.running?)
    (htoken : ph'.token? = ph.token?) (hidle : ∀ t, ph ≠ .untracked t) :
    Sound l ((i, ph') :: hs) where
  owned j t ht := by
    obtain ⟨x, hx, hidentity, hx'⟩ := h.owned j t ht
    rcases List.mem_cons.1 hx with rfl | hx
    · exact ⟨_, List.mem_cons_self, hidentity, hrunning.trans hx'⟩
    · exact ⟨x, List.mem_cons_of_mem _ hx, hidentity, hx'⟩
  kept := by
    have hkept := h.kept
    rw [List.forall_mem_cons] at hkept ⊢
    rw [hrunning]
    exact hkept
  below := by
    have hbelow := h.below
    rw [List.forall_mem_cons] at hbelow ⊢
    rw [htoken]
    exact hbelow
  distinct := by
    have hdistinct := h.distinct
    rw [List.filterMap_cons] at hdistinct ⊢
    rwa [htoken]
  once := h.once
  guarded j hj := by
    obtain ⟨t, ht⟩ := h.guarded j hj
    rcases List.mem_cons.1 ht with heq | ht
    · exact absurd (Prod.mk.inj heq).2.symm (hidle t)
    · exact ⟨t, List.mem_cons_of_mem _ ht⟩

/-- What stands for others still does when a handler comes in place of another. -/
theorem mem_exchange {x : Identity × Phase} (hx : x ∈ (i, ph) :: hs) (hne : x.2 ≠ ph) :
    x ∈ (i, ph') :: hs := by
  rcases List.mem_cons.1 hx with rfl | hx
  · exact absurd rfl hne
  · exact List.mem_cons_of_mem _ hx

theorem track (h : Sound l ((i, .fresh) :: hs)) (body : Body) :
    Sound { l with inFlight := (l.inFlight.track i).2 }
      ((i, .tracked l.inFlight.next body) :: hs) where
  owned j t ht := by
    have hbefore (hold : t ∈ l.inFlight.tokens j) :
        ∃ x ∈ (i, .tracked l.inFlight.next body) :: hs, x.1 = j ∧ x.2.running? = some t := by
      obtain ⟨x, hx, hidentity, hrunning⟩ := h.owned j t hold
      refine ⟨x, mem_exchange hx ?_, hidentity, hrunning⟩
      intro heq
      rw [heq] at hrunning
      cases hrunning
    rw [InFlight.tokens_track] at ht
    split at ht
    case isFalse => exact hbefore ht
    case isTrue hj =>
      subst hj
      rcases List.mem_append.1 ht with hold | hnew
      · exact hbefore hold
      · rw [List.mem_singleton.1 hnew]
        exact ⟨_, List.mem_cons_self, rfl, rfl⟩
  kept := by
    rw [List.forall_mem_cons]
    constructor
    · rintro t ⟨⟩
      left
      rw [InFlight.tokens_track, if_pos rfl]
      exact List.mem_append_right _ List.mem_cons_self
    · intro x hx t ht
      rcases h.kept x (List.mem_cons_of_mem _ hx) t ht with hlisted | hcancelled
      · left
        rw [InFlight.tokens_track]
        split
        case isTrue hi => exact List.mem_append_left _ (hi ▸ hlisted)
        case isFalse => exact hlisted
      · exact .inr hcancelled
  below := by
    rw [List.forall_mem_cons]
    constructor
    · rintro t ⟨⟩
      exact Nat.lt_succ_self _
    · intro x hx t ht
      exact Nat.lt_succ_of_lt (h.below x (List.mem_cons_of_mem _ hx) t ht)
  distinct := by
    show (l.inFlight.next :: hs.filterMap (·.2.token?)).Nodup
    refine List.nodup_cons.2 ⟨?_, h.distinct⟩
    intro hmem
    obtain ⟨x, hx, htoken⟩ := List.mem_filterMap.1 hmem
    exact Nat.lt_irrefl _ (h.below x (List.mem_cons_of_mem _ hx) _ htoken)
  once j := by
    rw [InFlight.tokens_track]
    split
    case isFalse => exact h.once j
    case isTrue =>
      refine List.nodup_append.2 ⟨h.once i, List.nodup_singleton _, ?_⟩
      intro t ht u hu
      rw [List.mem_singleton.1 hu]
      exact Nat.ne_of_lt (h.lt_next ht)
  guarded j hj := by
    obtain ⟨t, ht⟩ := h.guarded j (InFlight.blank_of_track hj)
    exact ⟨t, mem_exchange ht nofun⟩

/-- **Untracking drops the handler's own token**, also from an entry that came after an abort. -/
theorem untrack {t : Token} {ran : Except Error Outcome × Nat × Nat}
    (h : Sound l ((i, .tracked t (.done ran)) :: hs)) :
    Sound { l with inFlight := l.inFlight.untrack i t } ((i, .untracked t) :: hs) where
  owned j u hu := by
    rw [InFlight.tokens_untrack] at hu
    split at hu
    case isTrue hj =>
      subst hj
      obtain ⟨hlisted, hne⟩ := List.mem_filter.1 hu
      obtain ⟨x, hx, hidentity, hrunning⟩ := h.owned j u hlisted
      refine ⟨x, mem_exchange hx ?_, hidentity, hrunning⟩
      intro heq
      rw [heq] at hrunning
      exact of_decide_eq_true hne (Option.some.inj hrunning).symm
    case isFalse hj =>
      obtain ⟨x, hx, hidentity, hrunning⟩ := h.owned j u hu
      rcases List.mem_cons.1 hx with rfl | hx
      · exact absurd hidentity.symm hj
      · exact ⟨x, List.mem_cons_of_mem _ hx, hidentity, hrunning⟩
  kept := by
    rw [List.forall_mem_cons]
    refine ⟨nofun, fun x hx u hu => ?_⟩
    have hne : u ≠ t := by
      rintro rfl
      refine (List.nodup_cons.1 (show (u :: hs.filterMap (·.2.token?)).Nodup from h.distinct)).1 ?_
      exact List.mem_filterMap.2 ⟨x, hx, running?_of_token? hu⟩
    rcases h.kept x (List.mem_cons_of_mem _ hx) u hu with hlisted | hcancelled
    · left
      rw [InFlight.tokens_untrack]
      split
      case isTrue hi => exact List.mem_filter.2 ⟨hi ▸ hlisted, decide_eq_true hne⟩
      case isFalse => exact hlisted
    · exact .inr hcancelled
  below := by
    have hnext : (l.inFlight.untrack i t).next = l.inFlight.next := by
      unfold InFlight.untrack
      split <;> rfl
    rw [hnext]
    exact List.forall_mem_cons.2 (List.forall_mem_cons.1 h.below)
  distinct := h.distinct
  once j := by
    rw [InFlight.tokens_untrack]
    split
    · exact (h.once i).filter _
    · exact h.once j
  guarded j hj := by
    rcases InFlight.blank_of_untrack hj with rfl | hblank
    · exact ⟨t, List.mem_cons_self⟩
    · obtain ⟨u, hu⟩ := h.guarded j hblank
      exact ⟨u, mem_exchange hu nofun⟩

/-- **An entry without tokens is nobody's**, so removing it loses nothing. -/
theorem sweep {t : Token} (h : Sound l ((i, .untracked t) :: hs)) :
    Sound { l with inFlight := l.inFlight.sweep i } ((i, .finished t) :: hs) where
  owned j u hu := by
    rw [InFlight.tokens_sweep] at hu
    obtain ⟨x, hx, hidentity, hrunning⟩ := h.owned j u hu
    refine ⟨x, mem_exchange hx ?_, hidentity, hrunning⟩
    intro heq
    rw [heq] at hrunning
    cases hrunning
  kept := by
    rw [List.forall_mem_cons]
    refine ⟨nofun, fun x hx u hu => ?_⟩
    rw [InFlight.tokens_sweep]
    exact h.kept x (List.mem_cons_of_mem _ hx) u hu
  below := by
    have hnext : (l.inFlight.sweep i).next = l.inFlight.next := by
      unfold InFlight.sweep
      split <;> rfl
    rw [hnext]
    exact List.forall_mem_cons.2 (List.forall_mem_cons.1 h.below)
  distinct := h.distinct
  once j := by
    rw [InFlight.tokens_sweep]
    exact h.once j
  guarded j hj := by
    obtain ⟨hne, hblank⟩ := InFlight.blank_of_sweep hj
    obtain ⟨u, hu⟩ := h.guarded j hblank
    rcases List.mem_cons.1 hu with heq | hu
    · exact absurd (Prod.mk.inj heq).1 hne
    · exact ⟨u, List.mem_cons_of_mem _ hu⟩

/-- **An abort cancels what it takes away.** -/
theorem abort (h : Sound l hs) (i : Identity) :
    Sound ⟨(l.inFlight.abort i).2, l.inFlight.tokens i ++ l.cancelled⟩ hs where
  owned j t ht := by
    rw [InFlight.tokens_abort] at ht
    split at ht
    · cases ht
    · exact h.owned j t ht
  kept x hx t ht := by
    rcases h.kept x hx t ht with hlisted | hcancelled
    · by_cases hi : x.1 = i
      · exact .inr (List.mem_append_left _ (hi ▸ hlisted))
      · left
        rw [InFlight.tokens_abort, if_neg hi]
        exact hlisted
    · exact .inr (List.mem_append_right _ hcancelled)
  below := h.below
  distinct := h.distinct
  once j := by
    rw [InFlight.tokens_abort]
    split
    · exact List.nodup_nil
    · exact h.once j
  guarded j hj := h.guarded j (InFlight.blank_of_abort hj)

/-- **Every move keeps the table in agreement with the phases.** -/
theorem moves (h : Sound l ((i, ph) :: hs)) (hm : ph.Moves i r a ph') (ha : l.Answers r a l') :
    Sound l' ((i, ph') :: hs) := by
  cases hm with
  | track t body =>
    obtain ⟨rfl, rfl⟩ := ha
    exact h.track body
  | work t next a hr =>
    rw [eq_of_answers hr ha]
    exact h.relabel rfl rfl nofun
  | untrack t ran u =>
    rw [show l' = _ from ha]
    exact h.untrack
  | sweep t u =>
    rw [show l' = _ from ha]
    exact h.sweep

end Ledger.Sound

/-- **No handler takes a token but its own out of the table**, and it does so by untracking. -/
theorem Phase.Moves.untrack_of_left {l l' : Ledger} {i j : Identity} {t : Token} {ph ph' : Phase}
    {r : Request} {a : r.Answer} (hm : ph.Moves i r a ph') (ha : l.Answers r a l')
    (hbefore : t ∈ l.inFlight.tokens j) (hafter : t ∉ l'.inFlight.tokens j) :
    j = i ∧ ph.running? = some t ∧ r = .untrack i t := by
  cases hm with
  | track u body =>
    obtain ⟨-, rfl⟩ := ha
    rw [InFlight.tokens_track] at hafter
    split at hafter
    case isTrue hj => exact absurd (List.mem_append_left _ (hj ▸ hbefore)) hafter
    case isFalse => exact absurd hbefore hafter
  | work u next a hr =>
    rw [Ledger.eq_of_answers hr ha] at hafter
    exact absurd hbefore hafter
  | untrack u ran =>
    rw [show l' = _ from ha, InFlight.tokens_untrack] at hafter
    split at hafter
    case isFalse => exact absurd hbefore hafter
    case isTrue hj =>
      subst hj
      have htu : t = u := by
        by_contra hne
        exact hafter (List.mem_filter.2 ⟨hbefore, decide_eq_true hne⟩)
      exact ⟨rfl, congrArg some htu.symm, by rw [htu]⟩
  | sweep u =>
    rw [show l' = _ from ha, InFlight.tokens_sweep] at hafter
    exact absurd hbefore hafter

/-- Handlers cancel nothing. -/
theorem Phase.Moves.cancelled_eq {l l' : Ledger} {i : Identity} {ph ph' : Phase} {r : Request}
    {a : r.Answer} (hm : ph.Moves i r a ph') (ha : l.Answers r a l') :
    l'.cancelled = l.cancelled := by
  cases hm with
  | track =>
    obtain ⟨-, rfl⟩ := ha
    rfl
  | work u next a hr => rw [Ledger.eq_of_answers hr ha]
  | untrack | sweep => rw [show l' = _ from ha]

end Parley.Agent
