import Parley.Proofs.Agent.Parts
import Parley.Proofs.Agent.Surroundings
import Mathlib.Data.List.Count

/-!
# Runs at once

A `Pool` is a store and the locks, with the runs that are under way.  Its steps are the start of a
run, the answer to one request of one run, and a request to the store from elsewhere; they may come
in any order.  The store and the locks answer for themselves (`Commons.Answers`); every other
answer is arbitrary, so the model, the tools, the clocks, the cancellations and the deadlines do
as they please.  What an answer leaves of the store and the locks is said once, for all requests
(`Commons.Answers.cases`).

## Stages

Where a run stands is its `Stage`.  It is not read off the program, but kept along with it
(`Stage.Fits`), and a step moves the one with the other (`moves_of_fits`).

## The locks

`Orderly` says how the locks go with the stages: whoever has a handle finds its lock in the table,
the handles are counted, and a lock is taken as often as somebody is inside, at most once.  Each
move preserves this (`Orderly.moves`), and so two runs of one identity are never both inside
(`Orderly.alone`).
-/

namespace Parley.Agent

open Program

/-! ## Pools -/

/-- What runs share. -/
structure Commons where
  store : Store := {}
  locks : RunLocks := {}

/-- An answer of the store, at some instant. -/
def Commons.Stores (c : Commons) (r : StoreRequest) (a : r.Answer) (c' : Commons) : Prop :=
  ∃ now, Store.answer now r c.store = (a, c'.store) ∧ c'.locks = c.locks

/-- Which answers there may be to a request, and what they leave behind. -/
def Commons.Answers (c : Commons) : (r : Request) → r.Answer → Commons → Prop
  | .store r, a, c' => c.Stores r a c'
  | .tool (.createSession i new), a, c' => c.Stores (.create i new) a c'
  | .tool (.switchSession i name), a, c' => c.Stores (.switch i name) a c'
  | .tool (.listSessions i), a, c' => c.Stores (.list i) a c'
  | .tool (.currentSession i), a, c' => c.Stores (.current i) a c'
  | .tool (.resetSession i), a, c' => c.Stores (.reset i) a c'
  | .fetchLock i, a, c' => c.locks.fetch i = (a, c'.locks) ∧ c'.store = c.store
  | .takeLock lock, _, c' => c.locks.take? lock = some c'.locks ∧ c'.store = c.store
  | .freeLock lock, _, c' => c' = { c with locks := c.locks.free lock }
  | .dropLock lock, _, c' => c' = { c with locks := c.locks.drop lock }
  | .sweepLock i, _, c' => c' = { c with locks := c.locks.sweep i }
  | _, _, c' => c' = c

/-- A run under way: whose it is, what it asked and was answered, and what is left of it. -/
structure Member where
  identity : Identity
  log : Log
  program : Program interface (Except Error Outcome)

/-- What runs share, and the runs. -/
structure Pool where
  commons : Commons := {}
  members : List Member := []

/-- A step, of a run of an identity or from elsewhere. -/
inductive Pool.Step : Option Identity → Pool → Pool → Prop where
  /-- A run starts. -/
  | start (c : Commons) (members : List Member) (setup : Setup) (i : Identity) (text : String)
    (token : Token) :
    Step (some i) ⟨c, members⟩ ⟨c, members ++ [⟨i, [], run setup i text token⟩]⟩
  /-- A request of a run is answered. -/
  | answer {c c' : Commons} {i : Identity} {r : Request} {a : r.Answer} (before after : List Member)
    (log : Log) (next : r.Answer → Program interface (Except Error Outcome))
    (h : c.Answers r a c') :
    Step (some i) ⟨c, before ++ ⟨i, log, .ask r next⟩ :: after⟩
      ⟨c', before ++ ⟨i, log ++ [⟨r, a⟩], next a⟩ :: after⟩
  /-- The store is used from elsewhere. -/
  | elsewhere (c : Commons) (members : List Member) (now : Timestamp) (r : StoreRequest) :
    Step none ⟨c, members⟩ ⟨{ c with store := (Store.answer now r c.store).2 }, members⟩

/-- **What an answer leaves behind**: the store has answered what the request puts to it; or nothing
was put to the store, and of the rest only the locks may have changed. -/
theorem Commons.Answers.cases {c c' : Commons} {r : Request} {a : r.Answer}
    (h : c.Answers r a c') :
    (∃ q b, r.storeRequest? = some q ∧ c.Stores q b c') ∨
      r.storeRequest? = none ∧ c'.store = c.store ∧ (r.SparesLocks → c' = c) := by
  cases r with
  | store q => exact .inl ⟨q, a, rfl, h⟩
  | tool r =>
    cases r with
    | createSession | switchSession | listSessions | currentSession | resetSession =>
      exact .inl ⟨_, _, rfl, h⟩
    | _ => exact .inr ⟨rfl, congrArg Commons.store h, fun _ => h⟩
  | fetchLock | takeLock => exact .inr ⟨rfl, h.2, False.elim⟩
  | freeLock | dropLock | sweepLock =>
    rw [show c' = _ from h]
    exact .inr ⟨rfl, rfl, False.elim⟩
  | _ => exact .inr ⟨rfl, congrArg Commons.store h, fun _ => h⟩

theorem stores_of_world {w w' : World} {r : StoreRequest} {a : r.Answer}
    (h : w.askStore r = (a, w')) :
    Commons.Stores ⟨w.store, w.locks⟩ r a ⟨w'.store, w'.locks⟩ := by
  have ha : a = (w.askStore r).1 := by rw [h]
  have hw : w' = (w.askStore r).2 := by rw [h]
  rw [ha, hw]
  exact ⟨w.clock, rfl, rfl⟩

/-- **A world answers as the commons do.** -/
theorem answers_of_world {w w' : World} {r : Request} {a : r.Answer}
    (h : w.answer? r = some (a, w')) :
    Commons.Answers ⟨w.store, w.locks⟩ r a ⟨w'.store, w'.locks⟩ := by
  have halters := World.alters_of_answer? h
  have hstays (hstore : r.storeRequest? = none) (hlocks : r.SparesLocks) :
      (⟨w'.store, w'.locks⟩ : Commons) = ⟨w.store, w.locks⟩ := by
    rw [halters.store hstore, halters.locks hlocks]
  cases r with
  | tool r =>
    cases r with
    | createSession | switchSession | listSessions | currentSession | resetSession =>
      exact stores_of_world (Option.some_inj.1 h)
    | _ => exact hstays rfl trivial
  | store r => exact stores_of_world (Option.some_inj.1 h)
  | fetchLock i =>
    cases h
    exact ⟨rfl, rfl⟩
  | takeLock lock =>
    obtain ⟨locks, htake, hw⟩ := Option.map_eq_some_iff.1 h
    cases hw
    exact ⟨htake, rfl⟩
  | freeLock | dropLock | sweepLock =>
    cases h
    rfl
  | _ => exact hstays rfl trivial

/-! ## Stages -/

/-- Where a run stands; up to the end of its time inside, with the part that is run there. -/
inductive Stage where
  | fresh (body : Program interface (Except Error Outcome))
  /-- It has a handle on a lock and waits for it. -/
  | queued (lock : Nat) (body : Program interface (Except Error Outcome))
  /-- It has the lock. -/
  | inside (lock : Nat) (body : Program interface (Except Error Outcome))
  /-- It still has the handle. -/
  | freed (lock : Nat)
  | dropped
  | finished

namespace Stage

/-- The lock that a run has a handle on. -/
def handle? : Stage → Option Nat
  | queued lock _ | inside lock _ | freed lock => some lock
  | _ => none

/-- The lock that a run has. -/
def lock? : Stage → Option Nat
  | inside lock _ => some lock
  | _ => none

theorem handle?_of_lock? {s : Stage} {lock : Nat} (h : s.lock? = some lock) :
    s.handle? = some lock := by
  cases s <;> first | exact h | cases h

/-- What is left to do after the lock was dropped. -/
def sweep (i : Identity) (result : Except Error Outcome) :
    Program interface (Except Error Outcome) :=
  .ask (.sweepLock i) fun _ => .done result

/-- What is left to do after the lock was freed. -/
def drop (i : Identity) (lock : Nat) (result : Except Error Outcome) :
    Program interface (Except Error Outcome) :=
  .ask (.dropLock lock) fun _ => sweep i result

/-- What is left to do inside, after the run's own part. -/
def leave (i : Identity) (lock : Nat) (result : Except Error Outcome) :
    Program interface (Except Error Outcome) :=
  .ask (.freeLock lock) fun _ => drop i lock result

/-- What is left to do before the run gets in. -/
def wait (i : Identity) (lock : Nat) (body : Program interface (Except Error Outcome)) :
    Program interface (Except Error Outcome) :=
  .ask (.takeLock lock) fun _ => body >>= leave i lock

/-- The part of a run that needs the lock. -/
def IsBody (i : Identity) (body : Program interface (Except Error Outcome)) : Prop :=
  ∃ setup text token, body = runLocked setup i text token

/-- How the log and the program of a run fit its stage. -/
def Fits (i : Identity) (log : Log) (p : Program interface (Except Error Outcome)) : Stage → Prop
  | fresh body => IsBody i body ∧ resolved log = [] ∧
      p = .ask (.fetchLock i) fun lock => wait i lock body
  | queued lock body => IsBody i body ∧ resolved log = [] ∧ p = wait i lock body
  | inside lock body => body.AsksOnly (Request.IsInner i) ∧ p = body >>= leave i lock
  | freed lock => ∃ result, p = drop i lock result
  | dropped => ∃ result, p = sweep i result
  | finished => ∃ result, p = .done result

/-- What an answered request does to the stage. -/
inductive Moves (i : Identity) : Stage → (r : Request) → r.Answer → Stage → Prop where
  | fetch (body : Program interface (Except Error Outcome)) (lock : Nat) :
    Moves i (fresh body) (.fetchLock i) lock (queued lock body)
  | take (lock : Nat) (body : Program interface (Except Error Outcome)) (u : Unit) :
    Moves i (queued lock body) (.takeLock lock) u (inside lock body)
  | work (lock : Nat) {r : Request} (next : r.Answer → Program interface (Except Error Outcome))
    (a : r.Answer) (h : r.IsInner i) :
    Moves i (inside lock (.ask r next)) r a (inside lock (next a))
  | free (lock : Nat) (result : Except Error Outcome) (u : Unit) :
    Moves i (inside lock (.done result)) (.freeLock lock) u (freed lock)
  | drop (lock : Nat) (u : Unit) : Moves i (freed lock) (.dropLock lock) u dropped
  | sweep (u : Unit) : Moves i dropped (.sweepLock i) u finished

/-- **An answered run moves its stage.** -/
theorem moves_of_fits {i : Identity} {s : Stage} {log : Log} {r : Request}
    {next : r.Answer → Program interface (Except Error Outcome)}
    (h : s.Fits i log (.ask r next)) (a : r.Answer) :
    ∃ s', s.Moves i r a s' ∧ s'.Fits i (log ++ [⟨r, a⟩]) (next a) := by
  cases s with
  | fresh body =>
    obtain ⟨hbody, hlog, hp⟩ := h
    cases hp
    refine ⟨_, .fetch body a, hbody, ?_, rfl⟩
    rw [resolved, List.filterMap_append, ← resolved, hlog]
    rfl
  | queued lock body =>
    obtain ⟨⟨setup, text, token, rfl⟩, hlog, hp⟩ := h
    cases hp
    exact ⟨_, .take lock _ a, runLocked_asksOnly _ _ _ _, rfl⟩
  | inside lock body =>
    obtain ⟨hinner, hp⟩ := h
    cases body with
    | done result =>
      cases hp
      exact ⟨_, .free lock result a, result, rfl⟩
    | ask r' next' =>
      cases hp
      exact ⟨_, .work lock next' a hinner.1, hinner.2 a, rfl⟩
  | freed lock =>
    obtain ⟨result, hp⟩ := h
    cases hp
    exact ⟨_, .drop lock a, result, rfl⟩
  | dropped =>
    obtain ⟨result, hp⟩ := h
    cases hp
    exact ⟨_, .sweep a, result, rfl⟩
  | finished =>
    obtain ⟨result, hp⟩ := h
    cases hp

/-- What a run asks for is asked for inside, or is about its lock. -/
theorem run_asksOnly (setup : Setup) (i : Identity) (text : String) (token : Token) :
    (run setup i text token).AsksOnly fun r : Request => r.IsInner i ∨ ¬ r.SparesLocks := by
  refine ⟨.inr id, fun lock => ⟨.inr id, fun _ =>
    asksOnly_bind (p := runLocked setup i text token) (f := leave i lock) ?_ fun _ => ?_⟩⟩
  · exact (runLocked_asksOnly setup i text token).mono fun _ => .inl
  · exact ⟨.inr id, fun _ => ⟨.inr id, fun _ => ⟨.inr id, fun _ => trivial⟩⟩⟩

/-- A run starts at the beginning. -/
theorem fits_run (setup : Setup) (i : Identity) (text : String) (token : Token) :
    (fresh (runLocked setup i text token)).Fits i [] (run setup i text token) :=
  ⟨⟨setup, text, token, rfl⟩, rfl, rfl⟩

end Stage

/-! ## The locks -/

/-- How the locks go with the stages of the runs. -/
structure Orderly (l : RunLocks) (ms : List (Identity × Stage)) : Prop where
  /-- Whoever has a handle finds its lock in the table. -/
  registered : ∀ m ∈ ms, ∀ lock, m.2.handle? = some lock → l.entries.get? m.1 = some lock
  counted : ∀ lock, l.count lock = ms.countP (·.2.handle? = some lock)
  injective : ∀ i j lock, l.entries.get? i = some lock → l.entries.get? j = some lock → i = j
  fresh : ∀ i lock, l.entries.get? i = some lock → lock < l.next
  held : ∀ lock, l.held.count lock = ms.countP (·.2.lock? = some lock)
  exclusive : ∀ lock, l.held.count lock ≤ 1

theorem orderly_empty : Orderly {} [] where
  registered := nofun
  counted _ := rfl
  injective := nofun
  fresh := nofun
  held _ := rfl
  exclusive _ := Nat.zero_le _

namespace Orderly

variable {l l' : RunLocks} {i : Identity} {s : Stage} {ms ms' : List (Identity × Stage)}
  {lock : Nat} {body : Program interface (Except Error Outcome)}

/-- The order of the runs is of no account. -/
theorem perm (hp : ms.Perm ms') (h : Orderly l ms) : Orderly l ms' where
  registered m hm := h.registered m (hp.mem_iff.2 hm)
  counted lock := (h.counted lock).trans (hp.countP_eq _)
  injective := h.injective
  fresh := h.fresh
  held lock := (h.held lock).trans (hp.countP_eq _)
  exclusive := h.exclusive

/-- A run that has no handle may come or stand anywhere. -/
theorem cons (hs : s.handle? = none) (h : Orderly l ms) : Orderly l ((i, s) :: ms) where
  registered := by
    intro m hm lock hlock
    rcases List.mem_cons.1 hm with rfl | hm
    · rw [hs] at hlock
      cases hlock
    · exact h.registered m hm lock hlock
  counted lock := by
    rw [List.countP_cons_of_neg, h.counted]
    simp only [hs, reduceCtorEq, decide_false, Bool.false_eq_true, not_false_eq_true]
  injective := h.injective
  fresh := h.fresh
  held lock := by
    rw [List.countP_cons_of_neg, h.held]
    intro hlock
    rw [Stage.handle?_of_lock? (of_decide_eq_true hlock)] at hs
    cases hs
  exclusive := h.exclusive

/-- What is said of some runs holds without one that has no handle. -/
theorem tail (hs : s.handle? = none) (h : Orderly l ((i, s) :: ms)) : Orderly l ms where
  registered m hm := h.registered m (List.mem_cons_of_mem _ hm)
  counted lock := by
    have hcount := h.counted lock
    rwa [List.countP_cons_of_neg] at hcount
    simp only [hs, reduceCtorEq, decide_false, Bool.false_eq_true, not_false_eq_true]
  injective := h.injective
  fresh := h.fresh
  held lock := by
    have hheld := h.held lock
    rwa [List.countP_cons_of_neg] at hheld
    intro hlock
    rw [Stage.handle?_of_lock? (of_decide_eq_true hlock)] at hs
    cases hs
  exclusive := h.exclusive

theorem count_set (handles : Table Nat Nat) (lock n k : Nat) :
    ((handles.set lock n).get? k).getD 0 = if lock = k then n else (handles.get? k).getD 0 := by
  rw [Table.get?_set]
  by_cases hk : lock = k
  · rw [if_pos hk, if_pos hk.symm]
    rfl
  · rw [if_neg hk, if_neg (Ne.symm hk)]

/-- Nobody has a handle on a lock that is not made yet. -/
theorem count_next (h : Orderly l ms) : ms.countP (·.2.handle? = some l.next) = 0 := by
  refine List.countP_eq_zero.2 fun m hm hlock => ?_
  have hentry := h.registered m hm l.next (of_decide_eq_true hlock)
  exact Nat.lt_irrefl _ (h.fresh _ _ hentry)

/-- One more run with a handle. -/
theorem countP_handle (hs : s.handle? = some lock) (k : Nat) :
    ((i, s) :: ms).countP (·.2.handle? = some k) =
      ms.countP (·.2.handle? = some k) + if lock = k then 1 else 0 := by
  rw [List.countP_cons, hs]
  simp only [decide_eq_true_eq, Option.some.injEq]

/-- One more run that is not inside. -/
theorem countP_outside (hs : s.lock? = none) (k : Nat) :
    ((i, s) :: ms).countP (·.2.lock? = some k) = ms.countP (·.2.lock? = some k) := by
  rw [List.countP_cons_of_neg]
  simp only [hs, reduceCtorEq, decide_false, Bool.false_eq_true, not_false_eq_true]

/-- One more run that is inside. -/
theorem countP_inside (hs : s.lock? = some lock) (k : Nat) :
    ((i, s) :: ms).countP (·.2.lock? = some k) =
      ms.countP (·.2.lock? = some k) + if lock = k then 1 else 0 := by
  rw [List.countP_cons, hs]
  simp only [decide_eq_true_eq, Option.some.injEq]

/-- A run that keeps its handle is found as before. -/
theorem registered_of_handle (s' : Stage) (h : Orderly l ((i, s) :: ms))
    (hs : s'.handle? = s.handle?) :
    ∀ m ∈ (i, s') :: ms, ∀ lock, m.2.handle? = some lock → l.entries.get? m.1 = some lock := by
  intro m hm k hk
  rcases List.mem_cons.1 hm with rfl | hm
  · exact h.registered _ List.mem_cons_self k (hs.symm.trans hk)
  · exact h.registered m (List.mem_cons_of_mem _ hm) k hk

/-- A run that keeps its handle and its lock may change in all else. -/
theorem relabel {s' : Stage} (h : Orderly l ((i, s) :: ms)) (hhandle : s'.handle? = s.handle?)
    (hlock : s'.lock? = s.lock?) : Orderly l ((i, s') :: ms) where
  registered := h.registered_of_handle s' hhandle
  counted lock := by
    rw [h.counted, List.countP_cons, List.countP_cons, hhandle]
  injective := h.injective
  fresh := h.fresh
  held lock := by
    rw [h.held, List.countP_cons, List.countP_cons, hlock]
  exclusive := h.exclusive

/-- A lock that is made has nobody yet. -/
theorem enter (h : Orderly l ms) (hentry : l.entries.get? i = none) :
    Orderly { l with entries := l.entries.set i l.next, next := l.next + 1 } ms where
  registered m hm k hk := by
    have hold := h.registered m hm k hk
    rw [Table.get?_set, if_neg]
    · exact hold
    · intro hmi
      rw [hmi, hentry] at hold
      cases hold
  counted := h.counted
  injective j k lock hj hk := by
    rw [Table.get?_set] at hj hk
    split at hj <;> split at hk <;> rename_i hij hik
    · rw [hij, hik]
    · cases hj
      exact absurd (h.fresh _ _ hk) (Nat.lt_irrefl _)
    · cases hk
      exact absurd (h.fresh _ _ hj) (Nat.lt_irrefl _)
    · exact h.injective j k lock hj hk
  fresh j lock hj := by
    rw [Table.get?_set] at hj
    split at hj
    · cases hj
      exact Nat.lt_succ_self _
    · exact Nat.lt_succ_of_lt (h.fresh j lock hj)
  held := h.held
  exclusive := h.exclusive

/-- One more run waits for a lock that is in the table, and has a handle on it. -/
theorem queue (h : Orderly l ms) (hentry : l.entries.get? i = some lock) {handles : Table Nat Nat}
    (hhandles : ∀ k, (handles.get? k).getD 0 = l.count k + if lock = k then 1 else 0) :
    Orderly { l with handles } ((i, .queued lock body) :: ms) where
  registered := by
    refine List.forall_mem_cons.2 ⟨fun k hk => ?_, h.registered⟩
    cases hk
    exact hentry
  counted k := by
    rw [countP_handle rfl, ← h.counted]
    exact hhandles k
  injective := h.injective
  fresh := h.fresh
  held k := by
    rw [countP_outside rfl]
    exact h.held k
  exclusive := h.exclusive

theorem fetch (h : Orderly l ms) (hf : l.fetch i = (lock, l')) :
    Orderly l' ((i, .queued lock body) :: ms) := by
  rw [RunLocks.fetch] at hf
  split at hf
  case h_1 lock' hentry =>
    cases hf
    refine h.queue hentry fun k => ?_
    rw [count_set]
    split
    case isTrue hk => rw [hk]
    case isFalse => rfl
  case h_2 hentry =>
    cases hf
    refine (h.enter hentry).queue (Table.get?_set_self ..) fun k => ?_
    rw [count_set]
    split
    case isTrue hk =>
      show 1 = l.count k + 1
      rw [← hk, h.counted, h.count_next]
    case isFalse => rfl

theorem take (h : Orderly l ((i, .queued lock body) :: ms)) (ht : l.take? lock = some l') :
    Orderly l' ((i, .inside lock body) :: ms) := by
  rw [RunLocks.take?] at ht
  split at ht
  · cases ht
  case isFalse hfree =>
    cases ht
    have hnone : l.held.count lock = 0 := by
      rw [List.count_eq_zero]
      intro hmem
      exact hfree (List.contains_iff_mem.2 hmem)
    have hcount (k : Nat) :
        (lock :: l.held).count k = l.held.count k + if lock = k then 1 else 0 := by
      rw [List.count_cons]
      simp only [beq_iff_eq]
    refine ⟨(h.registered_of_handle (.inside lock body) rfl :), ?_, h.injective, h.fresh, ?_, ?_⟩
    · intro k
      rw [countP_handle rfl, ← countP_handle (i := i) (s := .queued lock body) rfl]
      exact h.counted k
    · intro k
      have hheld := h.held k
      rw [countP_outside rfl] at hheld
      rw [hcount, countP_inside rfl, hheld]
    · intro k
      rw [hcount]
      split
      case isTrue hk =>
        subst hk
        omega
      case isFalse => exact h.exclusive k

theorem free (h : Orderly l ((i, .inside lock body) :: ms)) :
    Orderly (l.free lock) ((i, .freed lock) :: ms) := by
  have hcount (k : Nat) :
      (l.held.erase lock).count k = l.held.count k - if lock = k then 1 else 0 := by
    rw [List.count_erase]
    simp only [beq_iff_eq]
  refine ⟨(h.registered_of_handle (.freed lock) rfl :), ?_, h.injective, h.fresh, ?_, ?_⟩
  · intro k
    rw [countP_handle rfl, ← countP_handle (i := i) (s := .inside lock body) rfl]
    exact h.counted k
  · intro k
    have hheld := h.held k
    rw [countP_inside rfl] at hheld
    rw [countP_outside rfl, RunLocks.free, hcount, hheld, Nat.add_sub_cancel]
  · intro k
    rw [RunLocks.free, hcount]
    exact Nat.le_trans (Nat.sub_le ..) (h.exclusive k)

theorem drop (h : Orderly l ((i, .freed lock) :: ms)) :
    Orderly (l.drop lock) ((i, .dropped) :: ms) := by
  refine ⟨?_, ?_, h.injective, h.fresh, h.held, h.exclusive⟩
  · intro m hm k hk
    rcases List.mem_cons.1 hm with rfl | hm
    · cases hk
    · exact h.registered m (List.mem_cons_of_mem _ hm) k hk
  · intro k
    have hcounted := h.counted k
    rw [countP_handle rfl] at hcounted
    rw [RunLocks.drop, RunLocks.count, count_set, List.countP_cons_of_neg Bool.false_ne_true]
    by_cases hk : lock = k
    · rw [if_pos hk] at hcounted ⊢
      rw [hk, hcounted, Nat.add_sub_cancel]
    · rw [if_neg hk] at hcounted ⊢
      exact hcounted

theorem sweep (h : Orderly l ms) (j : Identity) : Orderly (l.sweep j) ms := by
  rw [RunLocks.sweep]
  split
  case h_2 => exact h
  case h_1 lock hentry =>
    split
    case isFalse => exact h
    case isTrue hnone =>
      refine ⟨?_, h.counted, ?_, ?_, h.held, h.exclusive⟩
      · intro m hm k hk
        have hm' := h.registered m hm k hk
        rw [Table.get?_erase, if_neg]
        · exact hm'
        · intro hmj
          rw [hmj, hentry] at hm'
          cases hm'
          rw [h.counted, List.countP_eq_zero] at hnone
          exact hnone m hm (decide_eq_true hk)
      · intro j' k lock' hj hk
        rw [Table.get?_erase] at hj hk
        split at hj
        · cases hj
        split at hk
        · cases hk
        exact h.injective j' k lock' hj hk
      · intro j' lock' hj
        rw [Table.get?_erase] at hj
        split at hj
        · cases hj
        exact h.fresh j' lock' hj

theorem locks_of_isInner {c c' : Commons} {r : Request} {a : r.Answer} (hr : r.IsInner i)
    (ha : c.Answers r a c') : c'.locks = c.locks := by
  have hspares : r.SparesLocks := by
    rcases hr with rfl | ⟨key, hr⟩
    · trivial
    · cases r <;> trivial
  rcases ha.cases with ⟨q, b, -, now, -, hlocks⟩ | ⟨-, -, hsame⟩
  · exact hlocks
  · rw [hsame hspares]

/-- **Every move keeps the locks in order.** -/
theorem moves {c c' : Commons} {s' : Stage} {r : Request} {a : r.Answer}
    (h : Orderly c.locks ((i, s) :: ms)) (hm : s.Moves i r a s') (ha : c.Answers r a c') :
    Orderly c'.locks ((i, s') :: ms) := by
  cases hm with
  | fetch body lock => exact (h.tail rfl).fetch ha.1
  | take lock body u => exact h.take ha.1
  | work lock next a hr =>
    rw [locks_of_isInner hr ha]
    exact h.relabel rfl rfl
  | free lock result u =>
    rw [show c' = _ from ha]
    exact h.free
  | drop lock u =>
    rw [show c' = _ from ha]
    exact h.drop
  | sweep u =>
    rw [show c' = _ from ha]
    exact ((h.tail rfl).sweep i).cons rfl

/-- **Two runs of one identity are never both inside.** -/
theorem alone (h : Orderly l ((i, s) :: ms)) (hs : s.lock? = some lock) {s' : Stage}
    (hm : (i, s') ∈ ms) : s'.lock? = none := by
  cases hs' : s'.lock? with
  | none => rfl
  | some lock' =>
    have hentry := h.registered _ List.mem_cons_self lock (Stage.handle?_of_lock? hs)
    have hentry' := h.registered _ (List.mem_cons_of_mem _ hm) lock' (Stage.handle?_of_lock? hs')
    rw [hentry] at hentry'
    cases hentry'
    have hone := h.exclusive lock
    have hpos : 0 < ms.countP (·.2.lock? = some lock) :=
      List.countP_pos_iff.2 ⟨_, hm, decide_eq_true hs'⟩
    rw [h.held, countP_inside hs, if_pos rfl] at hone
    omega

end Orderly

/-! ## Pools in order -/

/-- What all of a list have, they have with one exchanged for another that has it. -/
theorem forall_exchange {α : Type} {P : α → Prop} {x x' : α} {front back : List α}
    (h : ∀ y ∈ front ++ x :: back, P y) (hx : P x') : ∀ y ∈ front ++ x' :: back, P y := by
  rw [List.forall_mem_append, List.forall_mem_cons] at h ⊢
  exact ⟨h.1, hx, h.2.2⟩

/-- Of items that each have a companion, one that stands in the midst has its own. -/
theorem exists_companion {α β : Type} {l : List (α × β)} {before after : List α} {x : α}
    (h : before ++ x :: after = l.map Prod.fst) :
    ∃ front y back, l = front ++ (x, y) :: back ∧ before = front.map Prod.fst ∧
      after = back.map Prod.fst := by
  obtain ⟨front, rest, rfl, hbefore, hrest⟩ := List.map_eq_append_iff.1 h.symm
  obtain ⟨⟨_, y⟩, back, rfl, rfl, hafter⟩ := List.map_eq_cons_iff.1 hrest
  exact ⟨front, y, back, rfl, hbefore.symm, hafter.symm⟩

/-- The runs of a pool, each with its stage, and the locks in order. -/
structure Staged (p : Pool) (staged : List (Member × Stage)) : Prop where
  members : p.members = staged.map Prod.fst
  fits : ∀ x ∈ staged, x.2.Fits x.1.identity x.1.log x.1.program
  orderly : Orderly p.commons.locks (staged.map fun x => (x.1.identity, x.2))

namespace Staged

variable {c c' : Commons} {i : Identity} {staged : List (Member × Stage)}

theorem start {members : List Member} (h : Staged ⟨c, members⟩ staged) (setup : Setup)
    (text : String) (token : Token) :
    Staged ⟨c, members ++ [⟨i, [], run setup i text token⟩]⟩
      (staged ++ [(⟨i, [], run setup i text token⟩, .fresh (runLocked setup i text token))]) where
  members := by
    rw [List.map_append, ← h.members]
    rfl
  fits := List.forall_mem_append.2 ⟨h.fits, List.forall_mem_singleton.2 (Stage.fits_run ..)⟩
  orderly := by
    rw [List.map_append]
    exact (h.orderly.cons rfl).perm (List.perm_append_singleton _ _).symm

/-- **An answered run moves on**, and all others stay where they are. -/
theorem answer {before after : List Member} {log : Log} {r : Request} {a : r.Answer}
    {next : r.Answer → Program interface (Except Error Outcome)}
    (h : Staged ⟨c, before ++ ⟨i, log, .ask r next⟩ :: after⟩ staged) (ha : c.Answers r a c') :
    ∃ (front back : List (Member × Stage)) (s s' : Stage),
      staged = front ++ (⟨i, log, .ask r next⟩, s) :: back ∧ s.Moves i r a s' ∧
      Staged ⟨c', before ++ ⟨i, log ++ [⟨r, a⟩], next a⟩ :: after⟩
        (front ++ (⟨i, log ++ [⟨r, a⟩], next a⟩, s') :: back) := by
  obtain ⟨front, s, back, rfl, rfl, rfl⟩ := exists_companion h.members
  have hmem : ((⟨i, log, .ask r next⟩, s) : Member × Stage) ∈
      front ++ (⟨i, log, .ask r next⟩, s) :: back :=
    List.mem_append_right _ List.mem_cons_self
  obtain ⟨s', hmoves, hfits⟩ := Stage.moves_of_fits (h.fits _ hmem) a
  refine ⟨front, back, s, s', rfl, hmoves, ?_, forall_exchange h.fits hfits, ?_⟩
  · rw [List.map_append, List.map_cons]
  · have horderly := h.orderly
    rw [List.map_append, List.map_cons] at horderly ⊢
    exact ((horderly.perm List.perm_middle).moves hmoves ha).perm List.perm_middle.symm

/-- A run that is inside is the only one of its identity there. -/
theorem alone {p : Pool} {front back : List (Member × Stage)} {m : Member} {s : Stage} {lock : Nat}
    (h : Staged p (front ++ (m, s) :: back)) (hs : s.lock? = some lock) {x : Member × Stage}
    (hx : x ∈ front ++ back) (hidentity : x.1.identity = m.identity) : x.2.lock? = none := by
  have horderly := h.orderly
  rw [List.map_append, List.map_cons] at horderly
  refine (horderly.perm List.perm_middle).alone hs ?_
  rw [← List.map_append, ← hidentity]
  exact List.mem_map_of_mem hx

end Staged

end Parley.Agent
