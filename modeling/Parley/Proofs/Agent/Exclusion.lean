import Parley.Proofs.Agent.Pool
import Parley.Proofs.Table

/-!
# Runs of one identity exclude each other

What a run did about its lock is read off its log (`lockings`): it fetched a lock, took it, freed
it, dropped it and swept the table, in this order and not more.  Its stage says how far it came
(`Stage.Marks`).

A pool is `Reached` when it comes of a store without runs, by steps of runs in any order, requests
from elsewhere, and whatever happens to the directory.  In such a pool the locks are in order, and
each entry of the table has a run that has yet to sweep it (`Guarded`): a run that sweeps leaves the
entry only to one that still has a handle on the lock.  So at most one run of an identity is inside
(`Tracked.alone`), nobody loses the lock it holds or waits for (`Tracked.kept`), and when all runs
are done the table is empty (`Tracked.cleared`).
-/

namespace Parley.Agent

open Program

/-! ## What a run did about its lock -/

/-- A request about locks, with the lock. -/
inductive Locking where
  | fetched (lock : Nat)
  | taken (lock : Nat)
  | freed (lock : Nat)
  | dropped (lock : Nat)
  | swept
  deriving DecidableEq, Repr

/-- What an inquiry does about locks. -/
def locking? : interface.Inquiry → Option Locking
  | ⟨.fetchLock _, lock⟩ => some (.fetched lock)
  | ⟨.takeLock lock, _⟩ => some (.taken lock)
  | ⟨.freeLock lock, _⟩ => some (.freed lock)
  | ⟨.dropLock lock, _⟩ => some (.dropped lock)
  | ⟨.sweepLock _, _⟩ => some .swept
  | _ => none

/-- What a log does about locks. -/
def lockings (log : Log) : List Locking := log.filterMap locking?

namespace Member

/-- The run has acquired its lock and not released it. -/
def IsInside (m : Member) : Prop :=
  ∃ lock, .taken lock ∈ lockings m.log ∧ .freed lock ∉ lockings m.log

/-- The run has a handle on a lock: it waits for it or holds it, or has just released it. -/
def Holds (m : Member) (lock : Nat) : Prop :=
  .fetched lock ∈ lockings m.log ∧ .dropped lock ∉ lockings m.log

/-- The run has come to an end. -/
def IsDone (m : Member) : Prop := ∃ result, m.program = .done result

instance (m : Member) : Decidable m.IsDone :=
  match h : m.program with
  | .done result => .isTrue ⟨result, h⟩
  | .ask _ _ => .isFalse fun ⟨_, h'⟩ => nomatch h.symm.trans h'

end Member

namespace Stage

variable {i : Identity} {s s' : Stage} {r : Request} {a : r.Answer} {log : Log}

/-- What a run at a stage did about its lock. -/
def Marks : Stage → List Locking → Prop
  | fresh _, l => l = []
  | queued lock _, l => l = [.fetched lock]
  | inside lock _, l => l = [.fetched lock, .taken lock]
  | freed lock, l => l = [.fetched lock, .taken lock, .freed lock]
  | dropped, l => ∃ lock, l = [.fetched lock, .taken lock, .freed lock, .dropped lock]
  | finished, l => ∃ lock, l = [.fetched lock, .taken lock, .freed lock, .dropped lock, .swept]

theorem lockings_append (log : Log) (x : interface.Inquiry) :
    lockings (log ++ [x]) = lockings log ++ (locking? x).toList := by
  rw [lockings, lockings, List.filterMap_append]
  cases hx : locking? x with
  | none => rw [List.filterMap_cons_none hx]; rfl
  | some l => rw [List.filterMap_cons_some hx]; rfl

/-- Inside, nothing is done about locks. -/
theorem locking?_of_isInner (h : r.IsInner i) (a : r.Answer) : locking? ⟨r, a⟩ = none := by
  rcases h with rfl | ⟨key, h⟩
  · rfl
  · cases r <;> first | rfl | exact h.elim

/-- **The marks go with the stage.** -/
theorem marks_of_moves (h : s.Marks (lockings log)) (hmoves : s.Moves i r a s') :
    s'.Marks (lockings (log ++ [⟨r, a⟩])) := by
  rw [lockings_append]
  cases hmoves with
  | fetch body lock => rw [show lockings log = [] from h]; rfl
  | take lock body u => rw [show lockings log = [.fetched lock] from h]; rfl
  | work lock next a hr =>
    rw [locking?_of_isInner hr, Option.toList_none, List.append_nil]
    exact h
  | free lock result u => rw [show lockings log = [.fetched lock, .taken lock] from h]; rfl
  | drop lock u =>
    rw [show lockings log = [.fetched lock, .taken lock, .freed lock] from h]
    exact ⟨lock, rfl⟩
  | sweep u =>
    obtain ⟨lock, hlog⟩ := h
    rw [hlog]
    exact ⟨lock, rfl⟩

/-- A run that is inside by its marks is so by its stage. -/
theorem lock?_of_marks {l : List Locking} {lock : Nat} (h : s.Marks l)
    (htaken : .taken lock ∈ l) (hfreed : .freed lock ∉ l) : s.lock? = some lock := by
  cases s with
  | fresh | queued | inside | freed => simp_all [Marks, lock?]
  | dropped | finished =>
    obtain ⟨lock', rfl⟩ := h
    simp_all

/-- A run that has a handle by its marks has it by its stage. -/
theorem handle?_of_marks {l : List Locking} {lock : Nat} (h : s.Marks l)
    (hfetched : .fetched lock ∈ l) (hdropped : .dropped lock ∉ l) : s.handle? = some lock := by
  cases s with
  | fresh | queued | inside | freed => simp_all [Marks, handle?]
  | dropped | finished =>
    obtain ⟨lock', rfl⟩ := h
    simp_all

/-- A run that is inside by its stage is so by its marks. -/
theorem exists_taken_of_marks {l : List Locking} (h : s.Marks l) (hinside : s.lock?.isSome) :
    ∃ lock, .taken lock ∈ l ∧ .freed lock ∉ l := by
  cases s with
  | inside lock body =>
    refine ⟨lock, ?_⟩
    simp_all [Marks]
  | fresh | queued | freed | dropped | finished => cases hinside

/-- A run at this stage has released its lock. -/
def IsOver : Stage → Prop
  | freed _ | dropped | finished => True
  | _ => False

theorem exists_freed_of_marks {l : List Locking} (h : s.Marks l) (hover : s.IsOver) :
    ∃ lock, .freed lock ∈ l := by
  cases s with
  | freed lock =>
    refine ⟨lock, ?_⟩
    simp_all [Marks]
  | dropped | finished =>
    obtain ⟨lock, rfl⟩ := h
    exact ⟨lock, by simp⟩
  | fresh | queued | inside => exact hover.elim

/-- A run at this stage has fetched its lock and has yet to sweep the table. -/
def IsActive : Stage → Prop
  | fresh _ | finished => False
  | _ => True

theorem isActive_of_handle? {lock : Nat} (h : s.handle? = some lock) : s.IsActive := by
  cases s with
  | queued | inside | freed => trivial
  | fresh | dropped | finished => cases h

/-- A run that came to an end has swept the table. -/
theorem eq_finished {result : Except Error Outcome} (h : s.Fits i log (.done result)) :
    s = finished := by
  cases s with
  | finished => rfl
  | fresh body => cases h.2.2
  | queued lock body => cases h.2.2
  | inside lock body =>
    obtain ⟨-, hp⟩ := h
    cases body <;> cases hp
  | freed lock =>
    obtain ⟨result', hp⟩ := h
    cases hp
  | dropped =>
    obtain ⟨result', hp⟩ := h
    cases hp

end Stage

/-! ## The table -/

section Table

variable {l l' : RunLocks} {i j : Identity} {lock : Nat} {ms ms' : List (Identity × Stage)}

theorem entry_of_fetch (hf : l.fetch i = (lock, l')) (hj : j ≠ i) :
    l'.entries.get? j = l.entries.get? j := by
  rw [RunLocks.fetch] at hf
  split at hf <;> cases hf
  · rfl
  · rw [Table.get?_set, if_neg hj]

theorem entry_of_take (ht : l.take? lock = some l') : l'.entries = l.entries := by
  rw [RunLocks.take?] at ht
  split at ht <;> cases ht
  rfl

theorem entry_of_sweep (hj : j ≠ i) : (l.sweep i).entries.get? j = l.entries.get? j := by
  rw [RunLocks.sweep]
  split
  · split
    · exact (Table.get?_erase ..).trans (if_neg hj)
    · rfl
  · rfl

/-- An entry that was not swept away has a lock that somebody has a handle on. -/
theorem count_of_sweep (h : (l.sweep i).entries.get? i = some lock) :
    l.entries.get? i = some lock ∧ l.count lock ≠ 0 := by
  rw [RunLocks.sweep] at h
  split at h
  case h_1 lock' hentry =>
    split at h
    · rw [Table.get?_erase_self] at h
      cases h
    · rename_i hcount
      rw [hentry] at h
      cases h
      exact ⟨hentry, hcount⟩
  case h_2 hnone =>
    rw [hnone] at h
    cases h

/-- Each entry has a run of its identity that has yet to sweep the table. -/
def Guarded (l : RunLocks) (ms : List (Identity × Stage)) : Prop :=
  ∀ i lock, l.entries.get? i = some lock → ∃ s, (i, s) ∈ ms ∧ s.IsActive

theorem Guarded.perm (hp : ms.Perm ms') (h : Guarded l ms) : Guarded l ms' := by
  intro i lock hentry
  obtain ⟨s, hmem, hs⟩ := h i lock hentry
  exact ⟨s, hp.mem_iff.1 hmem, hs⟩

variable {c c' : Commons} {s s' : Stage} {r : Request} {a : r.Answer}

/-- A run changes the entry of its own identity only. -/
theorem entry_of_moves (hm : s.Moves i r a s') (ha : c.Answers r a c') (hj : j ≠ i) :
    c'.locks.entries.get? j = c.locks.entries.get? j := by
  cases hm with
  | fetch body lock => exact entry_of_fetch ha.1 hj
  | take lock body u => rw [entry_of_take ha.1]
  | work lock next a hr => rw [Orderly.locks_of_isInner hr ha]
  | free lock result u => rw [show c' = _ from ha]; rfl
  | drop lock u => rw [show c' = _ from ha]; rfl
  | sweep u =>
    rw [show c' = _ from ha]
    exact entry_of_sweep hj

/-- **Each move keeps every entry guarded.** -/
theorem guarded_of_moves (horderly : Orderly c.locks ((i, s) :: ms))
    (h : Guarded c.locks ((i, s) :: ms)) (hm : s.Moves i r a s') (ha : c.Answers r a c') :
    Guarded c'.locks ((i, s') :: ms) := by
  intro j lock hentry
  by_cases hj : j = i
  · subst hj
    by_cases hactive : s'.IsActive
    · exact ⟨s', List.mem_cons_self, hactive⟩
    · -- only a sweep leaves the run idle, and then the entry is there for another's handle
      cases hm with
      | sweep u =>
        rw [show c' = _ from ha] at hentry
        obtain ⟨hbefore, hcount⟩ := count_of_sweep hentry
        rw [horderly.counted, Nat.ne_zero_iff_zero_lt, List.countP_pos_iff] at hcount
        obtain ⟨⟨k, t⟩, hmem, hhandle⟩ := hcount
        have hhandle : t.handle? = some lock := of_decide_eq_true hhandle
        have hk : k = j :=
          horderly.injective _ _ _ (horderly.registered _ hmem lock hhandle) hbefore
        subst hk
        rcases List.mem_cons.1 hmem with heq | hmem
        · cases heq
          cases hhandle
        · exact ⟨t, List.mem_cons_of_mem _ hmem, Stage.isActive_of_handle? hhandle⟩
      | fetch | take | work | free | drop => exact absurd trivial hactive
  · rw [entry_of_moves hm ha hj] at hentry
    obtain ⟨t, hmem, ht⟩ := h j lock hentry
    rcases List.mem_cons.1 hmem with heq | hmem
    · exact absurd (Prod.mk.inj heq).1 hj
    · exact ⟨t, List.mem_cons_of_mem _ hmem, ht⟩

end Table

/-! ## Histories -/

/-- The pools that come of a store without runs.  The requests from elsewhere are some of those that
have a property. -/
inductive Pool.Reached (P : StoreRequest → Prop) (s : Store) : Pool → Prop where
  | empty : Reached P s { commons := { store := s } }
  /-- A run starts, or one of its requests is answered. -/
  | run {i : Identity} {p p' : Pool} (h : Reached P s p) (hs : p.Step (some i) p') :
    Reached P s p'
  | request {c : Commons} {members : List Member} (h : Reached P s ⟨c, members⟩)
    (now : Timestamp) (r : StoreRequest) (hr : P r) :
    Reached P s ⟨{ c with store := (Store.answer now r c.store).2 }, members⟩
  /-- Files appear and vanish, and the system refuses other actions than before. -/
  | disturbed {store : Store} {locks : RunLocks} {members : List Member} {d : Directory}
    (h : Reached P s ⟨⟨store, locks⟩, members⟩) (hdisk : store.disk = some d) (d' : Directory) :
    Reached P s ⟨⟨{ store with disk := some d' }, locks⟩, members⟩

/-- The runs of a pool, each with its stage and the marks of it, and the locks in order, with a run
to guard each entry. -/
structure Tracked (p : Pool) (staged : List (Member × Stage)) : Prop extends Staged p staged where
  marks : ∀ x ∈ staged, x.2.Marks (lockings x.1.log)
  guarded : Guarded p.commons.locks (staged.map fun x => (x.1.identity, x.2))

namespace Tracked

variable {p : Pool} {c c' : Commons} {i : Identity} {staged : List (Member × Stage)}
  {members : List Member}

theorem empty (s : Store) : Tracked { commons := { store := s } } [] where
  members := rfl
  fits := nofun
  orderly := orderly_empty
  marks := nofun
  guarded := nofun

theorem start (h : Tracked ⟨c, members⟩ staged) (i : Identity) (setup : Setup) (text : String)
    (token : Token) :
    Tracked ⟨c, members ++ [⟨i, [], run setup i text token⟩]⟩
      (staged ++ [(⟨i, [], run setup i text token⟩, .fresh (runLocked setup i text token))]) where
  toStaged := h.toStaged.start setup text token
  marks := List.forall_mem_append.2 ⟨h.marks, List.forall_mem_singleton.2 rfl⟩
  guarded := by
    intro j lock hentry
    obtain ⟨s, hmem, hs⟩ := h.guarded j lock hentry
    rw [List.map_append]
    exact ⟨s, List.mem_append_left _ hmem, hs⟩

/-- The store is of no account. -/
theorem withStore (h : Tracked ⟨c, members⟩ staged) (store : Store) :
    Tracked ⟨{ c with store }, members⟩ staged :=
  ⟨⟨h.members, h.fits, h.orderly⟩, h.marks, h.guarded⟩

/-- **An answered run moves on**, and all others stay where they are. -/
theorem answer {before after : List Member} {log : Log} {r : Request} {a : r.Answer}
    {next : r.Answer → Program interface (Except Error Outcome)}
    (h : Tracked ⟨c, before ++ ⟨i, log, .ask r next⟩ :: after⟩ staged) (ha : c.Answers r a c') :
    ∃ (front back : List (Member × Stage)) (s s' : Stage),
      staged = front ++ (⟨i, log, .ask r next⟩, s) :: back ∧ s.Moves i r a s' ∧
      Tracked ⟨c', before ++ ⟨i, log ++ [⟨r, a⟩], next a⟩ :: after⟩
        (front ++ (⟨i, log ++ [⟨r, a⟩], next a⟩, s') :: back) := by
  obtain ⟨front, back, s, s', rfl, hmoves, hstaged⟩ := h.toStaged.answer ha
  have hmarks := h.marks _ (List.mem_append_right _ List.mem_cons_self)
  refine ⟨front, back, s, s', rfl, hmoves, hstaged,
    forall_exchange h.marks (Stage.marks_of_moves hmarks hmoves), ?_⟩
  have horderly := h.orderly
  have hguarded := h.guarded
  rw [List.map_append, List.map_cons] at horderly hguarded ⊢
  exact (guarded_of_moves (horderly.perm List.perm_middle) (hguarded.perm List.perm_middle)
    hmoves ha).perm List.perm_middle.symm

/-- Two runs of one identity are not both inside. -/
theorem alone (h : Tracked p staged) :
    p.members.Pairwise fun m m' => m.identity = m'.identity → ¬ (m.IsInside ∧ m'.IsInside) := by
  rw [h.members, List.pairwise_map, List.pairwise_iff_forall_sublist]
  rintro x y hsub hidentity ⟨⟨lock, htaken, hfreed⟩, lock', htaken', hfreed'⟩
  have hx := hsub.subset List.mem_cons_self
  have hy := hsub.subset (List.mem_cons_of_mem _ List.mem_cons_self)
  have hlock := Stage.lock?_of_marks (h.marks x hx) htaken hfreed
  have hlock' := Stage.lock?_of_marks (h.marks y hy) htaken' hfreed'
  have hentry := h.orderly.registered _ (List.mem_map_of_mem hx) lock
    (Stage.handle?_of_lock? hlock)
  have hentry' := h.orderly.registered _ (List.mem_map_of_mem hy) lock'
    (Stage.handle?_of_lock? hlock')
  dsimp only at hentry hentry'
  rw [hidentity, hentry'] at hentry
  cases hentry
  -- both have the one lock of their identity, which is taken once
  have hcount : 2 ≤ (staged.map fun x => (x.1.identity, x.2)).countP (·.2.lock? = some lock) := by
    have htwo := (hsub.map fun x => (x.1.identity, x.2)).countP_le (p := (·.2.lock? = some lock))
    simpa [hlock, hlock'] using htwo
  have hone := h.orderly.exclusive lock
  rw [h.orderly.held] at hone
  omega

/-- A run that has a handle on a lock finds it in the table. -/
theorem kept (h : Tracked p staged) :
    ∀ m ∈ p.members, ∀ lock, m.Holds lock →
      p.commons.locks.entries.get? m.identity = some lock := by
  intro m hm lock ⟨hfetched, hdropped⟩
  rw [h.members] at hm
  obtain ⟨x, hx, rfl⟩ := List.mem_map.1 hm
  exact h.orderly.registered _ (List.mem_map_of_mem hx) lock
    (Stage.handle?_of_marks (h.marks x hx) hfetched hdropped)

/-- When all runs are done, no lock is left. -/
theorem cleared (h : Tracked p staged) (hdone : ∀ m ∈ p.members, m.IsDone) :
    p.commons.locks.entries = .empty := by
  have hnone (i : Identity) : p.commons.locks.entries.get? i = none := by
    rw [Option.eq_none_iff_forall_ne_some]
    intro lock hentry
    obtain ⟨s, hmem, hs⟩ := h.guarded i lock hentry
    obtain ⟨x, hx, heq⟩ := List.mem_map.1 hmem
    obtain ⟨result, hresult⟩ := hdone x.1 (h.members ▸ List.mem_map_of_mem hx)
    have hfits := h.fits x hx
    rw [hresult] at hfits
    rw [← (Prod.mk.inj heq).2, Stage.eq_finished hfits] at hs
    exact hs
  exact Table.eq_empty hnone

end Tracked

/-- **Whatever runs do and in whatever order, the locks are in order.** -/
theorem Pool.Reached.tracked {P : StoreRequest → Prop} {s : Store} {p : Pool}
    (h : p.Reached P s) : ∃ staged, Tracked p staged := by
  induction h with
  | empty => exact ⟨[], .empty s⟩
  | @run i p p' _ hs ih =>
    obtain ⟨staged, hstaged⟩ := ih
    cases hs with
    | start c members setup i text token => exact ⟨_, hstaged.start i setup text token⟩
    | answer before after log next ha =>
      obtain ⟨front, back, s, s', -, -, hnext⟩ := hstaged.answer ha
      exact ⟨_, hnext⟩
  | request _ now r _ ih =>
    obtain ⟨staged, hstaged⟩ := ih
    exact ⟨staged, hstaged.withStore _⟩
  | disturbed _ _ d' ih =>
    obtain ⟨staged, hstaged⟩ := ih
    exact ⟨staged, hstaged.withStore _⟩

end Parley.Agent
