import Parley.Proofs.Agent.Exclusion
import Parley.Proofs.Agent.Shown
import Parley.Proofs.Gateway.Isolation
import Parley.Proofs.Session.Effects

/-!
# Transcripts are made of blocks

Runs write sessions of their own identity only (`runLocked_owns`).  So if the identities of the runs
own no key in common, the runs that write one session are runs of one identity, and these exclude
each other.  If nothing else writes the session, its transcript is what was there before and then,
run by run, all that the run added to it (`Blocks`): first the runs that have released their lock,
then the one that is inside, and the others have added nothing.

`in_turn_of_reached` says this of every pool that is reached, along with what the locks do.
-/

namespace Parley

namespace Store

variable {s s' : Store} {key : SessionKey}

/-- What was said in a session, without the times. -/
def spoken (s : Store) (key : SessionKey) : List (Role × Content) :=
  (s.said key).map fun t => (t.role, t.content)

theorem spoken_congr (h : s'.said = s.said) : s'.spoken key = s.spoken key := by
  rw [spoken, h, spoken]

/-- A turn that was taken is added to its session, and to no other. -/
theorem spoken_append (s : Store) (k : SessionKey) (t : Turn) (now : Timestamp)
    (key : SessionKey) :
    (s.append k t now).2.spoken key = s.spoken key ++
      match (s.append k t now).1 with
      | .ok _ => if k = key then [(t.role, t.content)] else []
      | .error _ => [] := by
  rcases s.append_cases k t now with ⟨e, s', heq, huntouched⟩ | ⟨x, disk, hx, -, heq⟩ <;>
    rw [heq]
  · rw [List.append_nil]
    exact spoken_congr (said_congr huntouched.sessions)
  · dsimp only
    by_cases hk : k = key
    · subst hk
      have hcontent : ((x.extend t now).1.role, (x.extend t now).1.content) =
          (t.role, t.content) := by
        rw [Session.extend]
        dsimp only
        split <;> rfl
      rw [if_pos rfl, ← hcontent, spoken, spoken, said, said, hx, Table.get?_set_self]
      exact List.map_append
    · rw [if_neg hk, List.append_nil, spoken, spoken, said, said, Table.get?_set,
        if_neg (Ne.symm hk)]

end Store

end Parley

namespace Parley.Agent

open Program

variable {i : Identity} {key : SessionKey} {c c' : Commons} {r : Request} {a : r.Answer}
  {s s' : Stage} {log : Log}

/-! ## What a run adds to a session -/

/-- What a log adds to a session. -/
def wrote (key : SessionKey) (log : Log) : List (Role × Content) :=
  (added log).filterMap fun x => if x.1 = key then some x.2 else none

theorem wrote_append (key : SessionKey) (log log' : Log) :
    wrote key (log ++ log') = wrote key log ++ wrote key log' := by
  rw [wrote, added, List.filterMap_append, List.filterMap_append]
  rfl

theorem spoken_of_append {k : SessionKey} {t : Turn} {a : Except Error Unit}
    (ha : c.Stores (.append k t) a c') (key : SessionKey) :
    c'.store.spoken key = c.store.spoken key ++ wrote key [⟨.store (.append k t), a⟩] := by
  obtain ⟨now, hanswer, -⟩ := ha
  have hc : c'.store = (c.store.append k t now).2 := congrArg Prod.snd hanswer.symm
  have ha : a = (c.store.append k t now).1 := congrArg Prod.fst hanswer.symm
  rw [hc, Store.spoken_append, ← ha]
  cases a with
  | error e => rfl
  | ok u =>
    dsimp only
    by_cases hk : k = key
    · rw [if_pos hk]
      simp [wrote, added, added?, hk]
    · rw [if_neg hk]
      simp [wrote, added, added?, hk]

/-- **Inside, a run adds to a session what its log says**, and nothing else changes there. -/
theorem spoken_of_isInner (hr : r.IsInner i) (ha : c.Answers r a c') (key : SessionKey) :
    c'.store.spoken key = c.store.spoken key ++ wrote key [⟨r, a⟩] := by
  by_cases hadds : ∃ k t, r = .store (.append k t)
  · obtain ⟨k, t, rfl⟩ := hadds
    exact spoken_of_append ha key
  have hsaid := said_of_isInner hr (fun k t h => hadds ⟨k, t, h⟩) ha
  have hnone : added? ⟨r, a⟩ = none := by
    cases r with
    | store q =>
      cases q with
      | append k t => exact absurd ⟨k, t, rfl⟩ hadds
      | _ => rfl
    | _ => rfl
  rw [wrote, added, List.filterMap_cons_none hnone, Store.spoken_congr hsaid]
  exact (List.append_nil _).symm

/-- A move adds to a session what the log says. -/
theorem spoken_of_moves (hm : s.Moves i r a s') (ha : c.Answers r a c') (key : SessionKey) :
    c'.store.spoken key = c.store.spoken key ++ wrote key [⟨r, a⟩] := by
  have hsame (h : c'.store = c.store) : c'.store.spoken key = c.store.spoken key ++ [] := by
    rw [h, List.append_nil]
  cases hm with
  | work lock next a hr => exact spoken_of_isInner hr ha key
  | fetch body lock => exact hsame ha.2
  | take lock body u => exact hsame ha.2
  | free lock result u => exact hsame (by rw [show c' = _ from ha])
  | drop lock u => exact hsame (by rw [show c' = _ from ha])
  | sweep u => exact hsame (by rw [show c' = _ from ha])

/-! ## Whose sessions a run writes -/

/-- A run of an identity writes the identity's sessions only, if these are what it is given. -/
def owning (i : Identity) : Contract interface Unit where
  allows _ r :=
    match r with
    | .store (.append k _) => i.owns k
    | _ => True
  moves _ r a _ :=
    match r, a with
    | .store (.resolve j), .ok k => j = i → i.owns k
    | _, _ => True

/-- What comes of a run is of no account. -/
def whatever {α : Type} (_ : Unit) (_ : α) : Prop := True

theorem isFor_owns {α : Type} {p : Program interface α} (key : SessionKey)
    (hp : p.AsksOnly (Request.IsFor key)) (hkey : i.owns key) : p.Keeps (owning i) whatever () := by
  refine hp.keeps (fun r hr => ?_) (fun _ _ _ _ _ => rfl) fun _ => trivial
  cases r with
  | store r =>
    cases r with
    | append k t =>
      obtain rfl : k = key := hr
      exact hkey
    | get k => trivial
    | _ => exact hr.elim
  | _ => trivial

/-- **A run writes sessions of its identity only.** -/
theorem runLocked_owns (setup : Setup) (i : Identity) (text : String) (token : Token) :
    (runLocked setup i text token).Keeps (owning i) whatever () := by
  refine ⟨trivial, fun resolved _ hresolved => ?_⟩
  cases (resolved : Except Error SessionKey) with
  | error e => trivial
  | ok key =>
    have hkey : i.owns key := hresolved rfl
    refine ⟨trivial, fun start _ _ => ?_⟩
    refine keeps_bind (p := (Mission.answer ⟨setup, i, key, token, _⟩ text).run)
      ((isFor_owns key (answer_asksOnly text) hkey).mono fun _ result _ => ?_)
    cases result with
    | ok o => exact isFor_owns key ⟨trivial, fun _ => trivial⟩ hkey
    | error e =>
      exact isFor_owns key ⟨trivial, fun _ => ⟨trivial, fun _ => trivial⟩⟩ hkey

theorem orderly_of_answers (h : c.store.Orderly) (ha : c.Answers r a c') : c'.store.Orderly := by
  rcases ha.cases with ⟨q, b, -, now, hanswer, -⟩ | ⟨-, hstore, -⟩
  · have horderly := h.answer now q
    rwa [hanswer] at horderly
  · rw [hstore]
    exact h

/-- A store in order gives an identity its own sessions. -/
theorem owning_of_answers (h : c.store.Orderly) (ha : c.Answers r a c') :
    (owning i).moves () r a () := by
  cases r with
  | store q =>
    cases q with
    | resolve j =>
      obtain ⟨now, hanswer, -⟩ := ha
      have ha : (c.store.resolve j now).1 = a := congrArg Prod.fst hanswer
      cases (a : Except Error SessionKey) with
      | error e => trivial
      | ok k =>
        rintro rfl
        exact Gateway.owns_of_resolve h ha
    | _ => trivial
  | _ => trivial

/-- What a move adds to a session is the identity's to add, from inside. -/
theorem owns_of_wrote (hm : s.Moves i r a s') (hwrote : wrote key [⟨r, a⟩] ≠ [])
    (hkeeps : ∀ lock body, s = .inside lock body → body.Keeps (owning i) whatever ()) :
    i.owns key ∧ s.lock?.isSome ∧ s'.lock?.isSome := by
  cases hm with
  | work lock next a hr =>
    refine ⟨?_, rfl, rfl⟩
    have hallows := (hkeeps lock _ rfl).1
    rcases hr with rfl | ⟨k, hr⟩
    · exact absurd rfl hwrote
    cases r with
    | store q =>
      cases q with
      | append k' t =>
        by_cases hk : k' = key
        · subst hk
          exact hallows
        · refine absurd ?_ hwrote
          cases (a : Except Error Unit) with
          | error e => rfl
          | ok u => simp [wrote, added, added?, hk]
      | get k' => exact absurd rfl hwrote
      | _ => exact hr.elim
    | _ => exact absurd rfl hwrote
  | fetch | take | free | drop | sweep => exact absurd rfl hwrote

/-! ## Blocks -/

/-- The runs of a pool as they wrote a session, and what was said in it before them and after: some
that are over, perhaps one that is inside, and some that have added nothing. -/
structure Blocks (key : SessionKey) (before after : List (Role × Content))
    (staged past : List (Member × Stage)) (current : Option (Member × Stage))
    (waiting : List (Member × Stage)) : Prop where
  perm : staged.Perm (past ++ (current.toList ++ waiting))
  complete : ∀ x ∈ past, x.2.IsOver
  inside : ∀ x ∈ current, x.1.identity.owns key ∧ x.2.lock?.isSome
  silent : ∀ x ∈ waiting, wrote key x.1.log = []
  said : after = before ++ (past ++ current.toList).flatMap fun x => wrote key x.1.log

section Replaced

variable {before after after' : List (Role × Content)}
  {front back past waiting : List (Member × Stage)} {current : Option (Member × Stage)}
  {x x' : Member × Stage}

theorem perm_exchange {α : Type} {x x' : α} {front back front' back' : List α}
    (h : (front ++ x :: back).Perm (front' ++ x :: back')) :
    (front ++ x' :: back).Perm (front' ++ x' :: back') := by
  have hrest : (front ++ back).Perm (front' ++ back') :=
    (List.perm_cons x).1 (List.perm_middle.symm.trans (h.trans List.perm_middle))
  exact List.perm_middle.trans (((List.perm_cons x').2 hrest).trans List.perm_middle.symm)

/-- A run that is over adds nothing more. -/
theorem Blocks.of_over (h : Blocks key before after (front ++ x :: back) past current waiting)
    (hx : x ∈ past) (hover : x'.2.IsOver) (hwrote : wrote key x'.1.log = wrote key x.1.log) :
    ∃ past', Blocks key before after (front ++ x' :: back) past' current waiting := by
  obtain ⟨first, second, rfl⟩ := List.append_of_mem hx
  refine ⟨first ++ x' :: second, ?_, forall_exchange h.complete hover, h.inside, h.silent, ?_⟩
  · have hperm := h.perm
    rw [List.append_assoc, List.cons_append] at hperm ⊢
    exact perm_exchange hperm
  · rw [h.said]
    simp only [List.flatMap_append, List.flatMap_cons, hwrote]

/-- The run that is inside adds to its block. -/
theorem Blocks.of_inside (h : Blocks key before after (front ++ x :: back) past (some x) waiting)
    (hinside : x'.1.identity.owns key ∧ x'.2.lock?.isSome) {more : List (Role × Content)}
    (hwrote : wrote key x'.1.log = wrote key x.1.log ++ more) (hafter : after' = after ++ more) :
    Blocks key before after' (front ++ x' :: back) past (some x') waiting where
  perm := perm_exchange h.perm
  complete := h.complete
  inside := by
    rintro y ⟨⟩
    exact hinside
  silent := h.silent
  said := by
    rw [hafter, h.said]
    simp only [Option.toList_some, List.flatMap_append, List.flatMap_cons, List.flatMap_nil,
      List.append_nil, hwrote, List.append_assoc]

/-- The run that is inside releases its lock, and its block is complete. -/
theorem Blocks.of_free (h : Blocks key before after (front ++ x :: back) past (some x) waiting)
    (hover : x'.2.IsOver) (hwrote : wrote key x'.1.log = wrote key x.1.log) :
    Blocks key before after (front ++ x' :: back) (past ++ [x']) none waiting where
  perm := by
    rw [List.append_assoc]
    exact perm_exchange h.perm
  complete := List.forall_mem_append.2 ⟨h.complete, List.forall_mem_singleton.2 hover⟩
  inside := nofun
  silent := h.silent
  said := by
    rw [h.said]
    simp only [Option.toList_some, Option.toList_none, List.flatMap_append, List.flatMap_cons,
      List.flatMap_nil, List.append_nil, hwrote]

/-- A run that has added nothing goes on without adding anything. -/
theorem Blocks.of_silent (h : Blocks key before after (front ++ x :: back) past current waiting)
    (x' : Member × Stage) (hx : x ∈ waiting) (hwrote : wrote key x'.1.log = []) :
    ∃ waiting', Blocks key before after (front ++ x' :: back) past current waiting' := by
  obtain ⟨first, second, rfl⟩ := List.append_of_mem hx
  refine ⟨first ++ x' :: second, ?_, h.complete, h.inside, forall_exchange h.silent hwrote, h.said⟩
  have hperm := h.perm
  rw [← List.append_assoc, ← List.append_assoc] at hperm ⊢
  exact perm_exchange hperm

/-- A run begins its block while nobody else is at one. -/
theorem Blocks.of_first (h : Blocks key before after (front ++ x :: back) past none waiting)
    (x' : Member × Stage) (hx : x ∈ waiting) (hinside : x'.1.identity.owns key ∧ x'.2.lock?.isSome)
    (hafter : after' = after ++ wrote key x'.1.log) :
    ∃ waiting', Blocks key before after' (front ++ x' :: back) past (some x') waiting' := by
  obtain ⟨first, second, rfl⟩ := List.append_of_mem hx
  refine ⟨first ++ second, ?_, h.complete, ?_, ?_, ?_⟩
  · have hperm := h.perm
    rw [Option.toList_none, List.nil_append, ← List.append_assoc] at hperm
    have hmoved : (front ++ x' :: back).Perm (past ++ first ++ x' :: second) := perm_exchange hperm
    rw [List.append_assoc] at hmoved
    exact hmoved.trans (List.perm_middle.append_left past)
  · rintro y ⟨⟩
    exact hinside
  · exact fun y hy => h.silent y (Watched.mem_middle.2 (.inr hy))
  · rw [hafter, h.said]
    simp only [Option.toList_none, Option.toList_some, List.append_nil, List.flatMap_append,
      List.flatMap_cons, List.flatMap_nil, List.append_assoc]

end Replaced

/-! ## Blocks of an answered run -/

section Answered

variable {before : List (Role × Content)} {front back past waiting : List (Member × Stage)}
  {current : Option (Member × Stage)} {m m' : Member}

theorem wrote_of_log (key : SessionKey) (hlog : m'.log = m.log ++ [⟨r, a⟩]) :
    wrote key m'.log = wrote key m.log ++ wrote key [⟨r, a⟩] := by
  rw [hlog, wrote_append]

/-- A run that is over has only its handle to drop and the table to sweep. -/
theorem Blocks.answer_over
    (h : Blocks key before (c.store.spoken key) (front ++ (m, s) :: back) past current waiting)
    (hx : (m, s) ∈ past) (hlog : m'.log = m.log ++ [⟨r, a⟩]) (hm : s.Moves i r a s')
    (ha : c.Answers r a c') :
    ∃ past', Blocks key before (c'.store.spoken key) (front ++ (m', s') :: back) past' current
      waiting := by
  have hover := h.complete _ hx
  have hspoken := spoken_of_moves hm ha key
  have hwrote := wrote_of_log key hlog
  cases hm with
  | drop lock u =>
    rw [show wrote key [⟨.dropLock lock, u⟩] = [] from rfl, List.append_nil] at hspoken hwrote
    rw [hspoken]
    exact h.of_over hx trivial hwrote
  | sweep u =>
    rw [show wrote key [⟨.sweepLock i, u⟩] = [] from rfl, List.append_nil] at hspoken hwrote
    rw [hspoken]
    exact h.of_over hx trivial hwrote
  | fetch | take | work | free => exact hover.elim

/-- The run that is inside adds to its block, or releases its lock. -/
theorem Blocks.answer_current
    (h : Blocks key before (c.store.spoken key) (front ++ (m, s) :: back) past (some (m, s))
      waiting)
    (hlog : m'.log = m.log ++ [⟨r, a⟩]) (hidentity : m'.identity = m.identity)
    (hm : s.Moves i r a s') (ha : c.Answers r a c') :
    ∃ past' current', Blocks key before (c'.store.spoken key) (front ++ (m', s') :: back) past'
      current' waiting := by
  obtain ⟨hkey, hinside⟩ := h.inside _ rfl
  rw [← hidentity] at hkey
  have hspoken := spoken_of_moves hm ha key
  have hwrote := wrote_of_log key hlog
  cases hm with
  | work lock next a hr => exact ⟨past, _, h.of_inside ⟨hkey, rfl⟩ hwrote hspoken⟩
  | free lock result u =>
    rw [show wrote key [⟨.freeLock lock, u⟩] = [] from rfl, List.append_nil] at hspoken hwrote
    rw [hspoken]
    exact ⟨_, none, h.of_free trivial hwrote⟩
  | fetch | take | drop | sweep => cases hinside

end Answered

/-! ## All runs -/

/-- No two identities of the runs own a key in common. -/
def Pool.IsApart (p : Pool) : Prop :=
  ∀ m ∈ p.members, ∀ m' ∈ p.members, m.identity ≠ m'.identity → m.identity.Apart m'.identity

/-- Runs come, and keep their identities. -/
theorem Pool.isApart_of_step {who : Option Identity} {p p' : Pool} (hs : p.Step who p')
    (h : p'.IsApart) : p.IsApart := by
  have hkept : ∀ m ∈ p.members, ∃ m' ∈ p'.members, m'.identity = m.identity := by
    intro m hm
    cases hs with
    | start c members setup i text token => exact ⟨m, List.mem_append_left _ hm, rfl⟩
    | elsewhere c members now r => exact ⟨m, hm, rfl⟩
    | answer before after log next ha =>
      rcases List.mem_append.1 hm with hm | hm
      · exact ⟨m, List.mem_append_left _ hm, rfl⟩
      rcases List.mem_cons.1 hm with rfl | hm
      · exact ⟨_, List.mem_append_right _ List.mem_cons_self, rfl⟩
      · exact ⟨m, List.mem_append_right _ (List.mem_cons_of_mem _ hm), rfl⟩
  intro m hm m' hm' hne
  obtain ⟨n, hn, hidentity⟩ := hkept m hm
  obtain ⟨n', hn', hidentity'⟩ := hkept m' hm'
  rw [← hidentity, ← hidentity'] at hne ⊢
  exact h n hn n' hn' hne

/-- A run that is inside is to write its own sessions only. -/
def Stage.Keeps (i : Identity) (s : Stage) : Prop :=
  ∀ lock body, s = .inside lock body → body.Keeps (owning i) whatever ()

theorem Stage.keeps_of_moves {next : r.Answer → Program interface (Except Error Outcome)}
    (hfits : s.Fits i log (.ask r next)) (h : s.Keeps i) (hm : s.Moves i r a s')
    (horderly : c.store.Orderly) (ha : c.Answers r a c') : s'.Keeps i := by
  rintro lock body rfl
  cases hm with
  | take lock body u =>
    obtain ⟨⟨setup, text, token, rfl⟩, -, -⟩ := hfits
    exact runLocked_owns setup i text token
  | work lock next a hr => exact (h lock _ rfl).2 a () (owning_of_answers horderly ha)

/-- A pool whose store is in order, with the blocks that make a transcript. -/
structure Written (key : SessionKey) (before : List (Role × Content)) (p : Pool)
    (staged : List (Member × Stage)) : Prop extends Tracked p staged where
  inOrder : p.commons.store.Orderly
  keeps : ∀ x ∈ staged, x.2.Keeps x.1.identity
  blocks : ∃ past current waiting,
    Blocks key before (p.commons.store.spoken key) staged past current waiting

namespace Written

variable {p : Pool} {staged : List (Member × Stage)} {before : List (Role × Content)}
  {members : List Member}

theorem empty {s : Store} (h : s.Orderly) (key : SessionKey) :
    Written key (s.spoken key) { commons := { store := s } } [] where
  toTracked := .empty s
  inOrder := h
  keeps := nofun
  blocks := ⟨[], none, [], .nil, nofun, nofun, nofun, (List.append_nil _).symm⟩

theorem start (h : Written key before ⟨c, members⟩ staged) (i : Identity) (setup : Setup)
    (text : String) (token : Token) :
    Written key before ⟨c, members ++ [⟨i, [], run setup i text token⟩]⟩
      (staged ++ [(⟨i, [], run setup i text token⟩, .fresh (runLocked setup i text token))]) where
  toTracked := h.toTracked.start i setup text token
  inOrder := h.inOrder
  keeps := List.forall_mem_append.2 ⟨h.keeps, List.forall_mem_singleton.2 nofun⟩
  blocks := by
    obtain ⟨past, current, waiting, hblocks⟩ := h.blocks
    refine ⟨past, current,
      waiting ++ [(⟨i, [], run setup i text token⟩, .fresh (runLocked setup i text token))],
      ?_, hblocks.complete, hblocks.inside,
      List.forall_mem_append.2 ⟨hblocks.silent, List.forall_mem_singleton.2 rfl⟩, hblocks.said⟩
    rw [← List.append_assoc, ← List.append_assoc]
    refine List.Perm.append_right _ ?_
    rw [List.append_assoc]
    exact hblocks.perm

/-- A store in order that says the same. -/
theorem withStore (h : Written key before ⟨c, members⟩ staged) {store : Store}
    (horderly : store.Orderly) (hspoken : store.spoken key = c.store.spoken key) :
    Written key before ⟨{ c with store }, members⟩ staged where
  toTracked := h.toTracked.withStore store
  inOrder := horderly
  keeps := h.keeps
  blocks := by
    rw [hspoken]
    exact h.blocks

/-- A run that writes a session finds nobody else at a block of it: it would be inside for the
same identity. -/
theorem current_eq_none {front back past waiting : List (Member × Stage)}
    {current : Option (Member × Stage)} {m : Member} {said : List (Role × Content)}
    (h : Written key before p (front ++ (m, s) :: back)) (hapart : p.IsApart)
    (hblocks : Blocks key before said (front ++ (m, s) :: back) past current waiting)
    (hcurrent : (m, s) ∉ current) (hkey : m.identity.owns key) (hinside : s.lock?.isSome) :
    current = none := by
  obtain ⟨lock, hlock⟩ := Option.isSome_iff_exists.1 hinside
  cases current with
  | none => rfl
  | some y =>
    exfalso
    obtain ⟨hykey, hyinside⟩ := hblocks.inside y rfl
    have hy : y ∈ front ++ (m, s) :: back :=
      hblocks.perm.mem_iff.2 (List.mem_append_right _ List.mem_cons_self)
    have hidentity : y.1.identity = m.identity := by
      have hm : (m, s) ∈ front ++ (m, s) :: back := Watched.mem_middle.2 (.inl rfl)
      by_contra hne
      exact hapart _ (h.members ▸ List.mem_map_of_mem hy) _ (h.members ▸ List.mem_map_of_mem hm)
        hne key hykey hkey
    rcases Watched.mem_middle.1 hy with rfl | hy
    · exact hcurrent rfl
    · rw [h.toStaged.alone hlock hy hidentity] at hyinside
      cases hyinside

/-- **The transcript remains made of blocks when a run is answered.** -/
theorem blocks_of_answer {front back : List (Member × Stage)} {m m' : Member}
    (h : Written key before p (front ++ (m, s) :: back)) (hapart : p.IsApart)
    (hlog : m'.log = m.log ++ [⟨r, a⟩]) (hidentity : m'.identity = m.identity)
    (hm : s.Moves m.identity r a s') (ha : p.commons.Answers r a c') :
    ∃ past current waiting, Blocks key before (c'.store.spoken key)
      (front ++ (m', s') :: back) past current waiting := by
  obtain ⟨past, current, waiting, hblocks⟩ := h.blocks
  have hmem : (m, s) ∈ front ++ (m, s) :: back := Watched.mem_middle.2 (.inl rfl)
  by_cases hcurrent : (m, s) ∈ current
  · cases hcurrent
    obtain ⟨past', current', hcurrent'⟩ := hblocks.answer_current hlog hidentity hm ha
    exact ⟨past', current', waiting, hcurrent'⟩
  rcases List.mem_append.1 (hblocks.perm.mem_iff.1 hmem) with hover | hrest
  · obtain ⟨past', hover'⟩ := hblocks.answer_over hover hlog hm ha
    exact ⟨past', current, waiting, hover'⟩
  have hwaiting : (m, s) ∈ waiting := by
    rcases List.mem_append.1 hrest with hmem | hmem
    · exact absurd (Option.mem_toList.1 hmem) hcurrent
    · exact hmem
  have hspoken := spoken_of_moves hm ha key
  have hwrote := wrote_of_log key hlog
  rw [hblocks.silent _ hwaiting, List.nil_append] at hwrote
  by_cases hnone : wrote key [⟨r, a⟩] = []
  · rw [hnone, List.append_nil] at hspoken
    rw [hspoken]
    obtain ⟨waiting', hwaiting'⟩ := hblocks.of_silent (m', s') hwaiting (hwrote.trans hnone)
    exact ⟨past, current, waiting', hwaiting'⟩
  · obtain ⟨hkey, hinside, hstays⟩ := owns_of_wrote hm hnone (h.keeps _ hmem)
    obtain rfl := h.current_eq_none hapart hblocks hcurrent hkey hinside
    rw [← hwrote] at hspoken
    rw [← hidentity] at hkey
    obtain ⟨waiting', hwaiting'⟩ :=
      hblocks.of_first (m', s') hwaiting ⟨hkey, hstays⟩ hspoken
    exact ⟨past, _, waiting', hwaiting'⟩

/-- **What is known stays known when a run is answered.** -/
theorem answer {front back : List Member}
    {next : r.Answer → Program interface (Except Error Outcome)}
    (h : Written key before ⟨c, front ++ ⟨i, log, .ask r next⟩ :: back⟩ staged)
    (hapart : Pool.IsApart ⟨c, front ++ ⟨i, log, .ask r next⟩ :: back⟩) (ha : c.Answers r a c') :
    ∃ staged', Written key before ⟨c', front ++ ⟨i, log ++ [⟨r, a⟩], next a⟩ :: back⟩ staged' := by
  obtain ⟨first, second, s, s', rfl, hmoves, htracked⟩ := h.toTracked.answer ha
  have hmem : (⟨i, log, .ask r next⟩, s) ∈ first ++ (⟨i, log, .ask r next⟩, s) :: second :=
    Watched.mem_middle.2 (.inl rfl)
  have hkeeps := Stage.keeps_of_moves (h.fits _ hmem) (h.keeps _ hmem) hmoves h.inOrder ha
  exact ⟨_, htracked, orderly_of_answers h.inOrder ha, forall_exchange h.keeps hkeeps,
    h.blocks_of_answer hapart rfl rfl hmoves ha⟩

end Written

/-- **The transcript is made of blocks, whatever runs do and in whatever order.** -/
theorem Pool.Reached.written {P : StoreRequest → Prop} {s : Store} {p : Pool}
    (h : p.Reached P s) (hquiet : ∀ r, P r → r.IsQuiet) (horderly : s.Orderly)
    (hapart : p.IsApart) (key : SessionKey) : ∃ staged, Written key (s.spoken key) p staged := by
  induction h with
  | empty => exact ⟨[], .empty horderly key⟩
  | @run i p p' _ hs ih =>
    have hbefore := Pool.isApart_of_step hs hapart
    obtain ⟨staged, hstaged⟩ := ih hbefore
    cases hs with
    | start c members setup i text token => exact ⟨_, hstaged.start i setup text token⟩
    | answer before after log next ha => exact hstaged.answer hbefore ha
  | request _ now r hr ih =>
    obtain ⟨staged, hstaged⟩ := ih hapart
    exact ⟨staged, hstaged.withStore (hstaged.inOrder.answer now r)
      (Store.spoken_congr (Store.said_answer_of_isQuiet _ now (hquiet r hr)))⟩
  | disturbed _ _ d' ih =>
    obtain ⟨staged, hstaged⟩ := ih hapart
    exact ⟨staged, hstaged.withStore (hstaged.inOrder.withDisk (some d'))
      (Store.spoken_congr (Store.said_congr rfl))⟩

/-- The transcript of a session is what it was in a store, and then run by run what each run added:
the runs that have released their lock, and the one that is inside, if there is one at this session.
The others have added nothing. -/
def Pool.InBlocks (s : Store) (p : Pool) (key : SessionKey) : Prop :=
  ∃ (past : List Member) (current : Option Member) (waiting : List Member),
    p.members.Perm (past ++ (current.toList ++ waiting)) ∧
    (∀ m ∈ past, ∃ lock, .freed lock ∈ lockings m.log) ∧
    (∀ m ∈ current, m.IsInside ∧ ¬ m.IsDone ∧ m.identity.owns key) ∧
    (∀ m ∈ waiting, wrote key m.log = []) ∧
    p.commons.store.spoken key =
      s.spoken key ++ (past ++ current.toList).flatMap fun m => wrote key m.log

theorem Written.inBlocks {s : Store} {p : Pool} {staged : List (Member × Stage)}
    (h : Written key (s.spoken key) p staged) : p.InBlocks s key := by
  obtain ⟨past, current, waiting, hblocks⟩ := h.blocks
  have hmem {x : Member × Stage} (hx : x ∈ past ++ (current.toList ++ waiting)) : x ∈ staged :=
    hblocks.perm.mem_iff.2 hx
  refine ⟨past.map Prod.fst, current.map Prod.fst, waiting.map Prod.fst, ?_, ?_, ?_, ?_, ?_⟩
  · rw [h.members, Option.toList_map, ← List.map_append, ← List.map_append]
    exact hblocks.perm.map _
  · intro m hm
    obtain ⟨x, hx, rfl⟩ := List.mem_map.1 hm
    exact Stage.exists_freed_of_marks (h.marks x (hmem (List.mem_append_left _ hx)))
      (hblocks.complete x hx)
  · intro m hm
    obtain ⟨x, hx, rfl⟩ := Option.map_eq_some_iff.1 hm
    obtain ⟨hkey, hinside⟩ := hblocks.inside x hx
    have hstaged := hmem (List.mem_append_right _
      (List.mem_append_left _ (Option.mem_toList.2 hx)))
    refine ⟨Stage.exists_taken_of_marks (h.marks x hstaged) hinside, ?_, hkey⟩
    rintro ⟨result, hresult⟩
    have hfits := h.fits x hstaged
    rw [hresult] at hfits
    rw [Stage.eq_finished hfits] at hinside
    cases hinside
  · exact List.forall_mem_map.2 hblocks.silent
  · rw [hblocks.said, Option.toList_map, ← List.map_append, List.flatMap_map]

/-- **Runs of one identity exclude each other.**  Whatever runs do and in whatever order, and
whatever is asked of the store beside them: at most one run of an identity is inside, whoever has a
handle on a lock finds it in the table, and when all runs are done the table is empty.  If nothing
else writes the sessions and no two of the identities own a key in common, each transcript is made
of the blocks of the runs. -/
theorem in_turn_of_reached {P : StoreRequest → Prop} {s : Store} {p : Pool} (h : p.Reached P s) :
    (p.members.Pairwise fun m m' =>
      m.identity = m'.identity → ¬ (m.IsInside ∧ m'.IsInside)) ∧
    (∀ m ∈ p.members, ∀ lock, m.Holds lock →
      p.commons.locks.entries.get? m.identity = some lock) ∧
    ((∀ m ∈ p.members, m.IsDone) → p.commons.locks.entries = .empty) ∧
    ((∀ r, P r → r.IsQuiet) → Gateway.Reached s → p.IsApart → ∀ key, p.InBlocks s key) := by
  obtain ⟨staged, hstaged⟩ := h.tracked
  refine ⟨hstaged.alone, hstaged.kept, hstaged.cleared, fun hquiet hs hapart key => ?_⟩
  obtain ⟨staged', hwritten⟩ := h.written hquiet hs.orderly hapart key
  exact hwritten.inBlocks

/-! ## Runs in a world -/

/-- A run goes on in a world. -/
theorem Pool.Reached.course {P : StoreRequest → Prop} {s : Store} {i : Identity}
    {front back : List Member} (n : Nat) {w : World} {log : Log}
    {p : Program interface (Except Error Outcome)}
    (h : Pool.Reached P s ⟨⟨w.store, w.locks⟩, front ++ ⟨i, log, p⟩ :: back⟩) :
    Pool.Reached P s ⟨⟨(w.course n p).1.store, (w.course n p).1.locks⟩,
      front ++ ⟨i, log ++ (w.course n p).2.1, (w.course n p).2.2⟩ :: back⟩ := by
  refine World.course_induction (P := fun w log p =>
    Pool.Reached P s ⟨⟨w.store, w.locks⟩, front ++ ⟨i, log, p⟩ :: back⟩) (fun ha h => ?_) n h
  exact h.run (.answer front back _ _ (answers_of_world ha))

/-- Runs that start in a world one after the other, each of which is answered so many times. -/
def Pool.played (w : World) (members : List Member) : List (Identity × String × Nat) → Pool
  | [] => ⟨⟨w.store, w.locks⟩, members⟩
  | (i, text, n) :: rest =>
    let course := w.course n (run {} i text members.length)
    played course.1 (members ++ [⟨i, course.2.1, course.2.2⟩]) rest

theorem Pool.reached_played {P : StoreRequest → Prop} {s : Store} {w : World}
    {members : List Member} (h : Pool.Reached P s ⟨⟨w.store, w.locks⟩, members⟩)
    (runs : List (Identity × String × Nat)) : (played w members runs).Reached P s := by
  induction runs generalizing w members with
  | nil => exact h
  | cons x runs ih =>
    obtain ⟨i, text, n⟩ := x
    exact ih ((h.run (.start _ members {} i text members.length)).course n)

/-- Two runs of one chat and one of another.  The first is inside and has recorded its message, the
second waits, and the third is done; or they came one after the other and are all done. -/
theorem in_turn_of_three_runs :
    let i : Identity := ⟨"cli", "local"⟩
    let j : Identity := ⟨"ws", "1"⟩
    let w : World := .rehearsal [.text "yes"]
    let p := Pool.played w [] [(i, "one", 6), (i, "two", 6), (j, "three", 60)]
    let q := Pool.played w [] [(i, "one", 60), (i, "two", 60), (j, "three", 60)]
    p.Reached (fun _ => False) .inMemory ∧ p.IsApart ∧
      p.members.map (fun m => (m.identity, lockings m.log)) =
        [(i, [.fetched 0, .taken 0]), (i, [.fetched 0]),
          (j, [.fetched 1, .taken 1, .freed 1, .dropped 1, .swept])] ∧
      (p.commons.store.said i.defaultKey).map Turn.text? = [some "one"] ∧
      (p.members.Pairwise fun m m' =>
        m.identity = m'.identity → ¬ (m.IsInside ∧ m'.IsInside)) ∧
      (∀ m ∈ p.members, ∀ lock, m.Holds lock →
        p.commons.locks.entries.get? m.identity = some lock) ∧
      (∀ key, p.InBlocks .inMemory key) ∧
      q.members.length = 3 ∧ (∀ m ∈ q.members, m.IsDone) ∧ q.commons.locks.entries = .empty ∧
      (q.commons.store.said i.defaultKey).map Turn.text? =
        [some "one", some "yes", some "two", some "(script exhausted)"] := by
  intro i j w p q
  have hreached : p.Reached (fun _ => False) .inMemory := Pool.reached_played .empty _
  have hmembers : p.members.map (fun m => (m.identity, lockings m.log)) =
      [(i, [.fetched 0, .taken 0]), (i, [.fetched 0]),
        (j, [.fetched 1, .taken 1, .freed 1, .dropped 1, .swept])] := by decide +kernel
  have hij : i.Apart j := apart_iff.2 (by decide +kernel)
  have hidentity : ∀ m ∈ p.members, m.identity = i ∨ m.identity = j := by
    intro m hm
    have hmem := List.mem_map_of_mem (f := fun m => (m.identity, lockings m.log)) hm
    rw [hmembers] at hmem
    simp only [List.mem_cons, List.not_mem_nil, or_false, Prod.mk.injEq] at hmem
    rcases hmem with ⟨h, -⟩ | ⟨h, -⟩ | ⟨h, -⟩
    · exact .inl h
    · exact .inl h
    · exact .inr h
  have hapart : p.IsApart := by
    intro m hm m' hm' hne
    rcases hidentity m hm with h | h <;> rcases hidentity m' hm' with h' | h' <;>
      rw [h, h'] at hne ⊢
    · exact absurd rfl hne
    · exact hij
    · exact fun key hj hi => hij key hi hj
    · exact absurd rfl hne
  have hdone : ∀ m ∈ q.members, m.IsDone := by decide +kernel
  have hafter : q.Reached (fun _ => False) .inMemory := Pool.reached_played .empty _
  obtain ⟨halone, hkept, -, hblocks⟩ := in_turn_of_reached hreached
  exact ⟨hreached, hapart, hmembers, by decide +kernel, halone, hkept,
    hblocks nofun .inMemory hapart, by decide +kernel, hdone,
    (in_turn_of_reached hafter).2.2.1 hdone, by decide +kernel⟩

end Parley.Agent
