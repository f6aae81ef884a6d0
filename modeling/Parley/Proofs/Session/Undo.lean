import Parley.Proofs.Session.Effects

/-!
# Changes that are undone

A request that fails has changed nothing, but for drafts (`unchanged_of_error`).

The operations of the store keep a change after the directory took it.  The other order is to
change what is in memory first, to write, and to undo the change by hand when the directory
refuses: the turn is taken off the transcript again and the time put back, the transcript is put
back, the override that was there before is set again, or the new one removed.  `answerInPlace`
does it in that order.  Whatever the directory refuses, the undoing is complete and both orders
come to the same (`agree_answerInPlace`); only a table of overrides may list them in another order
after it.
-/

namespace Parley

/-- A session without its last turn, and with another time of its last change. -/
def Session.retract (x : Session) (updatedAt : Timestamp) : Session :=
  { x with transcript := x.transcript.dropLast, updatedAt }

theorem Session.retract_extend (x : Session) (t : Turn) (now : Timestamp) :
    (x.extend t now).2.retract x.updatedAt = x := by
  rw [extend, retract]
  dsimp only
  rw [List.dropLast_concat]

namespace Store

variable {s changed : Store} {undo undo' : Store → Store} {key : SessionKey} {x : Session}
  {write : Directory → Except FileError Unit × Directory}

/-! ## Changing first -/

/-- A turn is added first, and taken off again. -/
def appendInPlace (s : Store) (key : SessionKey) (t : Turn) (now : Timestamp) :
    Except Error Unit × Store :=
  match s.sessions.get? key with
  | none => (.error (.sessionNotFound key.text), s)
  | some x =>
    let extended := x.extend t now
    attempt (s.put key extended.2) (·.recordTurn extended.2 extended.1)
      (·.put key (extended.2.retract x.updatedAt))

/-- The transcript is emptied first, and put back. -/
def clearInPlace (s : Store) (key : SessionKey) (now : Timestamp) : Except Error Unit × Store :=
  match s.sessions.get? key with
  | none => (.error (.sessionNotFound key.text), s)
  | some x =>
    let y := { x with transcript := [], updatedAt := now }
    attempt (s.put key y) (·.writeSession y)
      (·.put key { y with transcript := x.transcript, updatedAt := x.updatedAt })

/-- The override of an identity as it was before. -/
def putBack (i : Identity) (before : Option SessionKey) (s : Store) : Store :=
  match before with
  | some key => { s with overrides := s.overrides.set i key }
  | none => { s with overrides := s.overrides.erase i }

/-- The override is set first, and the one before it set again, if there was one. -/
def switchInPlace (s : Store) (i : Identity) (raw : String) : Except Error Summary × Store :=
  match s.lookup i raw with
  | .error e => (.error e, s)
  | .ok key =>
    let overrides := s.overrides.set i key
    match attempt { s with overrides } (·.writeOverrides overrides)
      (putBack i (s.overrides.get? i)) with
    | (.error e, s) => (.error e, s)
    | (.ok (), s) =>
      match s.sessions.get? key with
      | some session => (.ok (session.summary true), s)
      | none => (.error (.sessionNotFound raw), s)

/-- The override is removed first, and set again. -/
def resetInPlace (s : Store) (i : Identity) : Except Error Unit × Store :=
  match s.overrides.get? i with
  | none => (.ok (), s)
  | some before =>
    let overrides := s.overrides.erase i
    attempt { s with overrides } (·.writeOverrides overrides) (putBack i before)

/-- The answer to a request, and the store after it, when changes are made first and undone. -/
def answerInPlace (now : Timestamp) : (r : StoreRequest) → Store → r.Answer × Store
  | .append key t, s => s.appendInPlace key t now
  | .clear key, s => s.clearInPlace key now
  | .switch i name, s => s.switchInPlace i name
  | .reset i, s => s.resetInPlace i
  | r, s => answer now r s

/-! ## Undoing -/

/-- Two ways of undoing a change that come to the same. -/
theorem attempt_congr (h : ∀ disk, undo { changed with disk } = undo' { changed with disk }) :
    attempt changed write undo = attempt changed write undo' := by
  rw [attempt, attempt]
  cases changed.disk with
  | none => rfl
  | some d =>
    dsimp only
    rcases write d with ⟨e | _, d'⟩
    · exact congrArg _ (h (some d'))
    · rfl

theorem put_put (h : s.sessions.get? key = some x) (y : Session) (disk : Option Directory) :
    ({ s.put key y with disk } : Store).put key x = s.restore { s.put key y with disk } := by
  rw [put, put, restore]
  dsimp only
  rw [Table.set_set, Table.set_eq_self h]

theorem putBack_set (s : Store) (i : Identity) (key : SessionKey) (disk : Option Directory) :
    putBack i (s.overrides.get? i) { s with overrides := s.overrides.set i key, disk } =
      s.restore { s with overrides := s.overrides.set i key, disk } := by
  cases hbefore : s.overrides.get? i with
  | none =>
    rw [putBack, restore]
    dsimp only
    rw [Table.erase_set hbefore]
  | some before =>
    rw [putBack, restore]
    dsimp only
    rw [Table.set_set, Table.set_eq_self hbefore]

/-! ## Both orders -/

theorem appendInPlace_eq (s : Store) (key : SessionKey) (t : Turn) (now : Timestamp) :
    s.appendInPlace key t now = s.append key t now := by
  cases hx : s.sessions.get? key with
  | none => rw [appendInPlace, append, hx]
  | some x =>
    rw [appendInPlace, append_eq hx, hx]
    refine attempt_congr fun disk => ?_
    rw [Session.retract_extend]
    exact put_put hx _ disk

theorem clearInPlace_eq (s : Store) (key : SessionKey) (now : Timestamp) :
    s.clearInPlace key now = s.clear key now := by
  cases hx : s.sessions.get? key with
  | none => rw [clearInPlace, clear, hx]
  | some x =>
    rw [clearInPlace, clear_eq hx, hx]
    exact attempt_congr fun disk => put_put hx _ disk

theorem switchInPlace_eq (s : Store) (i : Identity) (raw : String) :
    s.switchInPlace i raw = s.switch i raw := by
  unfold switchInPlace switch
  cases s.lookup i raw with
  | error e => rfl
  | ok key =>
    have hkept : attempt { s with overrides := s.overrides.set i key }
        (·.writeOverrides (s.overrides.set i key)) (putBack i (s.overrides.get? i)) =
        s.keepOverrides (s.overrides.set i key) := by
      rw [keepOverrides_eq]
      exact attempt_congr (putBack_set s i key)
    dsimp only
    exact hkept ▸ rfl

/-- The stores hold the same; overrides are compared identity by identity. -/
structure Alike (s s' : Store) : Prop where
  sessions : s'.sessions = s.sessions
  overrides : ∀ i, s'.overrides.get? i = s.overrides.get? i
  disk : s'.disk = s.disk

/-- Two answers that are the same, and stores that hold the same. -/
def Agree {α : Type} (p q : α × Store) : Prop := p.1 = q.1 ∧ p.2.Alike q.2

theorem Agree.of_eq {α : Type} {p q : α × Store} (h : p = q) : Agree p q :=
  h ▸ ⟨rfl, rfl, fun _ => rfl, rfl⟩

theorem agree_reset (s : Store) (i : Identity) : Agree (s.reset i) (s.resetInPlace i) := by
  rw [resetInPlace, reset]
  cases hbefore : s.overrides.get? i with
  | none => exact .of_eq rfl
  | some before =>
    dsimp only
    rw [keepOverrides_eq, attempt, attempt]
    cases s.disk with
    | none => exact .of_eq rfl
    | some d =>
      dsimp only
      rcases d.writeOverrides (s.overrides.erase i) with ⟨e | _, d⟩
      · -- the override is at the end of the table now
        refine ⟨rfl, rfl, fun j => ?_, rfl⟩
        dsimp only [restore, putBack]
        rw [Table.get?_set, Table.get?_erase]
        split
        · rename_i hj
          rw [hj, hbefore]
        · rfl
      · exact .of_eq rfl

/-- **Undoing by hand undoes everything.** -/
theorem agree_answerInPlace (now : Timestamp) (r : StoreRequest) (s : Store) :
    Agree (answer now r s) (answerInPlace now r s) := by
  cases r with
  | reset i => exact agree_reset s i
  | append key t => exact .of_eq (appendInPlace_eq s key t now).symm
  | clear key => exact .of_eq (clearInPlace_eq s key now).symm
  | switch i name => exact .of_eq (switchInPlace_eq s i name).symm
  | create | resolve | delete | current | list | get | transcript | size => exact .of_eq rfl

/-! ## Failing -/

/-- **A request that fails has changed nothing, but for drafts**: no session, no override and no
other file.  When changes are made first and undone, it has changed nothing either. -/
theorem unchanged_of_error {d : Directory} (hdisk : s.disk = some d) {now : Timestamp}
    {r : StoreRequest} {e : Error} (h : r.error? (answer now r s).1 = some e) :
    (answer now r s).2.sessions = s.sessions ∧ (answer now r s).2.overrides = s.overrides ∧
      (answerInPlace now r s).2.sessions = s.sessions ∧
      (∀ i, (answerInPlace now r s).2.overrides.get? i = s.overrides.get? i) ∧
      ∃ d', (answer now r s).2.disk = some d' ∧ (answerInPlace now r s).2.disk = some d' ∧
        ∀ name, ¬ Directory.IsDraft name → d'.entries.get? name = d.entries.get? name := by
  obtain ⟨-, hsame⟩ := agree_answerInPlace now r s
  cases effect_answer now r s with
  | failed e' _ huntouched =>
    have hfiles := huntouched.disk
    rw [hdisk] at hfiles
    cases hdisk' : (answer now r s).2.disk with
    | none =>
      rw [hdisk'] at hfiles
      cases hfiles
    | some d' =>
      rw [hdisk'] at hfiles
      cases hfiles with
      | some hbeyond =>
        refine ⟨huntouched.sessions, huntouched.overrides,
          hsame.sessions.trans huntouched.sessions, fun i => ?_, d', rfl,
          hsame.disk.trans hdisk', hbeyond⟩
        rw [hsame.overrides, huntouched.overrides]
  | done hok _ =>
    rw [hok] at h
    cases h

/-- A turn is refused: the file is missing, and the draft of a new one cannot be renamed. -/
theorem unchanged_of_refused_rename :
    let i : Identity := ⟨"cli", "local"⟩
    let noon : Timestamp := ⟨1709294400, 0⟩
    let x : Session := .new i.defaultKey i none noon
    let d : Directory :=
      { refusal := fun a =>
          if a = .rename "cli_local.tmp" "cli_local.jsonl" then some .denied else none }
    let s : Store := ⟨Table.empty.set x.key x, .empty, some d⟩
    let r : StoreRequest := .append x.key (.user "hi" noon)
    r.error? (answer noon r s).1 = some (.file .denied) ∧
      (answer noon r s).2.sessions = s.sessions ∧ (answer noon r s).2.overrides = s.overrides ∧
      (answerInPlace noon r s).2.sessions = s.sessions ∧
      (∀ i, (answerInPlace noon r s).2.overrides.get? i = s.overrides.get? i) ∧
      ∃ d', (answer noon r s).2.disk = some d' ∧ (answerInPlace noon r s).2.disk = some d' ∧
        ∀ name, ¬ Directory.IsDraft name → d'.entries.get? name = d.entries.get? name := by
  intro i noon x d s r
  have hrefused : r.error? (answer noon r s).1 = some (.file .denied) := by decide +kernel
  exact ⟨hrefused, unchanged_of_error rfl hrefused⟩

end Store

end Parley
