import Parley.Proofs.Session.Keys
import Parley.Proofs.Session.Resistance
import Parley.Session.Request

/-!
# What a request can do

A request either fails, or it changes what the store has in memory in one of few ways.

* A request that fails leaves the store as it was (`Untouched`): no session and no override has
  changed, and neither has any file, but for drafts.
* A request that is answered well makes one of the changes of `Moves`, which say under what
  condition they are made.

Either way the directory resists as before: what is written for a change is written with care
(`Directory.Careful`), and the change is made if the directory takes it (`attempt`).

`effect_answer` says so of every request, whatever the directory refuses.  What requests preserve
is derived from it, without a look at the operations.
-/

namespace Parley

open SessionFile

/-- The error that a request was answered with. -/
def StoreRequest.error? : (r : StoreRequest) → r.Answer → Option Error
  | .create .., .error e | .switch .., .error e | .reset _, .error e | .resolve _, .error e
  | .transcript _, .error e | .append .., .error e | .clear _, .error e | .delete .., .error e =>
    some e
  | _, _ => none

/-! ## Files and drafts -/

namespace Directory

variable {d d' : Directory} {name other : String} {e : FileError}

/-- A name that ends like that of a draft. -/
def IsDraft (name : String) : Prop := ['.', 't', 'm', 'p'] <:+ name.toList

theorem isDraft_draftName (name : String) : IsDraft (draftName name) := by
  rw [IsDraft, draftName, String.toList_append]
  exact List.suffix_append _ _

/-- The directories hold the same, but for drafts. -/
def AgreeBeyondDrafts (d d' : Directory) : Prop :=
  ∀ name, ¬ IsDraft name → d'.entries.get? name = d.entries.get? name

/-- **A file that was not replaced leaves a draft at most.** -/
theorem agreeBeyondDrafts_replace {text : String} (h : d.replace name text = (.error e, d')) :
    d.AgreeBeyondDrafts d' := by
  rw [replace] at h
  split at h
  · cases h
    exact fun _ _ => rfl
  rename_i drafted hcreate
  split at h
  · cases h
    intro other hother
    rw [create_ok hcreate, get?_put, if_neg]
    rintro rfl
    exact hother (isDraft_draftName name)
  · cases h

/-- What is written leaves a directory that resists as before, and a draft at most when it is
refused. -/
structure Careful (write : Directory → Except FileError Unit × Directory) : Prop where
  alike : ∀ d : Directory, d.Alike (write d).2
  undone : ∀ {d d' : Directory} {e : FileError}, write d = (.error e, d') → d.AgreeBeyondDrafts d'

theorem careful_writeSession (x : Session) : Careful (·.writeSession x) :=
  ⟨fun d => alike_replace d _ _, agreeBeyondDrafts_replace⟩

theorem careful_writeOverrides (overrides : Table Identity SessionKey) :
    Careful (·.writeOverrides overrides) :=
  ⟨fun d => alike_replace d _ _, agreeBeyondDrafts_replace⟩

/-- **A turn is recorded with care**, also when the whole file is to be written. -/
theorem careful_recordTurn (x : Session) (t : Turn) : Careful (·.recordTurn x t) := by
  refine ⟨fun d => ?_, fun h => ?_⟩
  · rw [recordTurn]
    split
    · rename_i happend
      exact alike_append happend
    · exact alike_replace ..
    · exact .refl d
  · rw [recordTurn] at h
    split at h
    · cases h
    · exact agreeBeyondDrafts_replace h
    · cases h
      exact fun _ _ => rfl

end Directory

namespace Store

variable {i : Identity} {s s' : Store} {key : SessionKey} {x : Session} {now : Timestamp}

theorem alike_refl : ∀ disk : Option Directory, Option.Rel Directory.Alike disk disk
  | none => .none
  | some d => .some (.refl d)

theorem alike_trans {a b c : Option Directory} :
    Option.Rel Directory.Alike a b → Option.Rel Directory.Alike b c → Option.Rel Directory.Alike a c
  | .none, .none => .none
  | .some h, .some h' => .some (h.trans h')

/-- Nothing was changed but drafts. -/
structure Untouched (s s' : Store) : Prop where
  sessions : s'.sessions = s.sessions
  overrides : s'.overrides = s.overrides
  disk : Option.Rel Directory.AgreeBeyondDrafts s.disk s'.disk
  alike : Option.Rel Directory.Alike s.disk s'.disk

theorem Untouched.refl (s : Store) : s.Untouched s := by
  refine ⟨rfl, rfl, ?_, alike_refl _⟩
  cases s.disk with
  | none => exact .none
  | some d => exact .some fun _ _ => rfl

/-! ## Changes -/

/-- What a request may do to the sessions and the overrides, and when. -/
inductive Moves (now : Timestamp) (s : Store) :
    StoreRequest → Table SessionKey Session → Table Identity SessionKey → Prop where
  | stay (r : StoreRequest) : Moves now s r s.sessions s.overrides
  /-- A session is made under a key of the identity that is not in use. -/
  | create {i : Identity} {new : NewSession} {key : SessionKey} (hkey : i.owns key)
    (hvacant : ¬ s.sessions.contains key) :
    Moves now s (.create i new) (s.sessions.set key (.new key i new.titleOf? now)) s.overrides
  /-- The default session is made. -/
  | resolve {i : Identity} (hvacant : ¬ s.sessions.contains i.defaultKey) :
    Moves now s (.resolve i) (s.sessions.set i.defaultKey (.new i.defaultKey i none now))
      s.overrides
  /-- A session that is there, and is the identity's own, is switched in. -/
  | switch {i : Identity} {name : String} {key : SessionKey} (hkey : i.owns key)
    (hthere : s.sessions.contains key) :
    Moves now s (.switch i name) s.sessions (s.overrides.set i key)
  | reset {i : Identity} : Moves now s (.reset i) s.sessions (s.overrides.erase i)
  | append {key : SessionKey} {t : Turn} {x : Session} (hthere : s.sessions.get? key = some x) :
    Moves now s (.append key t) (s.sessions.set key (x.extend t now).2) s.overrides
  | clear {key : SessionKey} {x : Session} (hthere : s.sessions.get? key = some x) :
    Moves now s (.clear key) (s.sessions.set key { x with transcript := [], updatedAt := now })
      s.overrides
  /-- A session of the identity is removed, and its override, if it names that session. -/
  | delete {i : Identity} {name : String} {key : SessionKey} (hkey : i.owns key)
    (hthere : s.sessions.contains key) :
    Moves now s (.delete i name) (s.sessions.erase key)
      (if s.overrides.get? i = some key then s.overrides.erase i else s.overrides)

/-- What may come of a request. -/
inductive Effect (now : Timestamp) (s : Store) (r : StoreRequest) (a : r.Answer) (s' : Store) :
    Prop where
  | failed (e : Error) (herror : r.error? a = some e) (huntouched : s.Untouched s')
  | done (hok : r.error? a = none) (hmoves : Moves now s r s'.sessions s'.overrides)
    (halike : Option.Rel Directory.Alike s.disk s'.disk)

/-! ## Keeping -/

/-- A change that was made, if the directory takes what is written for it; it is undone when the
directory refuses. -/
def attempt (changed : Store) (write : Directory → Except FileError Unit × Directory)
    (undo : Store → Store) : Except Error Unit × Store :=
  match changed.disk with
  | none => (.ok (), changed)
  | some d =>
    match write d with
    | (.ok (), d) => (.ok (), { changed with disk := some d })
    | (.error e, d) => (.error (.file e), undo { changed with disk := some d })

/-- Everything in memory put back as it was. -/
def restore (s t : Store) : Store := { s with disk := t.disk }

/-- A session put under a key, in memory. -/
def put (s : Store) (key : SessionKey) (x : Session) : Store :=
  { s with sessions := s.sessions.set key x }

@[simp] theorem disk_put (s : Store) (key : SessionKey) (x : Session) :
    (s.put key x).disk = s.disk := rfl

/-- **A change is made, or everything is as before**, but for drafts. -/
theorem attempt_cases {changed : Store} {write : Directory → Except FileError Unit × Directory}
    (hwrite : Directory.Careful write) (hdisk : changed.disk = s.disk) :
    (∃ e s', attempt changed write s.restore = (.error e, s') ∧ s.Untouched s') ∨
      ∃ disk, Option.Rel Directory.Alike s.disk disk ∧
        attempt changed write s.restore = (.ok (), { changed with disk }) := by
  rw [attempt]
  cases hbefore : s.disk with
  | none =>
    refine .inr ⟨none, .none, ?_⟩
    obtain ⟨sessions, overrides, disk⟩ := changed
    obtain rfl : disk = none := hdisk.trans hbefore
    rfl
  | some d =>
    rw [hdisk.trans hbefore]
    have halike := hwrite.alike d
    dsimp only
    split
    · rename_i d' heq
      rw [heq] at halike
      exact .inr ⟨some d', .some halike, rfl⟩
    · rename_i e d' heq
      rw [heq] at halike
      exact .inl ⟨_, _, rfl, rfl, rfl, hbefore ▸ .some (hwrite.undone heq), hbefore ▸ .some halike⟩

/-- A session is put where there is none, if the directory takes it. -/
theorem insertVacant_eq (hvacant : ¬ s.sessions.contains x.key) :
    s.insertVacant x =
      ((attempt (s.put x.key x) (·.writeSession x) s.restore).1.map fun _ => true,
        (attempt (s.put x.key x) (·.writeSession x) s.restore).2) := by
  rw [insertVacant, if_neg hvacant, attempt, put]
  cases s.disk with
  | none => rfl
  | some d =>
    dsimp only
    rcases d.writeSession x with ⟨_ | _, _⟩ <;> rfl

theorem keepOverrides_eq (s : Store) (overrides : Table Identity SessionKey) :
    s.keepOverrides overrides =
      attempt { s with overrides } (·.writeOverrides overrides) s.restore := rfl

theorem append_eq (h : s.sessions.get? key = some x) (t : Turn) (now : Timestamp) :
    s.append key t now =
      attempt (s.put key (x.extend t now).2)
        (·.recordTurn (x.extend t now).2 (x.extend t now).1) s.restore := by
  rw [append, h]
  rfl

theorem clear_eq (h : s.sessions.get? key = some x) (now : Timestamp) :
    s.clear key now =
      attempt (s.put key { x with transcript := [], updatedAt := now })
        (·.writeSession { x with transcript := [], updatedAt := now }) s.restore := by
  rw [clear, h]
  rfl

/-- A session is refused, or there is one under its key already, or it is put there. -/
theorem insertVacant_cases (s : Store) (x : Session) :
    (∃ e s', s.insertVacant x = (.error e, s') ∧ s.Untouched s') ∨
      (s.insertVacant x = (.ok false, s) ∧ s.sessions.contains x.key) ∨
      ∃ disk, Option.Rel Directory.Alike s.disk disk ∧
        s.insertVacant x = (.ok true, { s with sessions := s.sessions.set x.key x, disk }) ∧
        ¬ s.sessions.contains x.key := by
  by_cases hused : s.sessions.contains x.key
  · refine .inr (.inl ⟨?_, hused⟩)
    rw [insertVacant, if_pos hused]
  · rw [insertVacant_eq hused]
    rcases attempt_cases (Directory.careful_writeSession x) (disk_put s x.key x) with
      ⟨e, s', heq, huntouched⟩ | ⟨disk, halike, heq⟩
    · exact .inl ⟨e, s', congrArg (fun p => (p.1.map fun _ => true, p.2)) heq, huntouched⟩
    · exact .inr (.inr ⟨disk, halike, congrArg (fun p => (p.1.map fun _ => true, p.2)) heq, hused⟩)

/-- Other overrides are refused or kept. -/
theorem keepOverrides_cases (s : Store) (overrides : Table Identity SessionKey) :
    (∃ e s', s.keepOverrides overrides = (.error e, s') ∧ s.Untouched s') ∨
      ∃ disk, Option.Rel Directory.Alike s.disk disk ∧
        s.keepOverrides overrides = (.ok (), { s with overrides, disk }) := by
  rw [keepOverrides_eq]
  exact attempt_cases (Directory.careful_writeOverrides overrides) rfl

/-- An override is dropped from memory, whatever the directory does. -/
theorem dropOverride_eq (s : Store) (i : Identity) :
    ∃ disk, Option.Rel Directory.Alike s.disk disk ∧
      s.dropOverride i = { s with overrides := s.overrides.erase i, disk } := by
  rw [dropOverride]
  dsimp only
  cases hdisk : s.disk with
  | none => exact ⟨none, .none, rfl⟩
  | some d => exact ⟨_, .some (Directory.alike_replace ..), rfl⟩

theorem summaryOf_ok (i : Identity) (key : SessionKey) (h : s.sessions.get? key = some x) :
    s.summaryOf i key = .ok (x.summary (s.overrides.get? i = some x.key)) := by
  rw [summaryOf, h]

/-! ## Requests -/

theorem effect_createAt {new : NewSession} (hkey : i.owns key) (allowExisting : Bool) :
    Effect now s (.create i new) (s.createAt i key new.titleOf? allowExisting now).1
      (s.createAt i key new.titleOf? allowExisting now).2 := by
  rw [createAt]
  rcases s.insertVacant_cases (.new key i new.titleOf? now) with
    ⟨e, s', heq, huntouched⟩ | ⟨heq, hused⟩ | ⟨disk, halike, heq, hvacant⟩ <;> rw [heq] <;>
    dsimp only
  · exact .failed e rfl huntouched
  · cases allowExisting with
    | false => exact .failed _ rfl (.refl s)
    | true =>
      obtain ⟨y, hy⟩ := Option.isSome_iff_exists.1 hused
      rw [if_pos rfl, summaryOf_ok i key hy]
      exact .done rfl (.stay _) (alike_refl _)
  · rw [summaryOf_ok i key (Table.get?_set_self ..)]
    exact .done rfl (.create hkey hvacant) halike

theorem effect_create (s : Store) (i : Identity) (new : NewSession) (now : Timestamp) :
    Effect now s (.create i new) (s.create i new now).1 (s.create i new now).2 := by
  rw [create]
  split
  · exact effect_createAt (owns_vacantKey s i now) false
  · split
    · exact .failed _ rfl (.refl s)
    · rename_i hkey
      exact effect_createAt (owns_requestedKey hkey) _

theorem effect_resolve (s : Store) (i : Identity) (now : Timestamp) :
    Effect now s (.resolve i) (s.resolve i now).1 (s.resolve i now).2 := by
  rw [resolve]
  split
  · exact .done rfl (.stay _) (alike_refl _)
  · rcases s.insertVacant_cases (.new i.defaultKey i none now) with
      ⟨e, s', heq, huntouched⟩ | ⟨heq, hused⟩ | ⟨disk, halike, heq, hvacant⟩ <;> rw [heq] <;>
      dsimp only
    · exact .failed e rfl huntouched
    · exact .done rfl (.stay _) (alike_refl _)
    · exact .done rfl (.resolve hvacant) halike

/-- Switching is refused, or the session that the name is looked up to is switched in. -/
theorem switch_cases (s : Store) (i : Identity) (name : String) :
    (∃ e s', s.switch i name = (.error e, s') ∧ s.Untouched s') ∨
      ∃ key x disk, s.lookup i name = .ok key ∧ s.sessions.get? key = some x ∧
        Option.Rel Directory.Alike s.disk disk ∧ s.switch i name =
          (.ok (x.summary true), { s with overrides := s.overrides.set i key, disk }) := by
  unfold switch
  split
  · exact .inl ⟨_, s, rfl, .refl s⟩
  · rename_i key hlookup
    obtain ⟨x, hx⟩ := Option.isSome_iff_exists.1 (lookup_ok hlookup).2
    rcases s.keepOverrides_cases (s.overrides.set i key) with
      ⟨e, s', heq, huntouched⟩ | ⟨disk, halike, heq⟩ <;> rw [heq] <;> dsimp only
    · exact .inl ⟨e, s', rfl, huntouched⟩
    · rw [hx]
      exact .inr ⟨key, x, disk, hlookup, hx, halike, rfl⟩

theorem effect_switch (s : Store) (i : Identity) (name : String) (now : Timestamp) :
    Effect now s (.switch i name) (s.switch i name).1 (s.switch i name).2 := by
  rcases s.switch_cases i name with
    ⟨e, s', heq, huntouched⟩ | ⟨key, x, disk, hlookup, -, halike, heq⟩ <;> rw [heq] <;> dsimp only
  · exact .failed e rfl huntouched
  · obtain ⟨hkey, hthere⟩ := lookup_ok hlookup
    exact .done rfl (.switch hkey hthere) halike

theorem effect_reset (s : Store) (i : Identity) (now : Timestamp) :
    Effect now s (.reset i) (s.reset i).1 (s.reset i).2 := by
  rw [reset]
  split
  · exact .done rfl (.stay _) (alike_refl _)
  · rcases s.keepOverrides_cases (s.overrides.erase i) with
      ⟨e, s', heq, huntouched⟩ | ⟨disk, halike, heq⟩ <;> rw [heq]
    · exact .failed e rfl huntouched
    · exact .done rfl .reset halike

/-- A turn is refused, or added to the session that is there. -/
theorem append_cases (s : Store) (key : SessionKey) (t : Turn) (now : Timestamp) :
    (∃ e s', s.append key t now = (.error e, s') ∧ s.Untouched s') ∨
      ∃ x disk, s.sessions.get? key = some x ∧ Option.Rel Directory.Alike s.disk disk ∧
        s.append key t now =
          (.ok (), { s with sessions := s.sessions.set key (x.extend t now).2, disk }) := by
  cases hx : s.sessions.get? key with
  | none =>
    rw [append, hx]
    exact .inl ⟨_, s, rfl, .refl s⟩
  | some x =>
    rw [append_eq hx]
    have hwrite := Directory.careful_recordTurn (x.extend t now).2 (x.extend t now).1
    rcases attempt_cases hwrite (disk_put s key _) with hrefused | ⟨disk, halike, heq⟩
    · exact .inl hrefused
    · exact .inr ⟨x, disk, rfl, halike, heq⟩

theorem effect_append (s : Store) (key : SessionKey) (t : Turn) (now : Timestamp) :
    Effect now s (.append key t) (s.append key t now).1 (s.append key t now).2 := by
  rcases s.append_cases key t now with ⟨e, s', heq, huntouched⟩ | ⟨x, disk, hx, halike, heq⟩ <;>
    rw [heq]
  · exact .failed e rfl huntouched
  · exact .done rfl (.append hx) halike

theorem effect_clear (s : Store) (key : SessionKey) (now : Timestamp) :
    Effect now s (.clear key) (s.clear key now).1 (s.clear key now).2 := by
  cases hx : s.sessions.get? key with
  | none =>
    rw [clear, hx]
    exact .failed _ rfl (.refl s)
  | some x =>
    rw [clear_eq hx]
    have hwrite := Directory.careful_writeSession { x with transcript := [], updatedAt := now }
    rcases attempt_cases hwrite (disk_put s key _) with
      ⟨e, s', heq, huntouched⟩ | ⟨disk, halike, heq⟩
    · exact heq ▸ .failed e rfl huntouched
    · exact heq ▸ .done rfl (.clear hx) halike

/-- Deleting is refused, or the session that the name is looked up to is removed, and with it the
override that names it. -/
theorem delete_cases (s : Store) (i : Identity) (name : String) :
    (∃ e, s.delete i name = (.error e, s)) ∨
      ∃ key disk, s.lookup i name = .ok key ∧ Option.Rel Directory.Alike s.disk disk ∧
        s.delete i name = (.ok key, ⟨s.sessions.erase key,
          if s.overrides.get? i = some key then s.overrides.erase i else s.overrides, disk⟩) := by
  unfold delete
  split
  · exact .inl ⟨_, rfl⟩
  rename_i key hlookup
  -- the directory, which may have lost the file by then, does not matter for what is in memory
  have hgone {disk : Option Directory} (halike : Option.Rel Directory.Alike s.disk disk) :
      ∃ disk', Option.Rel Directory.Alike s.disk disk' ∧
        (if s.overrides.get? i = some key then
          dropOverride ⟨s.sessions.erase key, s.overrides, disk⟩ i
        else ⟨s.sessions.erase key, s.overrides, disk⟩) = ⟨s.sessions.erase key,
          if s.overrides.get? i = some key then s.overrides.erase i else s.overrides, disk'⟩ := by
    obtain ⟨disk', halike', hdrop⟩ := dropOverride_eq ⟨s.sessions.erase key, s.overrides, disk⟩ i
    split_ifs
    · exact ⟨disk', alike_trans halike halike', hdrop⟩
    · exact ⟨disk, halike, rfl⟩
  dsimp only
  split
  · obtain ⟨disk, halike, heq⟩ := hgone (alike_refl _)
    exact .inr ⟨key, disk, hlookup, halike, congrArg (Prod.mk _) heq⟩
  · rename_i d hdisk
    split
    · exact .inl ⟨_, rfl⟩
    · rename_i d' hremove
      have hremoved : Option.Rel Directory.Alike s.disk (some d') := by
        rw [hdisk]
        exact .some (Directory.alike_removeSession hremove)
      obtain ⟨disk, halike, heq⟩ := hgone hremoved
      exact .inr ⟨key, disk, hlookup, halike, congrArg (Prod.mk _) heq⟩

theorem effect_delete (s : Store) (i : Identity) (name : String) (now : Timestamp) :
    Effect now s (.delete i name) (s.delete i name).1 (s.delete i name).2 := by
  rcases s.delete_cases i name with ⟨e, heq⟩ | ⟨key, disk, hlookup, halike, heq⟩ <;> rw [heq] <;>
    dsimp only
  · exact .failed e rfl (.refl s)
  · obtain ⟨hkey, hthere⟩ := lookup_ok hlookup
    exact .done rfl (.delete hkey hthere) halike

/-- **Every request fails without a trace, or makes one of the changes.** -/
theorem effect_answer (now : Timestamp) (r : StoreRequest) (s : Store) :
    Effect now s r (answer now r s).1 (answer now r s).2 := by
  cases r with
  | create i new => exact effect_create s i new now
  | switch i name => exact effect_switch s i name now
  | reset i => exact effect_reset s i now
  | resolve i => exact effect_resolve s i now
  | append key t => exact effect_append s key t now
  | clear key => exact effect_clear s key now
  | delete i name => exact effect_delete s i name now
  | transcript key =>
    rw [answer, transcript]
    cases s.sessions.get? key with
    | none => exact .failed _ rfl (.refl s)
    | some x => exact .done rfl (.stay _) (alike_refl _)
  | current | list | get | size => exact .done rfl (.stay _) (alike_refl _)

/-- What a request does in memory, whether it fails or not. -/
theorem moves_answer (now : Timestamp) (r : StoreRequest) (s : Store) :
    Moves now s r (answer now r s).2.sessions (answer now r s).2.overrides := by
  cases effect_answer now r s with
  | failed e _ huntouched =>
    rw [huntouched.sessions, huntouched.overrides]
    exact .stay r
  | done _ hmoves => exact hmoves

/-- **The directory resists as before**, whether the request fails or not. -/
theorem alike_answer (now : Timestamp) (r : StoreRequest) (s : Store) :
    Option.Rel Directory.Alike s.disk (answer now r s).2.disk := by
  cases effect_answer now r s with
  | failed e _ huntouched => exact huntouched.alike
  | done _ _ halike => exact halike

end Store

end Parley
