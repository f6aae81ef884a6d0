import Parley.Proofs.Session.Files

/-!
# When the directory resists

Whether the store can write a file depends on two things: what the system refuses, and what is in
the way of a file under its name (`obstacle?`), a directory or a name that no entry can have.
What the files hold does not matter.  Directories that agree on both are `Alike`: they take and
refuse the same (`Alike.replace`, `Alike.removeSession`).

The store makes no directories and removes none, so each of its actions leaves a directory like
the one before (`alike_replace`, `alike_removeSession`).
-/

namespace Parley.Directory

open SessionFile

variable {d e : Directory} {name source : String} {content : ByteArray}

/-- What is in the way of a file under a name. -/
def obstacle? (d : Directory) (name : String) : Option FileError :=
  match d.find? name with
  | .error f => some f
  | .ok (some .directory) => some .isDirectory
  | .ok _ => none

/-- The system refuses the same, and the same is in the way. -/
structure Alike (d e : Directory) : Prop where
  refusal : d.refusal = e.refusal
  obstacle : ∀ name, d.obstacle? name = e.obstacle? name

theorem Alike.refl (d : Directory) : d.Alike d := ⟨rfl, fun _ => rfl⟩

theorem Alike.symm (h : d.Alike e) : e.Alike d :=
  ⟨h.refusal.symm, fun name => (h.obstacle name).symm⟩

theorem Alike.trans {f : Directory} (h : d.Alike e) (h' : e.Alike f) : d.Alike f :=
  ⟨h.refusal.trans h'.refusal, fun name => (h.obstacle name).trans (h'.obstacle name)⟩

/-! ## Single actions -/

/-- Only directories are in the way, apart from the name itself. -/
theorem obstacle?_congr
    (h : d.entries.get? name = some .directory ↔ e.entries.get? name = some .directory) :
    d.obstacle? name = e.obstacle? name := by
  rw [obstacle?, obstacle?, find?, find?]
  split_ifs
  · rfl
  · rfl
  · rcases hd : d.entries.get? name with _ | _ | _ <;>
      rcases he : e.entries.get? name with _ | _ | _ <;> simp_all

theorem not_directory (h : d.obstacle? name = none) : d.entries.get? name ≠ some .directory := by
  intro hget
  rw [obstacle?, find?, hget] at h
  split_ifs at h

theorem create_eq (d : Directory) (name : String) (content : ByteArray) :
    d.create name content =
      match (d.refusal (.create name)).or (d.obstacle? name) with
      | some f => .error f
      | none => .ok (d.put name content) := by
  rw [create, obstacle?]
  rcases d.refusal (.create name) with _ | f
  · rcases d.find? name with f | _ | _ | _ <;> rfl
  · rfl

/-- A file takes no room that was not free. -/
theorem alike_put (h : d.obstacle? name = none) (content : ByteArray) :
    d.Alike (d.put name content) := by
  refine ⟨rfl, fun other => obstacle?_congr ?_⟩
  rw [get?_put]
  split_ifs with hother
  · rw [hother]
    exact iff_of_false (not_directory h) fun hget => by cases hget
  · rfl

theorem find?_put (h : d.obstacle? name = none) (content : ByteArray) :
    (d.put name content).find? name = .ok (some (.file content)) := by
  rw [obstacle?, find?] at h
  rw [find?, get?_put, if_pos rfl]
  split_ifs at h ⊢
  rfl

theorem rename_eq (name : String) (hsource : d.find? source = .ok (some (.file content))) :
    d.rename source name =
      match (d.refusal (.rename source name)).or (d.obstacle? name) with
      | some f => .error f
      | none => .ok { d with entries := (d.put name content).entries.erase source } := by
  rw [rename, obstacle?, hsource]
  rcases d.refusal (.rename source name) with _ | f
  · rcases d.find? name with f | _ | _ | _ <;> rfl
  · rfl

theorem alike_erase (h : d.entries.get? name ≠ some .directory) :
    d.Alike { d with entries := d.entries.erase name } := by
  refine ⟨rfl, fun other => obstacle?_congr ?_⟩
  rw [Table.get?_erase]
  split_ifs with hother
  · rw [hother]
    exact iff_of_false h fun hget => by cases hget
  · rfl

/-- **Adding to a file leaves a directory like the one before.** -/
theorem alike_append (h : d.append name content = .ok e) : d.Alike e := by
  rw [append] at h
  split at h <;> cases h
  rename_i hfind
  refine alike_put ?_ _
  rw [obstacle?, hfind]

/-! ## Replacing -/

/-- Why a file cannot be replaced, if it cannot. -/
def hindrance? (d : Directory) (name : String) : Option FileError :=
  ((d.refusal (.create (draftName name))).or (d.obstacle? (draftName name))).or
    ((d.refusal (.rename (draftName name) name)).or (d.obstacle? name))

theorem replace_spec (d : Directory) (name content : String) :
    d.Alike (d.replace name content).2 ∧ (d.replace name content).1 =
      match d.hindrance? name with
      | some f => .error f
      | none => .ok () := by
  rw [replace, create_eq, hindrance?]
  cases hdraft : (d.refusal (.create (draftName name))).or (d.obstacle? (draftName name)) with
  | some f => exact ⟨.refl d, rfl⟩
  | none =>
    rw [Option.or_eq_none_iff] at hdraft
    have hput := alike_put hdraft.2 content.toUTF8
    have hrename := rename_eq name (find?_put hdraft.2 content.toUTF8)
    rw [← hput.refusal, ← hput.obstacle] at hrename
    dsimp only
    rw [hrename, Option.none_or]
    cases hname : (d.refusal (.rename (draftName name) name)).or (d.obstacle? name) with
    | some f => exact ⟨hput, rfl⟩
    | none =>
      rw [Option.or_eq_none_iff] at hname
      have hdone := alike_put (hput.obstacle name ▸ hname.2) content.toUTF8
      refine ⟨hput.trans (hdone.trans (alike_erase ?_)), rfl⟩
      rw [get?_put]
      split_ifs
      · rintro ⟨⟩
      · rw [get?_put, if_pos rfl]
        rintro ⟨⟩

/-- **Replacing a file leaves a directory like the one before**, whether it succeeds or not. -/
theorem alike_replace (d : Directory) (name content : String) :
    d.Alike (d.replace name content).2 :=
  (replace_spec d name content).1

theorem Alike.hindrance (h : d.Alike e) (name : String) :
    d.hindrance? name = e.hindrance? name := by
  rw [hindrance?, hindrance?, h.refusal, h.obstacle, h.obstacle]

/-- **Whether a file can be replaced does not depend on what files hold.** -/
theorem Alike.replace (h : d.Alike e) (name content content' : String) :
    ∃ d' e', d'.Alike e' ∧
      ((d.replace name content = (.ok (), d') ∧ e.replace name content' = (.ok (), e')) ∨
        ∃ f, d.replace name content = (.error f, d') ∧
          e.replace name content' = (.error f, e')) := by
  refine ⟨(d.replace name content).2, (e.replace name content').2,
    (alike_replace d _ _).symm.trans (h.trans (alike_replace e _ _)), ?_⟩
  have hd := (replace_spec d name content).2
  have he := (replace_spec e name content').2
  rw [← h.hindrance] at he
  cases hhindrance : d.hindrance? name with
  | none =>
    rw [hhindrance] at hd he
    exact .inl ⟨Prod.ext hd rfl, Prod.ext he rfl⟩
  | some f =>
    rw [hhindrance] at hd he
    exact .inr ⟨f, Prod.ext hd rfl, Prod.ext he rfl⟩

/-! ## Removing -/

/-- **Removing a session leaves a directory like the one before.** -/
theorem alike_removeSession {key : SessionKey} {d' : Directory}
    (h : d.removeSession key = .ok d') : d.Alike d' := by
  rw [removeSession] at h
  split at h
  · cases h
    exact .refl d
  · rw [remove] at h
    split at h <;> cases h
    rename_i hfind
    refine alike_erase ?_
    rw [get?_of_find? hfind]
    rintro ⟨⟩

theorem removeSession_map (d : Directory) (key : SessionKey) :
    (d.removeSession key).map (fun _ => ()) =
      match (d.refusal (.remove (fileName key))).or (d.obstacle? (fileName key)) with
      | none | some .notFound => .ok ()
      | some f => .error f := by
  rw [removeSession, remove, obstacle?]
  rcases d.refusal (.remove (fileName key)) with _ | f
  · rcases d.find? (fileName key) with f | _ | _ | _
    · cases f <;> rfl
    · rfl
    · rfl
    · rfl
  · cases f <;> rfl

/-- **Whether a session can be removed does not depend on what files hold.** -/
theorem Alike.removeSession (h : d.Alike e) (key : SessionKey) :
    (∃ d' e', d.removeSession key = .ok d' ∧ e.removeSession key = .ok e' ∧ d'.Alike e') ∨
      ∃ f, d.removeSession key = .error f ∧ e.removeSession key = .error f := by
  have hd := removeSession_map d key
  have he := removeSession_map e key
  rw [← h.refusal, ← h.obstacle, ← hd] at he
  cases hremove : d.removeSession key with
  | ok d' =>
    cases hremove' : e.removeSession key with
    | ok e' =>
      exact .inl ⟨d', e', rfl, rfl, (alike_removeSession hremove).symm.trans
        (h.trans (alike_removeSession hremove'))⟩
    | error f =>
      rw [hremove, hremove'] at he
      cases he
  | error f =>
    cases hremove' : e.removeSession key with
    | ok e' =>
      rw [hremove, hremove'] at he
      cases he
    | error g =>
      rw [hremove, hremove'] at he
      exact .inr ⟨f, rfl, by rw [Except.error.inj he]⟩

end Parley.Directory
