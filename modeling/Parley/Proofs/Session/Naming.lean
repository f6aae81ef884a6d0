import Parley.Proofs.Gateway.Isolation
import Parley.Proofs.Text.Blank

/-!
# The names of sessions

A session is created and looked up under a name as a user types it.  Creating and looking up read
the name each for itself, and they read it alike (`requestedKey_eq`): so a session that was created
under a name, or was found to be there already, is switched in and removed by that name, and a name
that creating refuses leads nowhere (`names_lead_back`).
-/

namespace Parley

namespace Store

variable {i : Identity} {s t : Store} {raw : String} {key : SessionKey} {new : NewSession}
  {now : Timestamp}

/-! ## Where a name leads -/

/-- The directory takes the overrides with a session switched in. -/
def TakesOverride (s : Store) (i : Identity) (key : SessionKey) : Prop :=
  ∀ d, s.disk = some d → (d.writeOverrides (s.overrides.set i key)).1 = .ok ()

/-- The directory gives up the file of a session. -/
def GivesUp (s : Store) (key : SessionKey) : Prop :=
  ∀ d, s.disk = some d → ∃ d', d.removeSession key = .ok d'

/-- A name leads an identity to the session under a key: by that name the session is switched in
and is removed, and no other is, unless the directory refuses. -/
structure LeadsTo (s : Store) (i : Identity) (raw : String) (key : SessionKey) : Prop where
  switch : s.TakesOverride i key → ∃ a s', s.switch i raw = (.ok a, s') ∧ a.key = key ∧
    s'.overrides.get? i = some key
  delete : s.GivesUp key → ∃ s', s.delete i raw = (.ok key, s') ∧
    ∀ other, s'.sessions.get? other = if other = key then none else s.sessions.get? other

theorem lookup_eq (s : Store) (i : Identity) (raw : String) :
    s.lookup i raw =
      if i.owns (nameKey i raw.trimBlank) && s.sessions.contains (nameKey i raw.trimBlank) then
        .ok (nameKey i raw.trimBlank)
      else .error (.sessionNotFound raw.trimBlank) := rfl

theorem keepOverrides_of_taken {overrides : Table Identity SessionKey}
    (h : ∀ d, s.disk = some d → (d.writeOverrides overrides).1 = .ok ()) :
    ∃ disk, s.keepOverrides overrides = (.ok (), { s with overrides, disk }) := by
  rw [keepOverrides]
  cases hdisk : s.disk with
  | none => exact ⟨none, rfl⟩
  | some d =>
    have hwrite := h d hdisk
    dsimp only
    rcases hwritten : d.writeOverrides overrides with ⟨⟨e⟩ | ⟨⟩, d'⟩
    · rw [hwritten] at hwrite
      cases hwrite
    · exact ⟨some d', rfl⟩

/-- The session that a name is looked up to is switched in, if the directory takes that. -/
theorem switch_of_lookup (h : s.lookup i raw = .ok key) {x : Session}
    (hx : s.sessions.get? key = some x) (htakes : s.TakesOverride i key) :
    ∃ disk, s.switch i raw =
      (.ok (x.summary true), { s with overrides := s.overrides.set i key, disk }) := by
  obtain ⟨disk, hkeep⟩ := keepOverrides_of_taken htakes
  refine ⟨disk, ?_⟩
  unfold switch
  rw [h]
  dsimp only
  rw [hkeep]
  dsimp only
  rw [hx]

/-- The session that a name is looked up to is removed, if the directory gives it up. -/
theorem delete_of_lookup (h : s.lookup i raw = .ok key) (hgives : s.GivesUp key) :
    ∃ s', s.delete i raw = (.ok key, s') ∧ s'.sessions = s.sessions.erase key := by
  have hgone (disk : Option Directory) :
      (if s.overrides.get? i = some key then
        dropOverride ⟨s.sessions.erase key, s.overrides, disk⟩ i
      else ⟨s.sessions.erase key, s.overrides, disk⟩).sessions = s.sessions.erase key := by
    obtain ⟨disk', -, hdrop⟩ := dropOverride_eq ⟨s.sessions.erase key, s.overrides, disk⟩ i
    rw [hdrop]
    split <;> rfl
  unfold delete
  rw [h]
  dsimp only
  cases hdisk : s.disk with
  | none => exact ⟨_, rfl, hgone _⟩
  | some d =>
    obtain ⟨d', hremove⟩ := hgives d hdisk
    dsimp only
    rw [hremove]
    exact ⟨_, rfl, hgone _⟩

/-- **A name leads to the session under the key that it stands for**, as long as that is there. -/
theorem leadsTo_nameKey (ho : s.Orderly) (howns : i.owns (nameKey i raw.trimBlank))
    (hthere : s.sessions.contains (nameKey i raw.trimBlank)) :
    s.LeadsTo i raw (nameKey i raw.trimBlank) := by
  have hlookup : s.lookup i raw = .ok (nameKey i raw.trimBlank) := by
    rw [lookup_eq, howns, hthere]
    rfl
  obtain ⟨x, hx⟩ := Option.isSome_iff_exists.1 hthere
  refine ⟨fun htakes => ?_, fun hgives => ?_⟩
  · obtain ⟨disk, hswitch⟩ := switch_of_lookup hlookup hx htakes
    exact ⟨_, _, hswitch, ho.own _ x hx, Table.get?_set_self ..⟩
  · obtain ⟨s', hdelete, hsessions⟩ := delete_of_lookup hlookup hgives
    refine ⟨s', hdelete, fun other => ?_⟩
    rw [hsessions, Table.get?_erase]

/-- A name that stands for a key of others leads nowhere. -/
theorem not_found_of_not_owns (howns : ¬ i.owns (nameKey i raw.trimBlank)) :
    s.switch i raw = (.error (.sessionNotFound raw.trimBlank), s) ∧
      s.delete i raw = (.error (.sessionNotFound raw.trimBlank), s) := by
  have hlookup : s.lookup i raw = .error (.sessionNotFound raw.trimBlank) := by
    rw [lookup_eq, Bool.eq_false_iff.2 howns]
    rfl
  unfold switch delete
  rw [hlookup]
  exact ⟨rfl, rfl⟩

/-- Switching touches no session, whether it succeeds or not. -/
theorem sessions_switch (s : Store) (i : Identity) (raw : String) :
    (s.switch i raw).2.sessions = s.sessions := by
  rcases s.switch_cases i raw with
    ⟨e, s', heq, huntouched⟩ | ⟨key, x, disk, -, -, -, heq⟩ <;> rw [heq]
  exact huntouched.sessions

/-! ## What creating comes to -/

/-- Only the directory refuses a session whose key is free. -/
theorem refused_of_insertVacant {x : Session} {e : Error}
    (h : s.insertVacant x = (.error e, t)) : ∃ cause, e = .file cause := by
  unfold insertVacant at h
  split at h
  · cases h
  · dsimp only at h
    split at h
    · cases h
    · split at h
      · cases h
      · cases h
        exact ⟨_, rfl⟩

/-- What creating a session comes to, and the store after it, when the name stands for a key. -/
inductive Created (s : Store) (i : Identity) (key : SessionKey) :
    Except Error Summary → Store → Prop
  /-- The directory refused. -/
  | refused (cause : FileError) (t : Store) : Created s i key (.error (.file cause)) t
  /-- The key is not the identity's own. -/
  | foreign (howns : ¬ i.owns key) (tool : String) (field : Option String) (reason : String) :
    Created s i key (.error (.invalidArguments tool field reason)) s
  /-- The session is there, whether it is new or not. -/
  | there {a : Summary} {t : Store} (howns : i.owns key) (hthere : t.sessions.contains key)
    (hkey : a.key = key) : Created s i key (.ok a) t
  /-- The session had been there, and may not be taken. -/
  | used {t : Store} (howns : i.owns key) (hthere : t.sessions.contains key) :
    Created s i key (.error (.duplicateName key.text)) t

/-- A key that creating answers, or says to be in use, is the one that the name stands for. -/
theorem Created.eq_key {result : Except Error Summary} {own : SessionKey}
    (h : s.Created i own result t)
    (hkey : (∃ a, result = .ok a ∧ a.key = key) ∨ result = .error (.duplicateName key.text)) :
    key = own ∧ i.owns own ∧ t.sessions.contains own := by
  rcases hkey with ⟨a, rfl, rfl⟩ | hused
  · cases h with
    | there howns hthere hown => exact ⟨hown, howns, hthere⟩
  · cases h with
    | used howns hthere =>
      have htext : own.text = key.text := Error.duplicateName.inj (Except.error.inj hused)
      exact ⟨congrArg SessionKey.mk htext.symm, howns, hthere⟩
    | _ => cases hused

/-- Arguments are refused only for a key of others, and then nothing is done. -/
theorem Created.eq_of_refused {tool : String} {field : Option String} {reason : String}
    (h : s.Created i key (.error (.invalidArguments tool field reason)) t) :
    ¬ i.owns key ∧ t = s := by
  cases h with
  | foreign howns => exact ⟨howns, rfl⟩

/-- The ways in which creating can fail. -/
theorem Created.error_cases {e : Error} (h : s.Created i key (.error e) t) :
    (∃ cause, e = .file cause) ∨ (∃ key, e = .duplicateName key) ∨
      ∃ tool field reason, e = .invalidArguments tool field reason := by
  cases h with
  | refused cause => exact .inl ⟨cause, rfl⟩
  | foreign _ tool field reason => exact .inr (.inr ⟨tool, field, reason, rfl⟩)
  | used => exact .inr (.inl ⟨key.text, rfl⟩)

theorem created_createAt (ho : s.Orderly) (howns : i.owns key) (title : Option String)
    (allowExisting : Bool) (now : Timestamp) :
    s.Created i key (s.createAt i key title allowExisting now).1
      (s.createAt i key title allowExisting now).2 := by
  rw [createAt]
  rcases s.insertVacant_cases (.new key i title now) with
    ⟨e, s', heq, -⟩ | ⟨heq, hused⟩ | ⟨disk, -, heq, -⟩ <;> rw [heq] <;> dsimp only
  · obtain ⟨cause, rfl⟩ := refused_of_insertVacant heq
    exact .refused cause s'
  · cases allowExisting with
    | true =>
      obtain ⟨x, hx⟩ := Option.isSome_iff_exists.1 hused
      rw [if_pos rfl, summaryOf_ok i key hx]
      exact .there howns hused (ho.own key x hx)
    | false => exact .used howns hused
  · rw [summaryOf_ok i key (Table.get?_set_self ..)]
    exact .there howns (Table.contains_set_iff.2 (.inl rfl)) rfl

/-- **Under a name, a session is created under the key that the name stands for**, or not at
all. -/
theorem created_create (ho : s.Orderly) (hraw : raw.isAllBlank = false)
    (hnew : new.key = some raw) (i : Identity) (now : Timestamp) :
    s.Created i (nameKey i raw.trimBlank) (s.create i new now).1 (s.create i new now).2 := by
  rw [create, hnew, Option.map_some, Option.bind_some, String.nonempty?_trimBlank hraw]
  dsimp only
  rw [requestedKey_eq]
  generalize nameKey i raw.trimBlank = key
  by_cases howns : i.owns key
  · rw [if_pos howns]
    exact created_createAt ho howns ..
  · rw [if_neg howns]
    exact .foreign howns ..

/-- **What a session was created under leads back to it.**  Let an identity create a session under
a name that is not blank, in any store that is reached.  When the session is created, or taken as
it is, or refused because it is there, its key is the identity's own, and by the same name it is
then switched in and removed, as far as the directory goes along.  When the arguments are refused,
the store is as it was, and by that name no session is found.  Only the directory can make anything
else of it. -/
theorem names_lead_back (hs : Gateway.Reached s) (hraw : raw.isAllBlank = false)
    (hnew : new.key = some raw) (i : Identity) (now : Timestamp) :
    let result := (s.create i new now).1
    let t := (s.create i new now).2
    (∀ key, ((∃ a, result = .ok a ∧ a.key = key) ∨ result = .error (.duplicateName key.text)) →
        i.owns key ∧ t.LeadsTo i raw key ∧ (t.switch i raw).2.LeadsTo i raw key) ∧
      (∀ tool field reason, result = .error (.invalidArguments tool field reason) →
        t = s ∧ s.switch i raw = (.error (.sessionNotFound raw.trimBlank), s) ∧
          s.delete i raw = (.error (.sessionNotFound raw.trimBlank), s)) ∧
      ∀ e, result = .error e → (∃ cause, e = .file cause) ∨ (∃ key, e = .duplicateName key) ∨
        ∃ tool field reason, e = .invalidArguments tool field reason := by
  intro result t
  have hcreated : s.Created i (nameKey i raw.trimBlank) result t :=
    created_create hs.orderly hraw hnew i now
  refine ⟨fun key hkey => ?_, fun tool field reason hrefused => ?_, fun e he => ?_⟩
  · obtain ⟨hown, howns, hthere⟩ := hcreated.eq_key hkey
    rw [hown]
    have ht : t.Orderly := hs.orderly.answer now (.create i new)
    have hswitched : (t.switch i raw).2.Orderly := ht.answer now (.switch i raw)
    refine ⟨howns, leadsTo_nameKey ht howns hthere, leadsTo_nameKey hswitched howns ?_⟩
    rw [sessions_switch]
    exact hthere
  · rw [hrefused] at hcreated
    obtain ⟨hforeign, hsame⟩ := hcreated.eq_of_refused
    exact ⟨hsame, not_found_of_not_owns hforeign⟩
  · rw [he] at hcreated
    exact hcreated.error_cases

/-- **A name with a colon and a name without** may stand for one session. -/
theorem names_lead_back_to_notes :
    let i : Identity := ⟨"cli", "local"⟩
    let noon : Timestamp := ⟨1709294400, 0⟩
    let s := (answer noon (.create i { key := some "  My Notes " }) inMemory).2
    let again : NewSession := { key := some " cli:local:my-notes" }
    Gateway.Reached s ∧ " cli:local:my-notes".isAllBlank = false ∧
      (s.create i again noon).1 = .error (.duplicateName "cli:local:my-notes") ∧
      i.owns ⟨"cli:local:my-notes"⟩ ∧
      (s.create i again noon).2.LeadsTo i " cli:local:my-notes" ⟨"cli:local:my-notes"⟩ := by
  intro i noon s again
  have hs : Gateway.Reached s := .asked .inMemory noon _
  have hraw : " cli:local:my-notes".isAllBlank = false := by decide +kernel
  have hused : (s.create i again noon).1 = .error (.duplicateName "cli:local:my-notes") := by
    decide +kernel
  have hname : again.key = some " cli:local:my-notes" := rfl
  have hback := (names_lead_back hs hraw hname i noon).1 ⟨"cli:local:my-notes"⟩ (.inr hused)
  exact ⟨hs, hraw, hused, hback.1, hback.2.1⟩

end Store

end Parley
