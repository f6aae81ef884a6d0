import Parley.Proofs.Session.Names
import Parley.Proofs.Table
import Parley.Session.Store

/-!
# What actions leave in the directory

Only session files and the file of the overrides count (`Counts`); drafts do not, whatever was
left of them.  An action touches the content of one name that counts at most (`Touches`): replacing
a file either gives it the new content or leaves it, and so do adding a turn and removing a file.

What a directory holds is read from the names that count (`loadSessions_get?`).
-/

namespace Parley

open SessionFile

/-! ## Texts and bytes -/

theorem fromUTF8?_toUTF8 (s : String) : String.fromUTF8? s.toUTF8 = some s := by
  rw [String.fromUTF8?, String.toUTF8_eq_toByteArray, dif_pos s.isValidUTF8]
  rfl

/-- Bytes that are a text are the text's bytes. -/
theorem eq_toUTF8_of_fromUTF8? {bytes : ByteArray} {s : String}
    (h : String.fromUTF8? bytes = some s) : bytes = s.toUTF8 := by
  unfold String.fromUTF8? at h
  split at h
  · cases h
    rfl
  · cases h

theorem toUTF8_append (s t : String) : (s ++ t).toUTF8 = s.toUTF8 ++ t.toUTF8 := by
  rw [String.toUTF8_eq_toByteArray, String.toByteArray_append]
  rfl

namespace Directory

variable {d d' : Directory} {name other : String} {content : ByteArray}

/-! ## Names that count -/

/-- The names whose content counts when the directory is opened. -/
def Counts (name : String) : Prop := isSessionFile name ∨ name = overridesName

theorem counts_fileName {key : SessionKey} (h : key.text ≠ "") : Counts (fileName key) :=
  .inl (isSessionFile_fileName h)

theorem counts_overridesName : Counts overridesName := .inr rfl

/-- Drafts do not count. -/
theorem ne_draftName (h : Counts name) (other : String) : name ≠ draftName other := by
  rintro rfl
  rcases h with h | h
  · rw [not_isSessionFile_draftName] at h
    cases h
  · exact draftName_ne_overridesName other h

theorem overridesName_ne_fileName {key : SessionKey} (h : key.text ≠ "") :
    overridesName ≠ fileName key := by
  intro heq
  have hfile := isSessionFile_fileName h
  rw [← heq, not_isSessionFile_overridesName] at hfile
  cases hfile

/-- From one directory to the other only `name` changes, among the names that count, and no file
becomes a directory. -/
structure Touches (name : String) (d d' : Directory) : Prop where
  others : ∀ other, Counts other → other ≠ name → d'.entries.get? other = d.entries.get? other
  directories : ∀ other, d'.entries.get? other = some .directory →
    d.entries.get? other = some .directory

theorem Touches.refl (name : String) (d : Directory) : Touches name d d :=
  ⟨fun _ _ _ => rfl, fun _ h => h⟩

/-! ## Single actions -/

theorem get?_of_find? {e : Option Entry} (h : d.find? name = .ok e) : d.entries.get? name = e := by
  rw [find?] at h
  split_ifs at h
  cases h
  rfl

/-- Looking under a name never says that the name is missing. -/
theorem find?_ne_notFound : d.find? name ≠ .error .notFound := by
  rw [find?]
  split_ifs <;> rintro ⟨⟩

theorem get?_put (d : Directory) (name : String) (content : ByteArray) (other : String) :
    (d.put name content).entries.get? other =
      if other = name then some (.file content) else d.entries.get? other :=
  Table.get?_set _ _ _ _

/-- A directory of one file has nothing under another name. -/
theorem get?_put_empty (name : String) (content : ByteArray) (other : String) :
    (({} : Directory).put name content).entries.get? other =
      if other = name then some (.file content) else none := by
  rw [get?_put]
  exact if_congr Iff.rfl rfl (Table.get?_empty other)

theorem create_ok (h : d.create name content = .ok d') : d' = d.put name content := by
  rw [create] at h
  split at h <;> cases h
  rfl

theorem rename_ok {source : String} (h : d.rename source name = .ok d') :
    ∃ content, d.entries.get? source = some (.file content) ∧
      d' = { d with entries := (d.put name content).entries.erase source } := by
  rw [rename] at h
  split at h <;> cases h
  rename_i hsource _
  exact ⟨_, get?_of_find? hsource, rfl⟩

theorem append_ok (h : d.append name content = .ok d') :
    ∃ before, d.entries.get? name = some (.file before) ∧ d' = d.put name (before ++ content) := by
  rw [append] at h
  split at h <;> cases h
  rename_i hfind
  exact ⟨_, get?_of_find? hfind, rfl⟩

/-- A file that is there is not missing when more is added, unless the system says so of its own
accord. -/
theorem append_ne_notFound {before : ByteArray}
    (hhonest : d.refusal (.append name) ≠ some .notFound)
    (hbefore : d.entries.get? name = some (.file before)) :
    d.append name content ≠ .error .notFound := by
  intro h
  rw [append] at h
  split at h
  · rename_i hrefusal
    cases h
    exact hhonest hrefusal
  · rename_i hfind
    cases h
    exact find?_ne_notFound hfind
  · rename_i hfind
    rw [get?_of_find? hfind] at hbefore
    cases hbefore
  · cases h
  · cases h

theorem remove_ok (h : d.remove name = .ok d') :
    d' = { d with entries := d.entries.erase name } := by
  rw [remove] at h
  split at h <;> cases h
  rfl

/-- A file that is put somewhere makes no directory. -/
theorem directory_of_put (h : (d.put name content).entries.get? other = some .directory) :
    d.entries.get? other = some .directory := by
  rw [get?_put] at h
  split_ifs at h
  · cases h
  · exact h

theorem touches_put (d : Directory) (name : String) (content : ByteArray) :
    Touches name d (d.put name content) := by
  refine ⟨fun other _ hne => ?_, fun other h => directory_of_put h⟩
  rw [get?_put, if_neg hne]

/-! ## Replacing -/

/-- **A file that was replaced has the new content, and nothing else changed.** -/
theorem replace_ok {text : String} (hname : Counts name)
    (h : d.replace name text = (.ok (), d')) :
    Touches name d d' ∧ d'.entries.get? name = some (.file text.toUTF8) := by
  rw [replace] at h
  split at h
  · cases h
  rename_i drafted hcreate
  split at h
  · cases h
  rename_i done hrename
  cases h
  obtain ⟨content, hsource, hdone⟩ := rename_ok hrename
  rw [create_ok hcreate, get?_put, if_pos rfl] at hsource
  cases hsource
  have hget (other : String) : d'.entries.get? other =
      if other = draftName name then none else if other = name then some (.file text.toUTF8)
      else d.entries.get? other := by
    rw [hdone, Table.get?_erase, get?_put, create_ok hcreate, get?_put]
    split_ifs <;> rfl
  refine ⟨⟨fun other hother hne => ?_, fun other hdir => ?_⟩, ?_⟩
  · rw [hget, if_neg (ne_draftName hother name), if_neg hne]
  · rw [hget] at hdir
    split_ifs at hdir
    · cases hdir
    · exact hdir
  · rw [hget, if_neg (ne_draftName hname name), if_pos rfl]

/-- **A file that was not replaced is as it was, and nothing else changed.** -/
theorem replace_error {text : String} {e : FileError} (hname : Counts name)
    (h : d.replace name text = (.error e, d')) :
    Touches name d d' ∧ d'.entries.get? name = d.entries.get? name := by
  rw [replace] at h
  split at h
  · cases h
    exact ⟨.refl _ _, rfl⟩
  rename_i drafted hcreate
  split at h
  · cases h
    rw [create_ok hcreate]
    refine ⟨⟨fun other hother _ => ?_, fun other hdir => directory_of_put hdir⟩, ?_⟩
    · rw [get?_put, if_neg (ne_draftName hother name)]
    · rw [get?_put, if_neg (ne_draftName hname name)]
  · cases h

/-- A name that fits the directory. -/
theorem find?_of_fit (d : Directory) (hzero : name.toList.contains '\x00' = false)
    (hshort : tooLong name = false) : d.find? name = .ok (d.entries.get? name) := by
  rw [find?, hzero, hshort]
  rfl

theorem create_of_plain (hrefusal : d.refusal (.create name) = none)
    (hfind : d.find? name = .ok (d.entries.get? name))
    (hplain : d.entries.get? name ≠ some .directory) (content : ByteArray) :
    d.create name content = .ok (d.put name content) := by
  rw [create, hrefusal, hfind]
  rcases hget : d.entries.get? name with _ | _ | _
  · rfl
  · rfl
  · exact absurd hget hplain

theorem exists_rename (hrefusal : d.refusal (.rename other name) = none)
    (hfindSource : d.find? other = .ok (some (.file content)))
    (hfind : d.find? name = .ok (d.entries.get? name))
    (hplain : d.entries.get? name ≠ some .directory) : ∃ d', d.rename other name = .ok d' := by
  rw [rename, hrefusal, hfindSource, hfind]
  rcases hget : d.entries.get? name with _ | _ | _
  · exact ⟨_, rfl⟩
  · exact ⟨_, rfl⟩
  · exact absurd hget hplain

/-- **A file can be replaced**, if the system lets it and no directory is in the way. -/
theorem exists_replace
    (hdraft : ∀ d : Directory, d.find? (draftName name) = .ok (d.entries.get? (draftName name)))
    (hfind : ∀ d : Directory, d.find? name = .ok (d.entries.get? name)) (hname : Counts name)
    (hplain : ∀ other, d.entries.get? other ≠ some .directory)
    (hdrafted : d.refusal (.create (draftName name)) = none)
    (hrenamed : d.refusal (.rename (draftName name) name) = none) (text : String) :
    ∃ d', d.replace name text = (.ok (), d') := by
  have hcreate := create_of_plain hdrafted (hdraft d) (hplain _) text.toUTF8
  have hsource : (d.put (draftName name) text.toUTF8).find? (draftName name) =
      .ok (some (.file text.toUTF8)) := by
    rw [hdraft, get?_put, if_pos rfl]
  have hstays : (d.put (draftName name) text.toUTF8).entries.get? name ≠ some .directory := by
    rw [get?_put, if_neg (ne_draftName hname name)]
    exact hplain name
  have hput : (d.put (draftName name) text.toUTF8).refusal = d.refusal := rfl
  rw [← hput] at hrenamed
  obtain ⟨d', hrename⟩ := exists_rename hrenamed hsource (hfind _) hstays
  refine ⟨d', ?_⟩
  rw [replace, hcreate]
  dsimp only
  rw [hrename]

/-! ## Sessions -/

variable {s : Session} {t : Turn} {key : SessionKey}

/-- **A turn that was recorded is at the end of the session's file**, or the file has the whole
session. -/
theorem recordTurn_ok (hkey : s.key.text ≠ "") (h : d.recordTurn s t = (.ok (), d')) :
    Touches (fileName s.key) d d' ∧
      ((∃ before, d.entries.get? (fileName s.key) = some (.file before) ∧
          d'.entries.get? (fileName s.key) =
            some (.file (before ++ (line t.toJson).toUTF8))) ∨
        d'.entries.get? (fileName s.key) = some (.file (text s).toUTF8)) := by
  rw [recordTurn] at h
  split at h
  · rename_i done happend
    cases h
    obtain ⟨before, hbefore, hdone⟩ := append_ok happend
    rw [hdone]
    refine ⟨touches_put _ _ _, .inl ⟨before, hbefore, ?_⟩⟩
    rw [get?_put, if_pos rfl]
  · obtain ⟨htouches, hfile⟩ := replace_ok (counts_fileName hkey) h
    exact ⟨htouches, .inr hfile⟩
  · cases h

/-- **A turn is added to a file that is there**, as far as the system is honest. -/
theorem recordTurn_of_get? {before : ByteArray}
    (hhonest : d.refusal (.append (fileName s.key)) ≠ some .notFound)
    (hbefore : d.entries.get? (fileName s.key) = some (.file before))
    (h : d.recordTurn s t = (.ok (), d')) :
    Touches (fileName s.key) d d' ∧ d'.entries.get? (fileName s.key) =
      some (.file (before ++ (line t.toJson).toUTF8)) := by
  rw [recordTurn] at h
  split at h
  · rename_i done happend
    cases h
    obtain ⟨content, hcontent, hdone⟩ := append_ok happend
    rw [hbefore] at hcontent
    cases hcontent
    rw [hdone]
    refine ⟨touches_put _ _ _, ?_⟩
    rw [get?_put, if_pos rfl]
  · rename_i hmissing
    exact absurd hmissing (append_ne_notFound hhonest hbefore)
  · cases h

theorem recordTurn_error {e : FileError} (hkey : s.key.text ≠ "")
    (h : d.recordTurn s t = (.error e, d')) :
    Touches (fileName s.key) d d' ∧
      d'.entries.get? (fileName s.key) = d.entries.get? (fileName s.key) := by
  rw [recordTurn] at h
  split at h
  · cases h
  · exact replace_error (counts_fileName hkey) h
  · cases h
    exact ⟨.refl _ _, rfl⟩

theorem refusal_removeSession (h : d.removeSession key = .ok d') : d'.refusal = d.refusal := by
  rw [removeSession] at h
  split at h
  · cases h
    rfl
  · rw [remove_ok h]

/-- **A session that was removed has no file**, unless the system called the file missing of its
own accord. -/
theorem removeSession_ok (hhonest : d.refusal (.remove (fileName key)) ≠ some .notFound)
    (h : d.removeSession key = .ok d') :
    Touches (fileName key) d d' ∧ d'.entries.get? (fileName key) = none := by
  rw [removeSession] at h
  split at h
  · rename_i hmissing
    cases h
    refine ⟨.refl _ _, ?_⟩
    rw [remove] at hmissing
    split at hmissing
    · rename_i hrefusal
      cases hmissing
      exact absurd hrefusal hhonest
    · rename_i hfind
      cases hmissing
      exact absurd hfind find?_ne_notFound
    · rename_i hfind
      exact get?_of_find? hfind
    · cases hmissing
    · cases hmissing
  · rw [remove_ok h]
    refine ⟨⟨fun other _ hne => ?_, fun other hdir => ?_⟩, ?_⟩
    · rw [Table.get?_erase, if_neg hne]
    · rw [Table.get?_erase] at hdir
      split_ifs at hdir
      exact hdir
    · rw [Table.get?_erase, if_pos rfl]

/-! ## What a directory holds -/

/-- A name that counts holds a text that describes a session. -/
def Holds (d : Directory) (name : String) (s : Session) : Prop :=
  isSessionFile name ∧ (d.text? name).bind read? = some s

theorem text?_of_get? {text : String} (h : d.entries.get? name = some (.file text.toUTF8)) :
    d.text? name = some text := by
  rw [text?, h]
  exact fromUTF8?_toUTF8 text

theorem get?_of_text? {text : String} (h : d.text? name = some text) :
    d.entries.get? name = some (.file text.toUTF8) := by
  rw [text?] at h
  split at h
  · rename_i content hget
    rw [hget, eq_toUTF8_of_fromUTF8? h]
  · cases h

/-- What a name holds depends on what stands under it. -/
theorem holds_congr (h : d'.entries.get? name = d.entries.get? name) :
    d'.Holds name s ↔ d.Holds name s := by
  rw [Holds, Holds, text?, text?, h]

/-- A directory of one file holds nothing under another name. -/
theorem eq_of_holds_put (h : (({} : Directory).put name content).Holds other s) :
    other = name := by
  by_contra hne
  rw [Holds, text?, get?_put_empty, if_neg hne] at h
  cases h.2

theorem mem_sessions : s ∈ d.sessions ↔ ∃ name, d.Holds name s := by
  rw [sessions, List.mem_filterMap]
  constructor
  · rintro ⟨name, hname, hread⟩
    rw [sessionFiles, List.mem_mergeSort, List.mem_filter] at hname
    exact ⟨name, hname.2, hread⟩
  · rintro ⟨name, hname, hread⟩
    refine ⟨name, ?_, hread⟩
    rw [sessionFiles, List.mem_mergeSort, List.mem_filter]
    refine ⟨?_, hname⟩
    cases hget : d.entries.get? name with
    | none =>
      rw [text?, hget] at hread
      cases hread
    | some e => exact Table.mem_keys_of_get? hget

/-- **A key whose files all describe one session is loaded as that session.** -/
theorem loadSessions_get? (hexists : ∃ name, d.Holds name s)
    (hunique : ∀ name t, d.Holds name t → t.key = s.key → t = s) :
    (Store.loadSessions d).get? s.key = some s := by
  refine Table.get?_foldl_set (g := id) (fun t ht hkey => ?_) ?_ _
  · obtain ⟨name, hholds⟩ := mem_sessions.1 ht
    exact hunique name t hholds hkey
  · exact ⟨s, mem_sessions.2 hexists, rfl⟩

/-- A session that is loaded is described by a file, under its own key. -/
theorem exists_holds (h : (Store.loadSessions d).get? key = some s) :
    s.key = key ∧ ∃ name, d.Holds name s := by
  rcases Table.exists_of_get?_foldl_set (g := id) h with ⟨t, ht, hkey, hvalue⟩ | hempty
  · cases hvalue
    exact ⟨hkey, mem_sessions.1 ht⟩
  · rw [Table.get?_empty] at hempty
    cases hempty

theorem contains_loadSessions_iff :
    (Store.loadSessions d).contains key ↔ ∃ name t, d.Holds name t ∧ t.key = key := by
  have hnone : ¬ (Table.empty : Table SessionKey Session).contains key := by
    rw [Table.contains, Table.get?_empty]
    exact Bool.false_ne_true
  refine (Table.contains_foldl_set_iff (g := id)).trans ?_
  rw [or_iff_left hnone]
  constructor
  · rintro ⟨t, ht, hkey⟩
    obtain ⟨name, hholds⟩ := mem_sessions.1 ht
    exact ⟨name, t, hholds, hkey⟩
  · rintro ⟨name, t, hholds, hkey⟩
    exact ⟨t, mem_sessions.2 ⟨name, hholds⟩, hkey⟩

/-- A key that no file describes is not loaded. -/
theorem loadSessions_get?_eq_none (h : ∀ name t, d.Holds name t → t.key ≠ key) :
    (Store.loadSessions d).get? key = none := by
  refine (Table.get?_foldl_set_of_ne (g := id) (fun t ht => ?_) _).trans (Table.get?_empty _)
  obtain ⟨name, hholds⟩ := mem_sessions.1 ht
  exact h name t hholds

end Directory

end Parley
