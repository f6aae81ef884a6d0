import Mathlib.Data.List.TakeWhile
import Parley.Proofs.Json.Records
import Parley.Proofs.Session.Files

/-!
# The overrides are read back

An identity is found in its written form, if it has a channel without a colon and a chat
(`ofText?_name`).  So what is written of overrides of such identities is read as those overrides
(`readOverrides_overridesText`), although the file lists them in the order of their names.

A store opens without writing when all overrides that it reads are sound (`openAt_of_sound`).
-/

namespace Parley

/-! ## Identities -/

namespace Identity

/-- An identity whose written form names it. -/
structure Nameable (i : Identity) : Prop where
  channel : i.channel ≠ ""
  colon : ':' ∉ i.channel.toList
  chat : i.chat ≠ ""

theorem toList_name (i : Identity) : i.name.toList = i.channel.toList ++ ':' :: i.chat.toList := by
  rw [name, String.toList_append, String.toList_append, List.append_assoc]
  rfl

theorem splitAtFirst?_name {i : Identity} (h : ':' ∉ i.channel.toList) :
    i.name.splitAtFirst? ':' = some (i.channel, i.chat) := by
  have hall : ∀ c ∈ i.channel.toList, decide (c ≠ ':') = true := by
    intro c hc
    rw [decide_eq_true_eq]
    rintro rfl
    exact h hc
  have hspan : i.name.toList.span (· ≠ ':') = (i.channel.toList, ':' :: i.chat.toList) := by
    rw [toList_name, List.span_eq_takeWhile_dropWhile, List.takeWhile_append_of_pos hall,
      List.dropWhile_append_of_pos hall, List.takeWhile_cons_of_neg (by decide),
      List.dropWhile_cons_of_neg (by decide), List.append_nil]
  rw [String.splitAtFirst?, hspan]
  simp only [String.ofList_toList]

theorem isEmpty_eq_false {s : String} (h : s ≠ "") : s.isEmpty = false := by
  rw [← Bool.not_eq_true, String.isEmpty_iff]
  exact h

/-- **An identity is named by its written form.** -/
theorem ofText?_name {i : Identity} (h : i.Nameable) : ofText? i.name = some i := by
  rw [ofText?, splitAtFirst?_name h.colon]
  simp only [isEmpty_eq_false h.channel, isEmpty_eq_false h.chat, Bool.or_self, Bool.false_eq_true,
    if_false]

/-- Only such identities are read. -/
theorem nameable_of_ofText? {text : String} {i : Identity} (h : ofText? text = some i) :
    i.Nameable := by
  rw [ofText?] at h
  split at h
  case h_2 => cases h
  case h_1 channel chat hsplit =>
    split_ifs at h with hempty
    cases h
    rw [Bool.or_eq_true, not_or, String.isEmpty_iff, String.isEmpty_iff] at hempty
    refine ⟨hempty.1, ?_, hempty.2⟩
    rw [String.splitAtFirst?, List.span_eq_takeWhile_dropWhile] at hsplit
    split at hsplit
    · cases hsplit
    · rename_i hspan
      cases hsplit
      rw [String.toList_ofList, ← (Prod.mk.inj hspan).1]
      intro hmem
      have hcolon := List.mem_takeWhile_imp hmem
      revert hcolon
      decide

end Identity

open Json SessionFile

/-! ## Reading -/

/-- The overrides that some entries of a file list. -/
def listed (entries : List (String × String)) : List (Identity × SessionKey) :=
  entries.filterMap fun e => (Identity.ofText? e.1).map fun i => (i, ⟨e.2⟩)

theorem readOverrides_eq (content : String) : readOverrides content =
    (((Decoder.table Decoder.text).readText content).elim [] listed).foldl
      (fun t e => t.set e.1 e.2) .empty := by
  rw [readOverrides]
  cases (Decoder.table Decoder.text).readText content with
  | none => rfl
  | some entries =>
    rw [Option.elim_some, listed, List.foldl_filterMap]
    refine congrArg (fun f => entries.foldl f (.empty : Table Identity SessionKey)) ?_
    funext t e
    obtain ⟨name, key⟩ := e
    dsimp only
    cases Identity.ofText? name <;> rfl

/-- **No identity has two overrides**, whatever the file says. -/
theorem distinct_overrides (d : Directory) : d.overrides.Distinct := by
  rw [Directory.overrides]
  cases d.text? overridesName with
  | none => exact Table.distinct_empty
  | some content =>
    rw [Option.map_some, Option.getD_some, readOverrides_eq]
    exact Table.distinct_foldl_set _ Table.distinct_empty

/-- **Every identity that has an override is named by its written form.** -/
theorem nameable_of_overrides {d : Directory} {i : Identity} {key : SessionKey}
    (h : d.overrides.get? i = some key) : i.Nameable := by
  rw [Directory.overrides] at h
  cases htext : d.text? overridesName with
  | none =>
    rw [htext] at h
    cases h
  | some content =>
    rw [htext, Option.map_some, Option.getD_some, readOverrides_eq] at h
    rcases Table.exists_of_get?_foldl_set h with ⟨e, he, rfl, -⟩ | hempty
    · cases hread : (Decoder.table Decoder.text).readText content with
      | none =>
        rw [hread] at he
        cases he
      | some entries =>
        rw [hread, Option.elim_some, listed, List.mem_filterMap] at he
        obtain ⟨entry, -, hentry⟩ := he
        obtain ⟨j, hj, rfl⟩ := Option.map_eq_some_iff.1 hentry
        exact Identity.nameable_of_ofText? hj
    · rw [Table.get?_empty] at hempty
      cases hempty

/-- The fields of an object of texts. -/
def textFields (entries : List (String × String)) : List (String × Json) :=
  entries.map fun e => (e.1, .str e.2)

theorem mem_textFields {entries : List (String × String)} {name text : String} :
    (name, .str text) ∈ textFields entries ↔ (name, text) ∈ entries := by
  rw [textFields, List.mem_map]
  constructor
  · rintro ⟨e, he, heq⟩
    cases heq
    exact he
  · intro he
    exact ⟨_, he, rfl⟩

theorem exists_textFields {fields : List (String × Json)} (h : ∀ f ∈ fields, ∃ s, f.2 = .str s) :
    ∃ entries, fields = textFields entries := by
  induction fields with
  | nil => exact ⟨[], rfl⟩
  | cons f fields ih =>
    obtain ⟨entries, hentries⟩ := ih fun g hg => h g (List.mem_cons_of_mem _ hg)
    obtain ⟨s, hs⟩ := h f List.mem_cons_self
    exact ⟨(f.1, s) :: entries, by rw [hentries, textFields, textFields, List.map_cons, ← hs]⟩

theorem exact_textFields (entries : List (String × String)) : (obj (textFields entries)).Exact := by
  refine .obj fun f hf => ?_
  obtain ⟨e, -, rfl⟩ := List.mem_map.1 hf
  exact .str _

/-- An object of texts is read as the list of them. -/
theorem table_textFields (a : Access) {inside : Access} (ha : a.enter = some inside)
    (entries : List (String × String)) :
    Decoder.table Decoder.text a (tree (.obj (textFields entries))) = some entries := by
  rw [tree, Decoder.table, ha]
  simp only [Option.bind_eq_bind, Option.bind_some]
  induction entries with
  | nil => rfl
  | cons e entries ih =>
    rw [textFields, List.map_cons, fieldTrees, List.mapM_cons]
    rw [textFields] at ih
    simp only [ih, decode_str, Option.bind_eq_bind, Option.bind_some]
    rfl

/-- The fields of the file of overrides, in the order in which these are kept. -/
def overrideFields (overrides : Table Identity SessionKey) : List (String × Json) :=
  overrides.entries.map fun e => (e.1.name, .str e.2.text)

variable {overrides : Table Identity SessionKey}

theorem name_inj {i j : Identity} (hi : i.Nameable) (hj : j.Nameable) (h : i.name = j.name) :
    i = j := by
  have hback := Identity.ofText?_name hi
  rw [h, Identity.ofText?_name hj] at hback
  exact (Option.some_inj.1 hback).symm

theorem nodup_overrideFields (hdistinct : overrides.Distinct)
    (hnameable : ∀ i key, overrides.get? i = some key → i.Nameable) :
    ((overrideFields overrides).map (·.1)).Nodup := by
  have hnames : (overrideFields overrides).map (·.1) = overrides.keys.map Identity.name := by
    rw [overrideFields, Table.keys, List.map_map, List.map_map]
    rfl
  rw [hnames]
  refine List.Nodup.map_on (fun i hi j hj h => ?_) hdistinct
  obtain ⟨e, he, rfl⟩ := List.mem_map.1 hi
  obtain ⟨f, hf, rfl⟩ := List.mem_map.1 hj
  exact name_inj (hnameable _ _ ((Table.mem_entries_iff hdistinct).1 he))
    (hnameable _ _ ((Table.mem_entries_iff hdistinct).1 hf)) h

theorem mem_overrideFields {name text : String} :
    (name, .str text) ∈ overrideFields overrides ↔
      ∃ e ∈ overrides.entries, e.1.name = name ∧ e.2.text = text := by
  rw [overrideFields, List.mem_map]
  constructor
  · rintro ⟨e, he, heq⟩
    obtain ⟨hname, htext⟩ := Prod.mk.inj heq
    exact ⟨e, he, hname, Json.str.inj htext⟩
  · rintro ⟨e, he, rfl, rfl⟩
    exact ⟨e, he, rfl⟩

/-- **What is written of overrides lists these overrides.** -/
theorem exists_listed (hdistinct : overrides.Distinct)
    (hnameable : ∀ i key, overrides.get? i = some key → i.Nameable) :
    ∃ entries, (Decoder.table Decoder.text).readText (overridesText overrides) = some entries ∧
      ∀ e, e ∈ listed entries ↔ e ∈ overrides.entries := by
  have hsorted (f : String × Json) :=
    mem_sortFields (nodup_overrideFields hdistinct hnameable) (f := f)
  obtain ⟨entries, hentries⟩ : ∃ entries,
      sortFields (overrideFields overrides) = textFields entries := by
    refine exists_textFields fun f hf => ?_
    obtain ⟨e, -, rfl⟩ := List.mem_map.1 ((hsorted f).1 hf)
    exact ⟨_, rfl⟩
  have hentry (name text : String) :
      (name, text) ∈ entries ↔ ∃ e ∈ overrides.entries, e.1.name = name ∧ e.2.text = text := by
    rw [← mem_textFields, ← hentries, hsorted, mem_overrideFields]
  have hname {e : Identity × SessionKey} (he : e ∈ overrides.entries) :
      Identity.ofText? e.1.name = some e.1 :=
    Identity.ofText?_name (hnameable _ _ ((Table.mem_entries_iff hdistinct).1 he))
  refine ⟨entries, ?_, fun e => ?_⟩
  · have hjson : overridesJson overrides = .obj (textFields entries) := congrArg Json.obj hentries
    rw [overridesText, hjson, readText_pretty (exact_textFields entries)]
    exact table_textFields _ rfl entries
  · rw [listed, List.mem_filterMap]
    constructor
    · rintro ⟨⟨name, text⟩, hp, hread⟩
      obtain ⟨e', he', rfl, rfl⟩ := (hentry name text).1 hp
      rw [hname he'] at hread
      cases hread
      exact he'
    · intro he
      refine ⟨(e.1.name, e.2.text), (hentry _ _).2 ⟨e, he, rfl, rfl⟩, ?_⟩
      rw [hname he]
      rfl

/-- **What is written of overrides is read as these overrides.** -/
theorem readOverrides_overridesText (hdistinct : overrides.Distinct)
    (hnameable : ∀ i key, overrides.get? i = some key → i.Nameable) (i : Identity) :
    (readOverrides (overridesText overrides)).get? i = overrides.get? i := by
  obtain ⟨entries, hread, hmem⟩ := exists_listed hdistinct hnameable
  rw [readOverrides_eq, hread, Option.elim_some]
  cases hget : overrides.get? i with
  | none =>
    rw [Table.get?_foldl_set_of_ne, Table.get?_empty]
    rintro ⟨j, key⟩ he rfl
    rw [(Table.mem_entries_iff hdistinct).1 ((hmem _).1 he)] at hget
    cases hget
  | some key =>
    refine Table.get?_foldl_set ?_ ⟨(i, key), ?_, rfl⟩ _
    · rintro ⟨j, other⟩ he rfl
      rw [(Table.mem_entries_iff hdistinct).1 ((hmem _).1 he)] at hget
      exact Option.some_inj.1 hget
    · exact (hmem _).2 ((Table.mem_entries_iff hdistinct).2 hget)

/-! ## Opening -/

namespace Store

variable {sessions : Table SessionKey Session}

theorem distinct_sound (h : overrides.Distinct) : (sound sessions overrides).Distinct := by
  rw [Table.Distinct, Table.keys] at h ⊢
  exact h.sublist (List.filter_sublist.map _)

/-- What is left of overrides when those that are not sound are dropped. -/
theorem get?_sound (h : overrides.Distinct) (i : Identity) :
    (sound sessions overrides).get? i =
      (overrides.get? i).filter fun key => i.owns key && sessions.contains key := by
  refine Option.ext fun key => ?_
  rw [← Table.mem_entries_iff (distinct_sound h), sound, List.mem_filter, Option.filter_eq_some_iff,
    Table.mem_entries_iff h]

/-- Overrides that are all sound stay as they are. -/
theorem sound_eq_self (hdistinct : overrides.Distinct)
    (h : ∀ i key, overrides.get? i = some key → i.owns key ∧ sessions.contains key) :
    sound sessions overrides = overrides := by
  rw [sound, List.filter_eq_self.2]
  rintro ⟨i, key⟩ he
  rw [Bool.and_eq_true]
  exact h i key ((Table.mem_entries_iff hdistinct).1 he)

/-- **A directory whose overrides are all sound opens as it is.** -/
theorem openAt_of_sound {d : Directory}
    (h : ∀ i key, d.overrides.get? i = some key →
      i.owns key ∧ (loadSessions d).contains key) :
    openAt d = (.ok ⟨loadSessions d, d.overrides, some d⟩, d) := by
  rw [openAt, sound_eq_self (distinct_overrides d) h, if_pos rfl]

/-- **Whenever a directory opens, the store has its sessions and its sound overrides**, and the
directory lists these. -/
theorem openAt_ok {d d' : Directory} {s : Store} (h : openAt d = (.ok s, d')) :
    s = ⟨loadSessions d, sound (loadSessions d) d.overrides, some d'⟩ ∧
      (d' = d ∧ sound (loadSessions d) d.overrides = d.overrides ∨
        d.writeOverrides (sound (loadSessions d) d.overrides) = (.ok (), d')) := by
  rw [openAt] at h
  split_ifs at h with hsize
  · cases h
    refine ⟨rfl, .inl ⟨rfl, ?_⟩⟩
    exact congrArg Table.mk (List.filter_eq_self.2 (List.length_filter_eq_length_iff.1 hsize))
  · split at h
    · rename_i hwrite
      cases h
      exact ⟨rfl, .inr hwrite⟩
    · cases h

/-- A directory opens if the sound overrides can be written. -/
theorem exists_openAt {d : Directory}
    (h : ∃ d', d.writeOverrides (sound (loadSessions d) d.overrides) = (.ok (), d')) :
    ∃ s d', openAt d = (.ok s, d') := by
  obtain ⟨d', hd'⟩ := h
  rw [openAt]
  split
  · exact ⟨_, _, rfl⟩
  · rw [hd']
    exact ⟨_, _, rfl⟩

/-- **Opening touches no session file, and leaves only sound overrides.** -/
theorem openAt_keeps {d d' : Directory} {s : Store} (h : openAt d = (.ok s, d')) :
    (∀ name, isSessionFile name → d'.entries.get? name = d.entries.get? name) ∧
      ∀ i key, d'.overrides.get? i = some key → i.owns key ∧ (loadSessions d).contains key := by
  have hsound {i : Identity} {key : SessionKey}
      (hkey : (sound (loadSessions d) d.overrides).get? i = some key) :
      d.overrides.get? i = some key ∧ i.owns key ∧ (loadSessions d).contains key := by
    rw [get?_sound (distinct_overrides d), Option.filter_eq_some_iff, Bool.and_eq_true] at hkey
    exact hkey
  rcases (openAt_ok h).2 with ⟨rfl, hsame⟩ | hwrite
  · refine ⟨fun _ _ => rfl, fun i key hkey => ?_⟩
    rw [← hsame] at hkey
    exact (hsound hkey).2
  · obtain ⟨htouches, hfile⟩ := Directory.replace_ok Directory.counts_overridesName hwrite
    refine ⟨fun name hname => htouches.others name (.inl hname) ?_, fun i key hkey => ?_⟩
    · rintro rfl
      rw [not_isSessionFile_overridesName] at hname
      cases hname
    · rw [Directory.overrides, Directory.text?_of_get? hfile, Option.map_some, Option.getD_some,
        readOverrides_overridesText (distinct_sound (distinct_overrides d))
          fun j other hother => nameable_of_overrides (hsound hother).1] at hkey
      exact (hsound hkey).2

end Store

end Parley
