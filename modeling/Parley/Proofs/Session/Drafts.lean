import Parley.Proofs.Path
import Parley.Proofs.Session.Effects

/-!
# The names of session files and of their drafts

The name of a session file is that of something right below the directory, whatever the key, and
consists of few characters (`isNameChar_of_mem_fileName`).  So two keys have one path only if they
are the same key, and the file of a key that is not empty is one that opening the directory reads
(`isSafe_fileName`).

The next content of a file is prepared under a name of its own, its *draft*, which is the name with
another extension.  Drafts are no session files.  Two keys have one draft just when they are the
same, or are the empty key and the key `.jsonl` (`draftName_inj_iff`): the file of the empty key is
called `.jsonl`, where nothing stands before the point, so that this is no extension.  The
overrides share their draft with one key (`draftName_overridesName_iff`).
-/

namespace Parley.SessionFile

variable {c : Char} {k l key : SessionKey}

/-! ## The characters of a name -/

/-- The characters that the names of session files are made of. -/
def isNameChar (c : Char) : Bool :=
  ('A' ≤ c && c ≤ 'Z') || ('a' ≤ c && c ≤ 'z') || ('0' ≤ c && c ≤ '9') || c = '.' || c = '_' ||
    c = '%' || c = '-'

theorem isNameChar_hexDigit {n : Nat} (h : n < 16) : isNameChar (hexDigit n) := by
  have hall : ∀ m : Fin 16, isNameChar (hexDigit m) := by decide
  exact hall ⟨n, h⟩

theorem isNameChar_of_isPlain (h : isPlain c) : isNameChar c := by
  simp only [isPlain, Bool.or_eq_true, or_assoc] at h
  simp only [isNameChar, Bool.or_eq_true, or_assoc]
  rcases h with lower | upper | digit | hyphen | point
  · exact .inr (.inl lower)
  · exact .inl upper
  · exact .inr (.inr (.inl digit))
  · exact .inr (.inr (.inr (.inr (.inr (.inr hyphen)))))
  · exact .inr (.inr (.inr (.inl point)))

theorem isNameChar_of_mem_spell {d : Char} (h : d ∈ spell c) : isNameChar d := by
  unfold spell at h
  split_ifs at h with hcolon hplain
  · rw [List.mem_singleton.1 h]
    rfl
  · rw [List.mem_singleton.1 h]
    exact isNameChar_of_isPlain hplain
  · obtain ⟨b, -, hd⟩ := List.mem_flatMap.1 h
    have hb : b.toNat < 256 := b.toNat_lt
    simp only [escapeByte, List.mem_cons, List.not_mem_nil, or_false] at hd
    rcases hd with rfl | rfl | rfl
    · rfl
    · exact isNameChar_hexDigit (by omega)
    · exact isNameChar_hexDigit (by omega)

theorem toList_fileName (key : SessionKey) :
    (fileName key).toList = key.text.toList.flatMap spell ++ suffix :=
  String.toList_ofList

theorem isNameChar_of_mem_fileName (h : c ∈ (fileName key).toList) : isNameChar c := by
  rw [toList_fileName, List.mem_append, List.mem_flatMap] at h
  rcases h with ⟨d, -, hspell⟩ | hsuffix
  · exact isNameChar_of_mem_spell hspell
  · have hall : suffix.all isNameChar := by decide
    exact List.all_eq_true.1 hall c hsuffix

/-- **The name of a session file names something right below the directory**, whatever the key. -/
theorem isComponent_nameOf (key : SessionKey) : Path.IsComponent (fileName key) := by
  -- the names that stand for a directory are too short
  have hlong : 6 ≤ (fileName key).toList.length := by
    rw [toList_fileName, List.length_append]
    exact Nat.le_add_left _ _
  have hne {name : String} (hshort : name.toList.length < 6) : fileName key ≠ name := by
    rintro rfl
    omega
  refine ⟨hne (by decide), hne (by decide), hne (by decide), fun hslash => ?_⟩
  have hname := isNameChar_of_mem_fileName hslash
  revert hname
  decide

/-! ## Session files -/

/-- A name under which a session file can stand in the directory and nowhere else, and is found
again when the directory is opened. -/
structure IsSafe (name : String) : Prop where
  component : Path.IsComponent name
  chars : ∀ c ∈ name.toList, isNameChar c
  ne_overridesName : name ≠ overridesName
  extension : (splitExtension name).2 = some "jsonl"
  listed : ∀ (d : Directory) (content : Entry), d.entries.get? name = some content →
    name ∈ d.sessionFiles

theorem mem_sessionFiles {d : Directory} {name : String} {content : Entry}
    (hget : d.entries.get? name = some content) (h : isSessionFile name) :
    name ∈ d.sessionFiles := by
  rw [Directory.sessionFiles, List.mem_mergeSort, List.mem_filter]
  exact ⟨Table.mem_keys_of_get? hget, h⟩

/-- **The file of a key that is not empty has a safe name.** -/
theorem isSafe_fileName (h : key.text ≠ "") : IsSafe (fileName key) where
  component := isComponent_nameOf key
  chars := fun _ => isNameChar_of_mem_fileName
  ne_overridesName := (Directory.overridesName_ne_fileName h).symm
  extension := of_decide_eq_true (isSessionFile_fileName h)
  listed := fun _ _ hget => mem_sessionFiles hget (isSessionFile_fileName h)

/-- **Distinct keys have distinct paths**, below any directory. -/
theorem eq_of_parts_eq {dir : String}
    (h : Path.parts (Path.join dir (fileName k)) = Path.parts (Path.join dir (fileName l))) :
    k = l := by
  rw [Path.parts_join (isComponent_nameOf k), Path.parts_join (isComponent_nameOf l)] at h
  exact fileName_injective (List.cons.inj h).1

/-! ## Drafts -/

/-- What stands before the extension of a file: its key as it is spelled, but for the empty key,
whose file has no extension. -/
theorem stem_fileName (key : SessionKey) :
    ((splitExtension (fileName key)).1).toList =
      if key.text = "" then suffix else key.text.toList.flatMap spell := by
  split_ifs with hempty
  · rw [fileName, hempty]
    decide
  · have hstem : key.text.toList.flatMap spell ≠ [] := by
      obtain ⟨c, more, hmore⟩ := List.exists_cons_of_ne_nil (mt String.toList_eq_nil_iff.1 hempty)
      rw [hmore, List.flatMap_cons]
      exact List.append_ne_nil_of_left_ne_nil (spell_ne_nil c) _
    have hsplit := splitExtension_point _ ['j', 's', 'o', 'n', 'l'] hstem (by decide)
    rw [fileName, suffix, hsplit, String.toList_ofList]

/-- A key is told from how it is spelled. -/
theorem key_eq_of_spelled (h : k.text.toList.flatMap spell = l.text.toList.flatMap spell) :
    k = l :=
  fileName_injective (congrArg (fun spelled => String.ofList (spelled ++ suffix)) h)

theorem draftName_eq_iff {name other : String} :
    draftName name = draftName other ↔
      (splitExtension name).1.toList = (splitExtension other).1.toList := by
  rw [draftName, draftName, ← String.toList_inj, String.toList_append, String.toList_append,
    List.append_left_inj]

/-- The key that is spelled like the name of the file of the empty key. -/
theorem spelled_eq_suffix_iff :
    key.text.toList.flatMap spell = suffix ↔ key.text = ".jsonl" := by
  constructor
  · intro h
    have hsame : key = ⟨".jsonl"⟩ := key_eq_of_spelled h
    rw [hsame]
  · intro h
    rw [h]
    decide

/-- **Which keys share a draft.** -/
theorem draftName_inj_iff :
    draftName (fileName k) = draftName (fileName l) ↔
      k = l ∨ (k.text = "" ∧ l.text = ".jsonl") ∨ (k.text = ".jsonl" ∧ l.text = "") := by
  rw [draftName_eq_iff, stem_fileName, stem_fileName]
  split_ifs with hk hl hl
  · have hsame : k = l := congrArg SessionKey.mk (hk.trans hl.symm)
    exact iff_of_true rfl (.inl hsame)
  · rw [eq_comm, spelled_eq_suffix_iff]
    constructor
    · exact fun h => .inr (.inl ⟨hk, h⟩)
    · rintro (rfl | ⟨-, h⟩ | ⟨-, h⟩)
      · exact absurd hk hl
      · exact h
      · exact absurd h hl
  · rw [spelled_eq_suffix_iff]
    constructor
    · exact fun h => .inr (.inr ⟨h, hl⟩)
    · rintro (rfl | ⟨h, -⟩ | ⟨h, -⟩)
      · exact absurd hl hk
      · exact absurd h hk
      · exact h
  · constructor
    · exact fun h => .inl (key_eq_of_spelled h)
    · rintro (rfl | ⟨h, -⟩ | ⟨-, h⟩)
      · rfl
      · exact absurd h hk
      · exact absurd h hl

/-- **The overrides share their draft with one key.** -/
theorem draftName_overridesName_iff :
    draftName overridesName = draftName (fileName key) ↔ key.text = ":active" := by
  rw [draftName_eq_iff, stem_fileName]
  split_ifs with hempty
  · rw [hempty]
    decide
  · constructor
    · intro h
      have hsame : key = ⟨":active"⟩ := key_eq_of_spelled h.symm
      rw [hsame]
    · intro h
      rw [h]
      decide

/-- No file of a key is a draft. -/
theorem draftName_ne_fileName (name : String) (key : SessionKey) :
    draftName name ≠ fileName key := by
  intro h
  have hdraft := Directory.isDraft_draftName name
  have hsuffix : suffix <:+ (draftName name).toList := by
    rw [h, toList_fileName]
    exact List.suffix_append _ _
  -- of two endings of one name, the shorter ends the longer
  have hends := List.suffix_of_suffix_length_le hdraft hsuffix (by decide)
  revert hends
  decide

/-- **The names of session files and of their drafts**: two keys never have one path, and the name
of the file of a key that is not empty is safe; no draft is the file of a key, and distinct keys
have distinct drafts, but for the empty key and the key that is called like its file. -/
theorem names_apart (dir name : String) (k l : SessionKey) :
    (Path.parts (Path.join dir (fileName k)) = Path.parts (Path.join dir (fileName l)) → k = l) ∧
      (k.text ≠ "" → IsSafe (fileName k)) ∧
      draftName name ≠ fileName k ∧
      (draftName (fileName k) = draftName (fileName l) ↔
        k = l ∨ (k.text = "" ∧ l.text = ".jsonl") ∨ (k.text = ".jsonl" ∧ l.text = "")) :=
  ⟨eq_of_parts_eq, isSafe_fileName, draftName_ne_fileName name k, draftName_inj_iff⟩

/-- Two keys that differ in what a file name cannot hold. -/
theorem names_apart_of_colon :
    (Path.parts (Path.join "sessions" (fileName ⟨"ws:a"⟩)) ≠
        Path.parts (Path.join "sessions" (fileName ⟨"ws_a"⟩))) ∧
      IsSafe (fileName ⟨"ws:a"⟩) ∧
      draftName (fileName ⟨"ws_a"⟩) ≠ fileName ⟨"ws:a"⟩ ∧
      draftName (fileName ⟨"ws:a"⟩) ≠ draftName (fileName ⟨"ws_a"⟩) := by
  obtain ⟨hpaths, hsafe, hfile, hdrafts⟩ :=
    names_apart "sessions" (fileName ⟨"ws_a"⟩) ⟨"ws:a"⟩ ⟨"ws_a"⟩
  refine ⟨mt hpaths (by decide), hsafe (by decide), hfile, mt hdrafts.1 (by decide)⟩

/-- The drafts of two keys may be one, though their files are not. -/
theorem draft_shared_with_empty :
    ¬ ∀ k l : SessionKey, k ≠ l → draftName (fileName k) ≠ draftName (fileName l) := by
  intro h
  exact h ⟨""⟩ ⟨".jsonl"⟩ (by decide) (by decide)

end Parley.SessionFile
