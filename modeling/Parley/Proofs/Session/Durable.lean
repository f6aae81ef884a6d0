import Parley.Proofs.Json.Joining
import Parley.Proofs.Session.Mirror

/-!
# Turns after a torn line

A session's file may end in the middle of a line, when a write was torn or when somebody else
wrote it.  Reading passes over such a rest, as over any line that is no turn.  But a turn is
recorded by adding its line to whatever is there, so it is read again exactly if nothing but white
space follows the last line feed (`openAt_append_iff`).  Otherwise the turn and the rest make one
line that is no turn, and both are lost, though the turn was acknowledged.
-/

namespace Parley

open Json SessionFile Directory

/-! ## Lines -/

namespace SessionFile

/-- The session that some lines describe, none of them empty. -/
def readLines? : List String → Option Session
  | [] => none
  | first :: rest =>
    (descriptionDecoder.readText first).bind fun d =>
      if d.kind = "metadata" then some (assemble d.session (turns rest)) else none

/-- The lines that are not empty. -/
def written (content : String) : List String := content.textLines.filter (!·.isAllBlank)

theorem written_append {s : String} (h : Text.Closed s.toList) (t : String) :
    written (s ++ t) = written s ++ written t := by
  rw [written, String.textLines_append h, List.filter_append]
  rfl

/-- The line of an object is one of the lines. -/
theorem written_line_append {fields : List (String × Json)} (h : (obj fields).Exact)
    (rest : String) :
    written (line (obj fields) ++ rest) = (obj fields).compact :: written rest := by
  rw [written_append (closed_line _), written, textLines_line h, List.filter_singleton,
    isAllBlank_compact_obj]
  rfl

/-- Characters without a line feed are one line, unless they are blank. -/
theorem written_of_no_feed {chars : List Char} (h : '\n' ∉ chars) :
    written (String.ofList chars) =
      if chars.all Text.isBlank then [] else [String.ofList chars] := by
  rw [written, String.textLines, String.toList_ofList, Text.lines_of_no_feed h]
  cases chars with
  | nil => rfl
  | cons c chars =>
    rw [List.isEmpty_cons, if_neg Bool.false_ne_true, List.map_singleton, List.filter_singleton,
      String.isAllBlank, String.toList_ofList]
    cases (c :: chars).all Text.isBlank <;> rfl

theorem read?_eq_readLines? (content : String) : read? content = readLines? (written content) := by
  rw [read?, written]
  cases content.textLines.filter (!·.isAllBlank) <;> rfl

/-- **More lines are more turns** of the same session. -/
theorem readLines?_append {lines : List String} {x : Session} (h : readLines? lines = some x)
    (more : List String) :
    ∃ y, readLines? (lines ++ more) = some y ∧ y.key = x.key ∧
      y.transcript = x.transcript ++ turns more := by
  cases lines with
  | nil => cases h
  | cons first rest =>
    rw [readLines?] at h
    obtain ⟨d, hd, h⟩ := Option.bind_eq_some_iff.1 h
    split_ifs at h with hkind
    cases h
    refine ⟨assemble d.session (turns (rest ++ more)), ?_, rfl, ?_⟩
    · rw [List.cons_append, readLines?, hd, Option.bind_some, if_pos hkind]
    · exact List.filterMap_append

/-- Lines that are no turns are passed over. -/
theorem readLines?_append_of_no_turns {lines more : List String} {x : Session}
    (h : readLines? lines = some x) (hmore : turns more = []) :
    readLines? (lines ++ more) = some x := by
  cases lines with
  | nil => cases h
  | cons first rest =>
    have hturns : turns (rest ++ more) = turns rest := by
      rw [turns, List.filterMap_append]
      exact (congrArg (turns rest ++ ·) hmore).trans (List.append_nil _)
    rw [List.cons_append, readLines?, hturns]
    exact h

/-- What follows a written session and holds no turn is passed over. -/
theorem read?_text_append {x : Session} (hx : x.Storable) {rest : String}
    (hrest : turns (written rest) = []) :
    read? (text x ++ rest) = some (assemble x x.transcript) := by
  have hwhole := read?_text hx
  rw [read?_eq_readLines?] at hwhole
  rw [read?_eq_readLines?, written_append (closed_text hx)]
  exact readLines?_append_of_no_turns hwhole hrest

/-- The description is among the lines before one that is no description. -/
theorem exists_readLines? {lines : List String} {l : String} {y : Session}
    (h : readLines? (lines ++ [l]) = some y) (hl : descriptionDecoder.readText l = none) :
    ∃ x, readLines? lines = some x := by
  cases lines with
  | nil =>
    rw [List.nil_append, readLines?, hl] at h
    cases h
  | cons first rest =>
    rw [List.cons_append, readLines?] at h
    obtain ⟨d, hd, h⟩ := Option.bind_eq_some_iff.1 h
    split_ifs at h with hkind
    exact ⟨_, by rw [readLines?, hd, Option.bind_some, if_pos hkind]⟩

/-! ## The line of a turn -/

theorem named_turn (t : Turn) : Named (render t.toJson) :=
  ⟨'r', ['o', 'l', 'e'], _, rfl, rfl, rfl, rfl⟩

/-- Every turn that is read has an instant that can be read. -/
theorem valid_of_turn {a : Access} {j : Tree} {t : Turn} (h : Turn.decoder a j = some t) :
    t.timestamp.Valid := by
  simp only [Turn.decoder, Record.required, Timestamp.decoder, Decoder.andThen,
    Option.bind_eq_bind, Option.bind_eq_some_iff] at h
  obtain ⟨r, -, role, -, c, -, stamp, ⟨field, -, text, -, hstamp⟩, heq⟩ := h
  cases heq
  exact Timestamp.valid_of_ofText? hstamp

theorem valid_of_mem_turns {lines : List String} {t : Turn} (h : t ∈ turns lines) :
    t.timestamp.Valid := by
  obtain ⟨l, -, hread⟩ := List.mem_filterMap.1 h
  obtain ⟨j, -, hturn⟩ := Option.bind_eq_some_iff.1 hread
  exact valid_of_turn hturn

theorem valid_of_read? {content : String} {x : Session} (h : read? content = some x) :
    ∀ t ∈ x.transcript, t.timestamp.Valid := by
  rw [read?_eq_readLines?] at h
  cases hlines : written content with
  | nil =>
    rw [hlines] at h
    cases h
  | cons first rest =>
    rw [hlines, readLines?] at h
    obtain ⟨d, -, h⟩ := Option.bind_eq_some_iff.1 h
    split_ifs at h
    cases h
    exact fun t ht => valid_of_mem_turns ht

/-! ## Contents that end in the middle of a line -/

variable {content : String} {x : Session} {t : Turn}

/-- The lines before the last feed stay.  The rest is a line by itself, unless it is empty; with the
line of a turn added, both are one line. -/
theorem exists_written (content : String) : ∃ lines : List String,
    written content =
      lines ++ (if (Text.unended content.toList).all Text.isBlank then []
        else [String.ofList (Text.unended content.toList)]) ∧
    ∀ t : Turn, t.content.Storable → written (content ++ line t.toJson) =
      lines ++ [String.ofList (Text.unended content.toList ++ t.toJson.render)] := by
  obtain ⟨closed, hsplit, hclosed⟩ := Text.exists_closed_append content.toList
  have hfeed := Text.feed_not_mem_unended content.toList
  obtain ⟨rest, hrest⟩ : ∃ rest, rest = Text.unended content.toList := ⟨_, rfl⟩
  rw [← hrest] at hsplit hfeed ⊢
  have hcontent : content = String.ofList closed ++ String.ofList rest := by
    rw [← String.ofList_append, ← hsplit, String.ofList_toList]
  rw [← String.toList_ofList (l := closed)] at hclosed
  refine ⟨written (String.ofList closed), ?_, fun t ht => ?_⟩
  · rw [hcontent, written_append hclosed, written_of_no_feed hfeed]
  · have hline : '\n' ∉ rest ++ t.toJson.render := by
      rw [List.mem_append, not_or]
      exact ⟨hfeed, feed_not_mem_render (Turn.exact_toJson ht)⟩
    have hreturn : (rest ++ t.toJson.render).getLast? ≠ some '\r' := by
      have hlast : t.toJson.render.getLast? = some '}' := getLast?_render_obj _
      rw [List.getLast?_append, hlast, Option.some_or]
      decide
    have hwritten : (String.ofList (rest ++ t.toJson.render)).isAllBlank = false := by
      have hbrace : t.toJson.render.all Text.isBlank = false := rfl
      rw [String.isAllBlank, String.toList_ofList, List.all_append, hbrace, Bool.and_false]
    have hlast : written (String.ofList rest ++ line t.toJson) =
        [String.ofList (rest ++ t.toJson.render)] := by
      rw [written, String.textLines, String.toList_append, String.toList_ofList, toList_line,
        ← List.append_assoc, Text.lines_line hline hreturn, List.map_singleton,
        List.filter_singleton, hwritten]
      rfl
    rw [hcontent, String.append_assoc, written_append hclosed, hlast]

theorem isBlank_of_isSpace {c : Char} (h : isSpace c) : Text.isBlank c := by
  rcases isSpace_cases h with rfl | rfl | rfl | rfl <;> rfl

/-- **After white space the line of a turn is read**, and the session has the turn. -/
theorem read?_append_of_spaces (hread : read? content = some x)
    (hspaces : ∀ c ∈ Text.unended content.toList, isSpace c) (ht : t.Storable) :
    ∃ y, read? (content ++ line t.toJson) = some y ∧ y.key = x.key ∧
      y.transcript = x.transcript ++ [t] := by
  obtain ⟨lines, hwritten, hadded⟩ := exists_written content
  have hblank : (Text.unended content.toList).all Text.isBlank :=
    List.all_eq_true.2 fun c hc => isBlank_of_isSpace (hspaces c hc)
  rw [if_pos hblank, List.append_nil] at hwritten
  rw [read?_eq_readLines?, hwritten] at hread
  obtain ⟨y, hy, hkey, htranscript⟩ := readLines?_append hread
    [String.ofList (Text.unended content.toList ++ t.toJson.render)]
  have hturn : Turn.decoder.readText
      (String.ofList (Text.unended content.toList ++ t.toJson.render)) = some t := by
    rw [Decoder.readText, read?_of_spaces (Turn.exact_toJson ht.content) hspaces]
    exact decode_turn ht
  refine ⟨y, ?_, hkey, ?_⟩
  · rw [read?_eq_readLines?, hadded t ht.content, hy]
  · rw [htranscript, turns, List.filterMap_cons_some hturn, List.filterMap_nil]

/-- **After anything else it is not read**, nor is what it was added to. -/
theorem length_le_of_torn (hread : read? content = some x)
    (htorn : ¬ ∀ c ∈ Text.unended content.toList, isSpace c) (ht : t.content.Storable)
    {y : Session} (hy : read? (content ++ line t.toJson) = some y) :
    y.transcript.length ≤ x.transcript.length := by
  obtain ⟨lines, hwritten, hadded⟩ := exists_written content
  rw [read?_eq_readLines?, hwritten] at hread
  rw [read?_eq_readLines?, hadded t ht] at hy
  have hnone {α : Type} (d : Decoder α) :
      d.readText (String.ofList (Text.unended content.toList ++ t.toJson.render)) = none := by
    rw [Decoder.readText]
    cases htree : Tree.read? (String.ofList (Text.unended content.toList ++ t.toJson.render)) with
    | none => rfl
    | some j => exact absurd (isSpace_of_read? (Turn.exact_toJson ht) (named_turn t) htree) htorn
  obtain ⟨z, hz⟩ := exists_readLines? hy (hnone _)
  obtain ⟨x', hx', -, hlonger⟩ := readLines?_append hz _
  obtain ⟨y', hy', -, hsame⟩ := readLines?_append hz _
  rw [hread] at hx'
  rw [hy] at hy'
  cases hx'
  cases hy'
  rw [turns, List.filterMap_cons_none (hnone _), List.filterMap_nil, List.append_nil] at hsame
  rw [hsame, hlonger, List.length_append]
  exact Nat.le_add_right _ _

/-- **A turn is read from a content that it was added to exactly if** it follows white space, and
its time is an instant that can be read. -/
theorem transcript_append_iff (hread : read? content = some x) (ht : t.content.Storable) :
    (∃ y, read? (content ++ line t.toJson) = some y ∧ y.key = x.key ∧
        y.transcript = x.transcript ++ [t]) ↔
      (∀ c ∈ Text.unended content.toList, isSpace c) ∧ t.timestamp.Valid := by
  constructor
  · rintro ⟨y, hy, -, htranscript⟩
    have hmem : t ∈ y.transcript := by
      rw [htranscript]
      exact List.mem_append_right _ (List.mem_singleton_self t)
    refine ⟨?_, valid_of_read? hy t hmem⟩
    by_contra htorn
    have hle := length_le_of_torn hread htorn ht hy
    rw [htranscript, List.length_append, List.length_singleton] at hle
    omega
  · rintro ⟨hspaces, hvalid⟩
    exact read?_append_of_spaces hread hspaces ⟨ht, hvalid⟩

end SessionFile

/-! ## Directories -/

variable {d d₁ d₂ : Directory} {key : SessionKey} {content : String} {x y : Session} {t : Turn}

/-- From one directory to the other the line of a turn was added to the file of a session, which
is the only file of that session, and no other session file was touched. -/
structure Added (key : SessionKey) (content : String) (t : Turn) (d d' : Directory) : Prop where
  session : isSessionFile (fileName key)
  only : ∀ name y, d.Holds name y → y.key = key → name = fileName key
  before : d.text? (fileName key) = some content
  after : d'.text? (fileName key) = some (content ++ line t.toJson)
  others : ∀ name, isSessionFile name → name ≠ fileName key →
    d'.entries.get? name = d.entries.get? name

namespace Added

theorem holds_iff (h : Added key content t d d₂) :
    d₂.Holds (fileName key) y ↔ SessionFile.read? (content ++ line t.toJson) = some y := by
  rw [Holds, h.after, Option.bind_some, and_iff_right h.session]

theorem holds_other {name : String} (h : Added key content t d d₂) (hname : isSessionFile name)
    (hne : name ≠ fileName key) : d₂.Holds name y ↔ d.Holds name y :=
  holds_congr (h.others name hname hne)

theorem eq_fileName (h : Added key content t d d₂) {name : String} (hy : d₂.Holds name y)
    (hkey : y.key = key) : name = fileName key := by
  by_contra hne
  exact hne (h.only name y ((h.holds_other hy.1 hne).1 hy) hkey)

/-- The session is loaded as its file says. -/
theorem get?_iff (h : Added key content t d d₂) (hkey : y.key = key) :
    (Store.loadSessions d₂).get? key = some y ↔
      SessionFile.read? (content ++ line t.toJson) = some y := by
  constructor
  · intro hy
    obtain ⟨-, name, hholds⟩ := exists_holds hy
    cases h.eq_fileName hholds hkey
    exact h.holds_iff.1 hholds
  · intro hy
    have hload := loadSessions_get? ⟨fileName key, h.holds_iff.2 hy⟩ fun name z hz hzkey => by
      cases h.eq_fileName hz (hzkey.trans hkey)
      rw [h.holds_iff, hy] at hz
      exact (Option.some.inj hz).symm
    rw [hkey] at hload
    exact hload

/-- A transcript that is found when the directory is opened is read from the session's file. -/
theorem exists_read? (h : Added key content t d d₁) {s : Store} {turns : List Turn}
    (hopen : Store.openAt d₁ = (.ok s, d₂)) (hturns : s.transcript key = .ok turns) :
    ∃ y, SessionFile.read? (content ++ line t.toJson) = some y ∧ y.key = key ∧
      y.transcript = turns := by
  obtain ⟨rfl, -⟩ := Store.openAt_ok hopen
  rw [Store.transcript] at hturns
  split at hturns
  · rename_i y hy
    have hkey := (exists_holds hy).1
    exact ⟨y, (h.get?_iff hkey).1 hy, hkey, Except.ok.inj hturns⟩
  · cases hturns

/-- If the session's file is still read, every session is still there. -/
theorem contains (h : Added key content t d d₂)
    (hread : SessionFile.read? content = some x) (hkey : x.key = key)
    (hload : (Store.loadSessions d₂).contains key) {other : SessionKey}
    (hother : (Store.loadSessions d).contains other) :
    (Store.loadSessions d₂).contains other := by
  obtain ⟨name, z, hz, hzkey⟩ := contains_loadSessions_iff.1 hother
  by_cases hne : name = fileName key
  · cases hne
    rw [Holds, h.before, Option.bind_some, hread] at hz
    cases hz.2
    rw [← hzkey, hkey]
    exact hload
  · exact contains_loadSessions_iff.2 ⟨name, z, (h.holds_other hz.1 hne).2 hz, hzkey⟩

end Added

/-! ## Turns that were acknowledged -/

theorem Session.extend_content (x : Session) (t : Turn) (now : Timestamp) :
    (x.extend t now).1.content = t.content := by
  rw [extend]
  cases x.transcript.getLast? <;> rfl

theorem Session.extend_key (x : Session) (t : Turn) (now : Timestamp) :
    (x.extend t now).2.key = x.key := rfl

namespace Store

variable {s s' : Store} {now : Timestamp}

theorem append_ok (hx : s.sessions.get? key = some x) (hd₁ : s.disk = some d₁)
    (h : s.append key t now = (.ok (), s')) (hd₂ : s'.disk = some d₂) :
    d₁.recordTurn (x.extend t now).2 (x.extend t now).1 = (.ok (), d₂) := by
  rw [append, hx, hd₁] at h
  dsimp only at h
  split at h
  · rename_i hrecord
    cases h
    cases hd₂
    exact hrecord
  · cases h

theorem append_of_recordTurn (hx : s.sessions.get? key = some x) (hd₁ : s.disk = some d₁)
    (h : d₁.recordTurn (x.extend t now).2 (x.extend t now).1 = (.ok (), d₂)) :
    s.append key t now = (.ok (), { s with
      sessions := s.sessions.set key (x.extend t now).2
      disk := some d₂ }) := by
  rw [append, hx, hd₁]
  dsimp only
  rw [h]

/-- **An acknowledged turn is a line** at the end of the session's file. -/
theorem added_of_append (hopen : openAt d = (.ok s, d₁)) (hx : s.sessions.get? key = some x)
    (honly : ∀ name y, d.Holds name y → y.key = key → name = fileName key)
    (hhonest : d₁.refusal (.append (fileName key)) ≠ some .notFound)
    (happend : s.append key t now = (.ok (), s')) (hd₂ : s'.disk = some d₂) :
    ∃ content, SessionFile.read? content = some x ∧ x.key = key ∧
      Added key content (x.extend t now).1 d d₂ ∧ d₂.overrides = d₁.overrides := by
  obtain ⟨hfiles, -⟩ := openAt_keeps hopen
  obtain ⟨rfl, -⟩ := openAt_ok hopen
  obtain ⟨hkey, name, hholds⟩ := exists_holds hx
  cases honly name x hholds hkey
  obtain ⟨hname, hread⟩ := hholds
  obtain ⟨content, htext, hread⟩ := Option.bind_eq_some_iff.1 hread
  have hrecord := append_ok hx rfl happend hd₂
  have hfile := (hfiles _ hname).trans (get?_of_text? htext)
  have hextended : (x.extend t now).2.key = key := (Session.extend_key x t now).trans hkey
  rw [← hextended] at hhonest hfile
  obtain ⟨htouches, hadded⟩ := recordTurn_of_get? hhonest hfile hrecord
  rw [hextended] at htouches hadded
  rw [← toUTF8_append] at hadded
  refine ⟨content, hread, hkey, ⟨hname, honly, htext, text?_of_get? hadded, fun name hother hne =>
    (htouches.others name (.inl hother) hne).trans (hfiles name hother)⟩,
    overrides_of_touches htouches ?_⟩
  intro hoverridesName
  rw [← hoverridesName, not_isSessionFile_overridesName] at hname
  cases hname

/-! ## Directories of one file -/

theorem get?_ofTexts (name text other : String) : (ofTexts [(name, text)]).entries.get? other =
    if other = name then some (.file text.toUTF8) else none :=
  get?_put_empty name text.toUTF8 other

theorem text?_ofTexts (name text : String) : (ofTexts [(name, text)]).text? name = some text := by
  refine text?_of_get? ((get?_ofTexts _ _ _).trans ?_)
  rw [if_pos rfl]

theorem eq_of_holds_ofTexts {name text other : String}
    (h : (ofTexts [(name, text)]).Holds other y) : other = name :=
  eq_of_holds_put h

/-- A directory of one session file holds that session. -/
theorem loadSessions_ofTexts (hread : SessionFile.read? content = some x)
    (hkey : x.key.text ≠ "") :
    (loadSessions (ofTexts [(fileName x.key, content)])).get? x.key = some x := by
  have hholds : (ofTexts [(fileName x.key, content)]).Holds (fileName x.key) x := by
    rw [Holds, text?_ofTexts]
    exact ⟨isSessionFile_fileName hkey, hread⟩
  refine loadSessions_get? ⟨_, hholds⟩ fun name y hy _ => ?_
  cases eq_of_holds_ofTexts hy
  rw [Holds, hholds.2] at hy
  exact (Option.some.inj hy.2).symm

theorem sessions_ofTexts {name : String} (hname : isSessionFile name)
    (hread : SessionFile.read? content = some x) : (ofTexts [(name, content)]).sessions = [x] := by
  have hkeys : (ofTexts [(name, content)]).entries.keys = [name] := rfl
  rw [Directory.sessions, sessionFiles, hkeys]
  simp [hname, text?_ofTexts, hread]

/-- A directory of one session file opens. -/
theorem openAt_ofTexts (content : String) (hkey : key.text ≠ "") :
    openAt (ofTexts [(fileName key, content)]) =
      (.ok ⟨loadSessions (ofTexts [(fileName key, content)]), .empty,
        some (ofTexts [(fileName key, content)])⟩, ofTexts [(fileName key, content)]) := by
  have hoverrides : (ofTexts [(fileName key, content)]).overrides = .empty := by
    rw [Directory.overrides, text?, get?_ofTexts, if_neg (overridesName_ne_fileName hkey)]
    rfl
  have hopen := openAt_of_sound (d := ofTexts [(fileName key, content)]) fun i other hother => by
    rw [hoverrides] at hother
    cases hother
  rw [hoverrides] at hopen
  exact hopen

/-- It opens, and every turn of the session is acknowledged. -/
theorem exists_append_ofTexts (hread : SessionFile.read? content = some x) (hkey : x.key.text ≠ "")
    (hshort : tooLong (fileName x.key) = false) (t : Turn) (now : Timestamp) :
    ∃ s s' d₂, openAt (ofTexts [(fileName x.key, content)]) =
        (.ok s, ofTexts [(fileName x.key, content)]) ∧
      s.sessions.get? x.key = some x ∧ s.append x.key t now = (.ok (), s') ∧
      s'.disk = some d₂ := by
  have hload := loadSessions_ofTexts hread hkey
  have hopen := openAt_ofTexts content hkey
  have hfind : (ofTexts [(fileName x.key, content)]).find? (fileName x.key) =
      .ok (some (.file content.toUTF8)) := by
    rw [find?_of_fit _ (contains_zero_fileName _) hshort, get?_ofTexts, if_pos rfl]
  have hrecord : (ofTexts [(fileName x.key, content)]).recordTurn (x.extend t now).2
      (x.extend t now).1 = (.ok (), (ofTexts [(fileName x.key, content)]).put (fileName x.key)
        (content.toUTF8 ++ (line (x.extend t now).1.toJson).toUTF8)) := by
    have hrefusal : (ofTexts [(fileName x.key, content)]).refusal (.append (fileName x.key)) =
        none := rfl
    rw [recordTurn, Session.extend_key, Directory.append, hrefusal, hfind]
  exact ⟨_, _, _, hopen, hload, append_of_recordTurn hload rfl hrecord, rfl⟩

/-! ## Reopening -/

/-- **When a turn that was acknowledged is read again.**  Let a directory open, whatever is in it,
and take a session that no file but its own describes.  A turn that is added to it is there, after
the turns that were loaded, when the directory is opened again, exactly if nothing but white space
follows the last line feed of the session's file, and the turn's time can be read. -/
theorem openAt_append_iff (hopen : openAt d = (.ok s, d₁)) (hx : s.sessions.get? key = some x)
    (honly : ∀ name y, d.Holds name y → y.key = key → name = fileName key)
    (hhonest : d₁.refusal (.append (fileName key)) ≠ some .notFound)
    (ht : t.content.Storable) (happend : s.append key t now = (.ok (), s'))
    (hd₂ : s'.disk = some d₂) :
    ∃ content, d.text? (fileName key) = some content ∧
      ((∃ s'' d₃, openAt d₂ = (.ok s'', d₃) ∧
          s''.transcript key = .ok (x.transcript ++ [(x.extend t now).1])) ↔
        (∀ c ∈ Text.unended content.toList, isSpace c) ∧ (x.extend t now).1.timestamp.Valid) := by
  obtain ⟨content, hread, hkey, hadded, hkept⟩ :=
    added_of_append hopen hx honly hhonest happend hd₂
  obtain ⟨-, hoverrides⟩ := openAt_keeps hopen
  have hstorable : (x.extend t now).1.content.Storable := by
    rw [Session.extend_content]
    exact ht
  refine ⟨content, hadded.before, ?_⟩
  rw [← transcript_append_iff hread hstorable, hkey]
  constructor
  · rintro ⟨s'', d₃, hopen₂, htranscript⟩
    exact hadded.exists_read? hopen₂ htranscript
  · rintro ⟨y, hy, hykey, htranscript⟩
    have hload := (hadded.get?_iff hykey).2 hy
    refine ⟨_, _, openAt_of_sound fun i other hother => ?_, ?_⟩
    · rw [hkept] at hother
      obtain ⟨howns, hstored⟩ := hoverrides i other hother
      exact ⟨howns, hadded.contains hread hkey (contains_of_get? hload) hstored⟩
    · rw [transcript, hload]
      exact congrArg Except.ok htranscript

/-- A turn after a session without any. -/
theorem openAt_append_first :
    let i : Identity := ⟨"cli", "local"⟩
    let noon : Timestamp := ⟨1709294400, 0⟩
    let x : Session := .new i.defaultKey i none noon
    let d := ofTexts [(fileName x.key, text x)]
    ∃ s s' d₂, openAt d = (.ok s, d) ∧ s.sessions.get? x.key = some x ∧
      s.append x.key (.user "hi" noon) noon = (.ok (), s') ∧ s'.disk = some d₂ ∧
      ∃ s'' d₃, openAt d₂ = (.ok s'', d₃) ∧
        s''.transcript x.key = .ok (x.transcript ++ [.user "hi" noon]) := by
  intro i noon x d
  have hnoon : noon.Valid := ⟨by decide, by decide⟩
  have hread : SessionFile.read? (text x) = some x := read?_text ⟨hnoon, hnoon, nofun⟩
  obtain ⟨s, s', d₂, hopen, hx, happend, hd₂⟩ :=
    exists_append_ofTexts hread (by decide) (by decide) (.user "hi" noon) noon
  obtain ⟨content, hcontent, hiff⟩ := openAt_append_iff (t := .user "hi" noon) hopen hx
    (fun name y hy _ => eq_of_holds_ofTexts hy) nofun trivial happend hd₂
  rw [text?_ofTexts, Option.some_inj] at hcontent
  refine ⟨s, s', d₂, hopen, hx, happend, hd₂, hiff.2 ⟨?_, hnoon⟩⟩
  have hempty := Text.unended_append (closed_text (s := x) ⟨hnoon, hnoon, nofun⟩) List.not_mem_nil
  rw [List.append_nil] at hempty
  rw [← hcontent, hempty]
  exact nofun

/-- **A turn is lost after a torn line**, although it was acknowledged. -/
theorem lost_after_torn_line :
    let i : Identity := ⟨"cli", "local"⟩
    let noon : Timestamp := ⟨1709294400, 0⟩
    let x : Session := .new i.defaultKey i none noon
    let d := ofTexts [(fileName x.key, text x ++ "\x7b\"role\":\"us")]
    ∃ s s' d₂, openAt d = (.ok s, d) ∧ s.transcript x.key = .ok [] ∧
      (∀ name y, d.Holds name y → y.key = x.key → name = fileName x.key) ∧
      s.append x.key (.user "hi" noon) noon = (.ok (), s') ∧ s'.disk = some d₂ ∧
      ¬ ∃ s'' d₃, openAt d₂ = (.ok s'', d₃) ∧ s''.transcript x.key = .ok [.user "hi" noon] := by
  intro i noon x d
  have hx : x.Storable := ⟨⟨by decide, by decide⟩, ⟨by decide, by decide⟩, nofun⟩
  have hread : SessionFile.read? (text x ++ "\x7b\"role\":\"us") = some x :=
    read?_text_append hx (List.length_eq_zero_iff.1 (by decide +kernel))
  obtain ⟨s, s', d₂, hopen, hload, happend, hd₂⟩ :=
    exists_append_ofTexts hread (by decide) (by decide) (.user "hi" noon) noon
  have honly (name : String) (y : Session) (hy : d.Holds name y) (_ : y.key = x.key) :
      name = fileName x.key := eq_of_holds_ofTexts hy
  obtain ⟨content, hcontent, -, hadded, -⟩ :=
    added_of_append hopen hload honly nofun happend hd₂
  refine ⟨s, s', d₂, hopen, ?_, honly, happend, hd₂, ?_⟩
  · rw [transcript, hload]
    rfl
  · rintro ⟨s'', d₃, hopen₂, htranscript⟩
    obtain ⟨y, hy, -, hturns⟩ := hadded.exists_read? hopen₂ htranscript
    have htorn : ¬ ∀ c ∈ Text.unended content.toList, isSpace c := by
      have hbefore := hadded.before
      rw [text?_ofTexts, Option.some_inj] at hbefore
      rw [← hbefore, String.toList_append, Text.unended_append (closed_text hx) (by decide)]
      intro hspaces
      have hbrace := hspaces '\x7b' List.mem_cons_self
      cases hbrace
    have hstorable : (x.extend (.user "hi" noon) noon).1.content.Storable := trivial
    have hle := length_le_of_torn hcontent htorn hstorable hy
    rw [hturns] at hle
    exact Nat.not_succ_le_zero _ hle

end Store

end Parley
