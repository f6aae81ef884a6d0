import Parley.Proofs.Session.Durable
import Parley.Proofs.Text.Utf8

/-!
# Files that were cut off

A crash may leave the beginning of a session's file only, cut at any byte.  What is read of it
depends on whether the cut fell between two characters.

1. **Between characters**, the session is there with exactly the turns whose text is complete
   (`read?_of_cut`).  The lines before the cut are whole; of the last one there is a beginning,
   which is a turn if only its line feed is missing and is passed over otherwise, since no proper
   beginning of a written object is a value.
2. **Inside a character**, the file is no text, and of the session nothing is loaded, however much
   of the file is left.

So a directory in which the file was cut off opens with the session exactly in the first case
(`Store.openAt_of_cut`), as long as the key is not empty: the file of the empty key has no
extension and is never read.
-/

namespace Parley

open Json SessionFile Directory

namespace Text

theorem length_utf8_toList (s : String) : (utf8 s.toList).length = s.utf8ByteSize := by
  rw [← data_toUTF8, String.toUTF8_eq_toByteArray, ← String.size_toByteArray]
  rfl

theorem utf8_ne_nil {text : List Char} (h : text ≠ []) : utf8 text ≠ [] := by
  intro hnil
  refine h (utf8_injective ?_)
  rw [hnil, utf8_nil]

/-- Bytes of a text that are a text themselves are a beginning of it. -/
theorem exists_append_of_utf8 {text front : List Char} {rest : List UInt8}
    (h : utf8 front ++ rest = utf8 text) : ∃ back, front ++ back = text := by
  refine ⟨Lossy.decodeFrom none rest, ?_⟩
  rw [← Lossy.decodeFrom_utf8_append, h]
  exact Lossy.decode_utf8 text

end Text

namespace SessionFile

/-! ## Turns and where they end -/

/-- The turns of a transcript, each with the byte at which its text ends, if the first line begins
at the byte `start`. -/
def ends (start : Nat) : List Turn → List (Turn × Nat)
  | [] => []
  | t :: rest =>
    let stop := start + t.toJson.compact.utf8ByteSize
    (t, stop) :: ends (stop + 1) rest

/-- The turns of a session whose text is complete within the first `n` bytes of the session's
file. -/
def wholeTurns (x : Session) (n : Nat) : List Turn :=
  ((ends (line (description x)).utf8ByteSize x.transcript).filter (·.2 ≤ n)).map (·.1)

theorem filter_ends_of_lt {start n : Nat} (h : n < start) (transcript : List Turn) :
    (ends start transcript).filter (·.2 ≤ n) = [] := by
  induction transcript generalizing start with
  | nil => rfl
  | cons t rest ih =>
    have hstop : ¬ start + t.toJson.compact.utf8ByteSize ≤ n := by omega
    rw [ends, List.filter_cons_of_neg (by simpa using hstop), ih (by omega)]

/-- The turns that are complete are the first ones. -/
theorem wholeTurns_prefix_transcript (x : Session) (n : Nat) : wholeTurns x n <+: x.transcript := by
  have hfirst (start : Nat) (transcript : List Turn) :
      ((ends start transcript).filter (·.2 ≤ n)).map (·.1) <+: transcript := by
    induction transcript generalizing start with
    | nil => exact List.prefix_rfl
    | cons t rest ih =>
      dsimp only [ends]
      by_cases hstop : start + t.toJson.compact.utf8ByteSize ≤ n
      · rw [List.filter_cons_of_pos (by simpa using hstop), List.map_cons]
        exact (List.prefix_cons_inj t).2 (ih _)
      · rw [List.filter_cons_of_neg (by simpa using hstop), filter_ends_of_lt (by omega)]
        exact List.nil_prefix
  exact hfirst _ _

theorem toList_text (x : Session) :
    (text x).toList =
      (description x).render ++ '\n' :: x.transcript.flatMap fun t => (line t.toJson).toList := by
  have hfold (transcript : List Turn) (done : String) :
      (transcript.foldl (fun done t => done ++ line t.toJson) done).toList =
        done.toList ++ transcript.flatMap fun t => (line t.toJson).toList := by
    induction transcript generalizing done with
    | nil => rw [List.foldl_nil, List.flatMap_nil, List.append_nil]
    | cons t rest ih =>
      rw [List.foldl_cons, ih, String.toList_append, List.flatMap_cons, List.append_assoc]
  rw [text, hfold, toList_line, List.append_assoc, List.singleton_append]

theorem length_utf8_render (j : Json) : (Text.utf8 j.render).length = j.compact.utf8ByteSize := by
  rw [← Text.length_utf8_toList, compact, String.toList_ofList]

/-- A line feed is one byte. -/
theorem length_utf8_feed (body more : List Char) :
    (Text.utf8 (body ++ '\n' :: more)).length =
      (Text.utf8 body).length + 1 + (Text.utf8 more).length := by
  have hfeed : (String.utf8EncodeChar '\n').length = 1 := rfl
  rw [Text.utf8_append, Text.utf8_cons, List.length_append, List.length_append, hfeed,
    Nat.add_assoc]

/-! ## The lines before a cut -/

variable {front back rest body : List Char}

/-- A cut is inside the first line, at its end, or after it. -/
theorem cut_cases (h : front ++ back = body ++ '\n' :: rest) :
    (∃ missing, missing ≠ [] ∧ front ++ missing = body) ∨ front = body ∨
      ∃ more, front = body ++ '\n' :: more ∧ more ++ back = rest := by
  rcases List.append_eq_append_iff.1 h with ⟨missing, hbody, -⟩ | ⟨more, hfront, hmore⟩
  · cases missing with
    | nil => exact .inr (.inl (by rw [hbody, List.append_nil]))
    | cons c missing => exact .inl ⟨_, List.cons_ne_nil c missing, hbody.symm⟩
  · cases more with
    | nil => exact .inr (.inl (by rw [hfront, List.append_nil]))
    | cons c more =>
      obtain ⟨rfl, hrest⟩ := List.cons.inj hmore
      exact .inr (.inr ⟨more, hfront, hrest.symm⟩)

theorem written_line {fields : List (String × Json)} (h : (obj fields).Exact) (more : List Char) :
    written (String.ofList (render (.obj fields) ++ '\n' :: more)) =
      (obj fields).compact :: written (String.ofList more) := by
  have hcontent : String.ofList (render (.obj fields) ++ '\n' :: more) =
      line (obj fields) ++ String.ofList more := by
    apply String.toList_injective
    rw [String.toList_append, toList_line, String.toList_ofList, String.toList_ofList,
      List.append_assoc, List.singleton_append]
  rw [hcontent, written_line_append h]

/-- A line that lacks its line feed. -/
theorem written_compact {fields : List (String × Json)} (h : (obj fields).Exact) :
    written (obj fields).compact = [(obj fields).compact] := by
  have hwritten := written_of_no_feed (feed_not_mem_render h)
  have hblank := isAllBlank_compact_obj fields
  rw [String.isAllBlank, compact, String.toList_ofList] at hblank
  rw [hblank, if_neg Bool.false_ne_true] at hwritten
  exact hwritten

/-- A line that lacks more than its line feed is no turn. -/
theorem turns_of_torn {fields : List (String × Json)} (h : (obj fields).Exact)
    {missing : List Char} (hmissing : missing ≠ [])
    (hfront : front ++ missing = render (.obj fields)) :
    turns (written (String.ofList front)) = [] := by
  have hfeed : '\n' ∉ front := fun hmem =>
    feed_not_mem_render h (hfront ▸ List.mem_append_left missing hmem)
  have hnone : Turn.decoder.readText (String.ofList front) = none := by
    rw [Decoder.readText, read?_eq_none_of_append h hfront hmissing]
    rfl
  rw [written_of_no_feed hfeed, turns]
  split
  · rfl
  · exact List.filterMap_cons_none hnone

/-- **The turns before a cut** are those whose text is complete. -/
theorem turns_of_cut {transcript : List Turn} (h : ∀ t ∈ transcript, t.Storable)
    (hcut : front ++ back = transcript.flatMap fun t => (line t.toJson).toList) (start : Nat) :
    turns (written (String.ofList front)) =
      ((ends start transcript).filter (·.2 ≤ start + (Text.utf8 front).length)).map (·.1) := by
  induction transcript generalizing front start with
  | nil =>
    rw [List.flatMap_nil, List.append_eq_nil_iff] at hcut
    rw [hcut.1]
    rfl
  | cons t rest ih =>
    obtain ⟨ht, hrest⟩ := List.forall_mem_cons.1 h
    have hexact : t.toJson.Exact := Turn.exact_toJson ht.content
    have hread := readText_turn ht
    have hsize := length_utf8_render t.toJson
    rw [List.flatMap_cons, toList_line, List.append_assoc, List.singleton_append] at hcut
    dsimp only [ends]
    rcases cut_cases hcut with ⟨missing, hmissing, hbody⟩ | rfl | ⟨more, rfl, hmore⟩
    · -- inside the line: neither this turn nor a later one is complete
      have hpos := List.length_pos_of_ne_nil (Text.utf8_ne_nil hmissing)
      rw [← hbody, Text.utf8_append, List.length_append] at hsize
      have hstop : ¬ start + t.toJson.compact.utf8ByteSize ≤ start + (Text.utf8 front).length := by
        omega
      rw [turns_of_torn hexact hmissing hbody, List.filter_cons_of_neg (by simpa using hstop),
        filter_ends_of_lt (by omega)]
      rfl
    · -- at the end of the line: this turn is the last one
      have hwritten : written (String.ofList t.toJson.render) = [t.toJson.compact] :=
        written_compact hexact
      rw [hwritten, turns, List.filterMap_cons_some hread, hsize, List.filter_cons_of_pos (by simp),
        filter_ends_of_lt (by omega)]
      rfl
    · -- after the line: this turn, and those that are complete in the rest
      have hwritten : written (String.ofList (t.toJson.render ++ '\n' :: more)) =
          t.toJson.compact :: written (String.ofList more) := written_line hexact more
      have hrest := ih hrest hmore (start + t.toJson.compact.utf8ByteSize + 1)
      have hlength : start + (Text.utf8 (t.toJson.render ++ '\n' :: more)).length =
          start + t.toJson.compact.utf8ByteSize + 1 + (Text.utf8 more).length := by
        rw [length_utf8_feed, hsize]
        omega
      have hstop : start + t.toJson.compact.utf8ByteSize ≤
          start + t.toJson.compact.utf8ByteSize + 1 + (Text.utf8 more).length := by
        omega
      rw [turns] at hrest ⊢
      rw [hwritten, List.filterMap_cons_some hread, hrest, hlength,
        List.filter_cons_of_pos (by simpa using hstop), List.map_cons]

/-- **What is read of a file that was cut off between two characters**: the session, with the turns
whose text is complete. -/
theorem read?_of_cut {x : Session} (hx : x.Storable) (hcut : front ++ back = (text x).toList)
    (hlong : (description x).compact.utf8ByteSize ≤ (Text.utf8 front).length) :
    read? (String.ofList front) = some (assemble x (wholeTurns x (Text.utf8 front).length)) := by
  have hexact := exact_description x
  have hsize := length_utf8_render (description x)
  have hstart : (line (description x)).utf8ByteSize =
      (description x).compact.utf8ByteSize + 1 := String.utf8ByteSize_append
  have hlines (lines : List String) :
      readLines? ((description x).compact :: lines) = some (assemble x (turns lines)) := by
    rw [readLines?, readText_description hx.createdAt hx.updatedAt]
    rfl
  rw [toList_text] at hcut
  rw [read?_eq_readLines?, wholeTurns, hstart]
  rcases cut_cases hcut with ⟨missing, hmissing, hbody⟩ | rfl | ⟨more, rfl, hmore⟩
  · have hpos := List.length_pos_of_ne_nil (Text.utf8_ne_nil hmissing)
    rw [← hbody, Text.utf8_append, List.length_append] at hsize
    omega
  · have hwritten : written (String.ofList (description x).render) = [(description x).compact] :=
      written_compact hexact
    rw [hwritten, hlines, hsize, filter_ends_of_lt (by omega)]
    rfl
  · have hwritten : written (String.ofList ((description x).render ++ '\n' :: more)) =
        (description x).compact :: written (String.ofList more) := written_line hexact more
    rw [hwritten, hlines, turns_of_cut hx.transcript hmore, length_utf8_feed, hsize]

end SessionFile

/-! ## Directories -/

/-- A directory in which the file of a session was written, and turns were then added to it one by
one; the session is as its file says. -/
inductive Recorded : Session → Directory → Prop
  | written {d d' : Directory} {x : Session} (h : d.writeSession x = (.ok (), d')) : Recorded x d'
  | added {d d' : Directory} {x y : Session} {t : Turn} (h : Recorded x d) (hkey : y.key = x.key)
      (hhonest : d.refusal (.append (fileName x.key)) ≠ some .notFound)
      (hturn : d.recordTurn y t = (.ok (), d')) :
      Recorded { x with transcript := x.transcript ++ [t] } d'

variable {x y : Session} {d e : Directory} {bytes : ByteArray} {n : Nat}

/-- The file has what is written of the session. -/
theorem Recorded.get? (h : Recorded x d) (hkey : x.key.text ≠ "") :
    d.entries.get? (fileName x.key) = some (.file (text x).toUTF8) := by
  induction h with
  | written h => exact (replace_ok (counts_fileName hkey) h).2
  | added _ hsame hhonest hturn ih =>
    rw [← hsame] at hhonest ih
    rw [text_extend, toUTF8_append, ← hsame]
    exact (recordTurn_of_get? hhonest (ih (hsame ▸ hkey)) hturn).2

namespace Directory

/-- A file that is a text has its bytes. -/
theorem text?_eq_some_iff {name content : String} (h : d.entries.get? name = some (.file bytes)) :
    d.text? name = some content ↔ bytes.data.toList = Text.utf8 content.toList := by
  rw [text?, h]
  constructor
  · intro hcontent
    rw [eq_toUTF8_of_fromUTF8? hcontent, Text.data_toUTF8]
  · intro hutf8
    have hbytes : bytes = content.toUTF8 := by
      rw [ByteArray.ext_iff, ← Array.toList_inj, Text.data_toUTF8, hutf8]
    rw [hbytes]
    exact fromUTF8?_toUTF8 content

theorem isSessionFile_fileName_iff {key : SessionKey} :
    isSessionFile (fileName key) ↔ key.text ≠ "" := by
  refine ⟨?_, isSessionFile_fileName⟩
  rintro hfile hempty
  rw [fileName, hempty] at hfile
  revert hfile
  decide

theorem toList_extract (content : String) (n : Nat) :
    (content.toUTF8.extract 0 n).data.toList = (Text.utf8 content.toList).take n := by
  rw [ByteArray.data_extract, Array.toList_extract, Text.data_toUTF8, List.extract_eq_take_drop]
  rfl

/-- A text that is cut off between two characters is a text. -/
theorem isText_extract (content : String) (count : Nat) :
    Text.IsText
      (content.toUTF8.extract 0 (Text.utf8 (content.toList.take count)).length).data.toList := by
  have hsplit : Text.utf8 content.toList =
      Text.utf8 (content.toList.take count) ++ Text.utf8 (content.toList.drop count) := by
    rw [← Text.utf8_append, List.take_append_drop]
  refine ⟨content.toList.take count, ?_⟩
  rw [toList_extract, hsplit, List.take_left]

/-- **What a file that was cut off holds.**  It is a text if the cut fell between characters, and
then it describes the session with the turns that are complete. -/
theorem holds_of_cut (hrecorded : Recorded x d) (hx : x.Storable)
    (hbytes : d.entries.get? (fileName x.key) = some (.file bytes))
    (hlong : (description x).compact.utf8ByteSize ≤ n) (hn : n ≤ bytes.size)
    (hcut : e.entries.get? (fileName x.key) = some (.file (bytes.extract 0 n))) :
    e.Holds (fileName x.key) y ↔ x.key.text ≠ "" ∧
      Text.IsText (bytes.extract 0 n).data.toList ∧ y = assemble x (wholeTurns x n) := by
  rw [Holds, isSessionFile_fileName_iff]
  refine and_congr_right fun hkey => ?_
  rw [hrecorded.get? hkey] at hbytes
  cases hbytes
  have hread {content : String} (hcontent : e.text? (fileName x.key) = some content) :
      SessionFile.read? content = some (assemble x (wholeTurns x n)) := by
    have hutf8 := (text?_eq_some_iff hcut).1 hcontent
    rw [toList_extract] at hutf8
    have hwhole : Text.utf8 content.toList ++ (Text.utf8 (text x).toList).drop n =
        Text.utf8 (text x).toList := by
      rw [← hutf8, List.take_append_drop]
    obtain ⟨back, hback⟩ := Text.exists_append_of_utf8 hwhole
    have hlength : (Text.utf8 content.toList).length = n := by
      rw [← hutf8, List.length_take, Text.length_utf8_toList]
      exact Nat.min_eq_left hn
    have hcontent := read?_of_cut hx hback (hlength ▸ hlong)
    rwa [hlength, String.ofList_toList] at hcontent
  constructor
  · intro hy
    obtain ⟨content, hcontent, hy⟩ := Option.bind_eq_some_iff.1 hy
    rw [hread hcontent] at hy
    exact ⟨⟨_, (text?_eq_some_iff hcut).1 hcontent⟩, (Option.some.inj hy).symm⟩
  · rintro ⟨⟨cs, hcs⟩, rfl⟩
    rw [← String.toList_ofList (l := cs)] at hcs
    have hcontent := (text?_eq_some_iff hcut).2 hcs
    rw [hcontent]
    exact hread hcontent

/-- A session whose file was cut off is loaded just when the cut fell between characters. -/
theorem loadSessions_of_cut (hrecorded : Recorded x d) (hx : x.Storable)
    (hbytes : d.entries.get? (fileName x.key) = some (.file bytes))
    (hlong : (description x).compact.utf8ByteSize ≤ n) (hn : n ≤ bytes.size)
    (hcut : e.entries.get? (fileName x.key) = some (.file (bytes.extract 0 n)))
    (honly : ∀ name y, e.Holds name y → y.key = x.key → name = fileName x.key) :
    (Store.loadSessions e).get? x.key = some y ↔ x.key.text ≠ "" ∧
      Text.IsText (bytes.extract 0 n).data.toList ∧ y = assemble x (wholeTurns x n) := by
  have hholds {y : Session} := holds_of_cut (y := y) hrecorded hx hbytes hlong hn hcut
  constructor
  · intro hy
    obtain ⟨hkey, name, hname⟩ := exists_holds hy
    cases honly name y hname hkey
    exact hholds.1 hname
  · intro hy
    have hkey : y.key = x.key := by rw [hy.2.2]; rfl
    rw [← hkey]
    refine loadSessions_get? ⟨_, hholds.2 hy⟩ fun name z hz hzkey => ?_
    cases honly name z hz (hzkey.trans hkey)
    exact (hholds.1 hz).2.2.trans hy.2.2.symm

end Directory

/-- **When a session whose file was cut off is loaded.**  Let the file of a session be written and
turns be added to it, and let a crash leave its first `n` bytes, the description at least.  If no
other file describes the session, and overrides can be written, the directory opens, and the
session is loaded exactly if its key is not empty and the cut fell between characters.  Then it has
exactly the turns whose text is complete. -/
theorem Store.openAt_of_cut (hrecorded : Recorded x d) (hx : x.Storable)
    (hbytes : d.entries.get? (fileName x.key) = some (.file bytes))
    (hlong : (description x).compact.utf8ByteSize ≤ n) (hn : n ≤ bytes.size)
    (hcut : e.entries.get? (fileName x.key) = some (.file (bytes.extract 0 n)))
    (honly : ∀ name y, e.Holds name y → y.key = x.key → name = fileName x.key)
    (hwrite : ∀ overrides, ∃ e', e.writeOverrides overrides = (.ok (), e')) :
    ∃ s e', openAt e = (.ok s, e') ∧ ∀ y, s.sessions.get? x.key = some y ↔ x.key.text ≠ "" ∧
      Text.IsText (bytes.extract 0 n).data.toList ∧ y = assemble x (wholeTurns x n) := by
  obtain ⟨s, e', hopen⟩ := exists_openAt (hwrite _)
  refine ⟨s, e', hopen, fun y => ?_⟩
  rw [(openAt_ok hopen).1]
  exact loadSessions_of_cut hrecorded hx hbytes hlong hn hcut honly

/-! ## A session of two turns -/

/-- A session of two turns, the first of which has a character of two bytes. -/
def greeted : Session :=
  { Session.new ⟨"cli:local"⟩ ⟨"cli", "local"⟩ none ⟨1709294400, 0⟩ with
    transcript := [.user "é" ⟨1709294400, 0⟩, .user "hi" ⟨1709294400, 0⟩] }

/-- The directory in which a crash left the first `n` bytes of the session's file. -/
def greeted.cut (n : Nat) : Directory :=
  ({} : Directory).put (fileName greeted.key) ((text greeted).toUTF8.extract 0 n)

theorem greeted.storable : greeted.Storable := by
  have hnow : greeted.createdAt.Valid := ⟨by decide, by decide⟩
  refine ⟨hnow, hnow, ?_⟩
  simp only [greeted, List.forall_mem_cons]
  exact ⟨⟨trivial, hnow⟩, ⟨trivial, hnow⟩, nofun⟩

theorem greeted.exists_recorded : ∃ d, Recorded greeted d := by
  have hfit (name : String) (hzero : name.toList.contains '\x00' = false)
      (hshort : tooLong name = false) (d : Directory) :
      d.find? name = .ok (d.entries.get? name) := find?_of_fit d hzero hshort
  have hplain (other : String) : ({} : Directory).entries.get? other ≠ some .directory := by
    rw [Table.get?_empty]
    exact nofun
  have hname : Counts (fileName greeted.key) := counts_fileName (by decide)
  obtain ⟨d, hd⟩ := exists_replace (hfit _ (by decide) (by decide))
    (hfit _ (by decide) (by decide)) hname hplain rfl rfl (text greeted)
  exact ⟨d, .written hd⟩

theorem greeted.get?_cut (n : Nat) : (greeted.cut n).entries.get? (fileName greeted.key) =
    some (.file ((text greeted).toUTF8.extract 0 n)) := by
  rw [cut, get?_put_empty, if_pos rfl]

theorem greeted.exists_writeOverrides (n : Nat) (overrides : Table Identity SessionKey) :
    ∃ e, (greeted.cut n).writeOverrides overrides = (.ok (), e) := by
  refine exists_replace (fun d => find?_of_fit d (by decide) (by decide))
    (fun d => find?_of_fit d (by decide) (by decide)) counts_overridesName (fun other => ?_)
    rfl rfl _
  rw [cut, get?_put_empty]
  split <;> exact nofun

theorem greeted.toList_content : (text greeted).toList = (description greeted).render ++
    '\n' :: greeted.transcript.flatMap fun t => t.toJson.render ++ ['\n'] := by
  rw [toList_text]
  simp only [toList_line]

theorem greeted.size_content : (text greeted).toUTF8.size = 323 := by
  have hlength : (Text.utf8 (text greeted).toList).length = 323 := by
    rw [toList_content]
    decide +kernel
  exact (Text.length_utf8_toList _).symm.trans hlength

/-- **Cut off inside its second turn**, the session is loaded with the first. -/
theorem greeted.loaded_of_cut :
    ∃ d bytes s e, Recorded greeted d ∧
      d.entries.get? (fileName greeted.key) = some (.file bytes) ∧
      (greeted.cut 300).entries.get? (fileName greeted.key) = some (.file (bytes.extract 0 300)) ∧
      Store.openAt (greeted.cut 300) = (.ok s, e) ∧
      s.sessions.get? greeted.key = some (assemble greeted (greeted.transcript.take 1)) := by
  obtain ⟨d, hd⟩ := exists_recorded
  have hbytes := hd.get? (by decide)
  obtain ⟨s, e, hopen, hloaded⟩ := Store.openAt_of_cut hd storable hbytes (by decide +kernel)
    (size_content ▸ by decide) (get?_cut 300) (fun name y hy _ => eq_of_holds_put hy)
    (exists_writeOverrides 300)
  have hwhole : wholeTurns greeted 300 = greeted.transcript.take 1 := by
    have hlength : (wholeTurns greeted 300).length = 1 := by decide +kernel
    rw [List.prefix_iff_eq_take.1 (wholeTurns_prefix_transcript greeted 300), hlength]
  have hlength : (Text.utf8 ((text greeted).toList.take 299)).length = 300 := by
    rw [toList_content]
    decide +kernel
  have htext : Text.IsText ((text greeted).toUTF8.extract 0 300).data.toList :=
    hlength ▸ isText_extract (text greeted) 299
  exact ⟨d, _, s, e, hd, hbytes, get?_cut 300, hopen,
    (hloaded _).2 ⟨by decide, htext, by rw [hwhole]⟩⟩

/-- **Cut off inside a character of its first turn**, the session is lost. -/
theorem greeted.lost_inside_character :
    ∃ d bytes s e, Recorded greeted d ∧
      d.entries.get? (fileName greeted.key) = some (.file bytes) ∧
      (line (description greeted)).utf8ByteSize ≤ 194 ∧ 194 ≤ bytes.size ∧
      (greeted.cut 194).entries.get? (fileName greeted.key) = some (.file (bytes.extract 0 194)) ∧
      Store.openAt (greeted.cut 194) = (.ok s, e) ∧
      s.sessions.get? greeted.key ≠ some (assemble greeted (wholeTurns greeted 194)) := by
  obtain ⟨d, hd⟩ := exists_recorded
  have hbytes := hd.get? (by decide)
  obtain ⟨s, e, hopen⟩ := Store.exists_openAt (exists_writeOverrides 194 _)
  have hlong : (description greeted).compact.utf8ByteSize ≤ 194 := by decide +kernel
  have hline : (line (description greeted)).utf8ByteSize ≤ 194 := by decide +kernel
  have hn : 194 ≤ (text greeted).toUTF8.size := size_content ▸ by decide
  refine ⟨d, _, s, e, hd, hbytes, hline, hn, get?_cut 194, hopen, ?_⟩
  rw [(Store.openAt_ok hopen).1]
  intro hloaded
  obtain ⟨-, ⟨cs, hcs⟩, -⟩ := (loadSessions_of_cut hd storable hbytes hlong hn (get?_cut 194)
    fun name y hy _ => eq_of_holds_put hy).1 hloaded
  have hbroken : Text.utf8 (Text.Lossy.decode ((text greeted).toUTF8.extract 0 194).data.toList) ≠
      ((text greeted).toUTF8.extract 0 194).data.toList := by
    rw [toList_extract, toList_content]
    decide +kernel
  rw [hcs, Text.Lossy.decode_utf8] at hbroken
  exact hbroken rfl

end Parley
