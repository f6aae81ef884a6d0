import Parley.Session.Basic
import Parley.Table

/-!
# Session files

A session is kept in a file of its own.  The first line is a JSON object that describes the
session, each further line is a turn; so a turn is recorded by adding a line, and only a change of
the description takes a new file.

1. **Names.**  `fileName` spells a key so that distinct keys have distinct files: a colon becomes
   an underscore, letters and digits, hyphens and points stand for themselves, and every other
   character is written byte by byte in hexadecimal after a percent sign.
2. **Reading.**  Empty lines are passed over, and lines that are no turn are dropped, since a
   write may have been torn.  The description must be whole.  The last turn may be newer than the
   description, so the later of the two times counts.
3. **Overrides.**  One more file, `_active.json`, says which session each identity has switched
   in.
-/

namespace Parley

namespace SessionFile

/-! ## Names -/

/-- An upper-case hexadecimal digit. -/
def hexDigit (n : Nat) : Char :=
  if n < 10 then Char.ofNat (48 + n) else Char.ofNat (55 + n)

/-- A byte after a percent sign. -/
def escapeByte (b : UInt8) : List Char :=
  ['%', hexDigit (b.toNat / 16), hexDigit (b.toNat % 16)]

/-- Whether a character stands for itself in a file name. -/
def isPlain (c : Char) : Bool :=
  ('a' ≤ c && c ≤ 'z') || ('A' ≤ c && c ≤ 'Z') || ('0' ≤ c && c ≤ '9') || c = '-' || c = '.'

/-- A character of a key as it stands in a file name. -/
def spell (c : Char) : List Char :=
  if c = ':' then ['_']
  else if isPlain c then [c]
  else (String.utf8EncodeChar c).flatMap escapeByte

/-- The extension of session files. -/
def suffix : List Char := ['.', 'j', 's', 'o', 'n', 'l']

/-- The name of the file of a key. -/
def fileName (key : SessionKey) : String :=
  String.ofList (key.text.toList.flatMap spell ++ suffix)

/-- The name up to its last point, and what follows that; a name that starts with its last point
has no extension. -/
def splitExtension (name : String) : String × Option String :=
  let (tail, head) := name.toList.reverse.span (· ≠ '.')
  match head with
  | '.' :: c :: stem => (String.ofList (c :: stem).reverse, some (String.ofList tail.reverse))
  | _ => (name, none)

/-- Whether a name is that of a session file. -/
def isSessionFile (name : String) : Bool := (splitExtension name).2 = some "jsonl"

/-- The name under which the next content of a file is prepared. -/
def draftName (name : String) : String := (splitExtension name).1 ++ ".tmp"

/-- The file of the overrides. -/
def overridesName : String := "_active.json"

/-! ## Writing -/

open Json in
/-- The description of a session. -/
def description (s : Session) : Json :=
  obj
    ([("_type", str "metadata"), ("key", str s.key.text), ("channel", str s.identity.channel),
        ("chat_id", str s.identity.chat)] ++
      (s.title.toList.map fun title => ("title", str title)) ++
      [("created_at", s.createdAt.toJson), ("updated_at", s.updatedAt.toJson)])

/-- A value as a line. -/
def line (j : Json) : String := j.compact ++ "\n"

/-- The content of the file of a session. -/
def text (s : Session) : String :=
  s.transcript.foldl (fun done t => done ++ line t.toJson) (line (description s))

/-- The overrides in the order of the identities' names. -/
def overridesJson (overrides : Table Identity SessionKey) : Json :=
  Json.object (overrides.entries.map fun (identity, key) => (identity.name, .str key.text))

/-- The content of the file of the overrides. -/
def overridesText (overrides : Table Identity SessionKey) : String :=
  (overridesJson overrides).pretty

/-! ## Reading -/

/-- A description that was read: the kind it names, and a session without turns. -/
structure Described where
  kind : String
  session : Session

open Json in
/-- A reader of descriptions. -/
def descriptionDecoder : Decoder Described := fun a t => do
  let r ← record? ["_type", "key", "channel", "chat_id", "title", "created_at", "updated_at"] a t
  let kind ← r.required "_type" Decoder.text
  some ⟨kind, ⟨← r.required "key" Decoder.text⟩,
    ⟨← r.required "channel" Decoder.text, ← r.required "chat_id" Decoder.text⟩,
    ← r.orElse "title" none (Decoder.orNull Decoder.text),
    ← r.required "created_at" Timestamp.decoder, ← r.required "updated_at" Timestamp.decoder, []⟩

/-- The turns among some lines. -/
def turns (lines : List String) : List Turn :=
  lines.filterMap Turn.decoder.readText

/-- A described session with its turns. -/
def assemble (s : Session) (transcript : List Turn) : Session :=
  { s with
    transcript
    updatedAt := (transcript.getLast?.map fun t => t.timestamp.max s.updatedAt).getD s.updatedAt }

/-- The session that a content describes. -/
def read? (content : String) : Option Session := do
  let first :: rest := content.textLines.filter (!·.isAllBlank) | none
  let d ← descriptionDecoder.readText first
  if d.kind = "metadata" then some (assemble d.session (turns rest)) else none

/-- The overrides that a content lists.  Of a content that is no list nothing is taken, and
entries under a name that is no identity's are passed over. -/
def readOverrides (content : String) : Table Identity SessionKey :=
  match (Json.Decoder.table Json.Decoder.text).readText content with
  | none => .empty
  | some entries =>
    entries.foldl (fun t (name, key) =>
      match Identity.ofText? name with
      | some identity => t.set identity ⟨key⟩
      | none => t) .empty

end SessionFile

end Parley
