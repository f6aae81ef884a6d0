import Parley.Turn

/-!
# Sessions

A session is a transcript under a key.  It belongs to an identity, may have a title, and knows
when it was created and last written to.

A session without a title is shown under the first thing the user said in it, or else under the
time of its creation.
-/

namespace Parley

/-- A session. -/
structure Session where
  key : SessionKey
  identity : Identity
  title : Option String
  createdAt : Timestamp
  updatedAt : Timestamp
  transcript : List Turn

/-- What a listing says about a session. -/
structure Summary where
  key : SessionKey
  title : String
  createdAt : Timestamp
  updatedAt : Timestamp
  turns : Nat
  /-- Whether the session is switched in for its identity. -/
  active : Bool
  deriving DecidableEq

/-- What a session is to be created with. -/
structure NewSession where
  /-- A whole key or a bare name; one is generated when there is none. -/
  key : Option String := none
  title : Option String := none
  /-- A text to take the title from, when no title is given. -/
  seed : Option String := none
  /-- Take the session that is there when the key is in use. -/
  allowExisting : Bool := false

/-- The first line with something in it, in sixty characters at most. -/
def titleOfText? (text : String) : Option String := do
  let line ← (text.textLines.map String.trimBlank).find? (!·.isEmpty)
  if line.length ≤ 60 then some line
  else some ((line.takeChars 57).trimBlankRight ++ "...")

/-- The title that a new session is given, if it is given one. -/
def NewSession.titleOf? (n : NewSession) : Option String :=
  ((n.title.map String.trimBlank).bind String.nonempty?).or (n.seed.bind titleOfText?)

namespace Session

/-- A session without turns. -/
def new (key : SessionKey) (identity : Identity) (title : Option String) (now : Timestamp) :
    Session :=
  ⟨key, identity, title, now, now, []⟩

/-- The first thing that the user said and that makes a title. -/
def spokenTitle? (transcript : List Turn) : Option String :=
  (transcript.filter (·.role = .user)).findSome? fun t => t.text?.bind titleOfText?

/-- The title that the session is shown under. -/
def displayTitle (s : Session) : String :=
  match s.title with
  | some title => title
  | none => (spokenTitle? s.transcript).getD ("Session " ++ s.createdAt.minuteText)

/-- What a listing says about the session. -/
def summary (s : Session) (active : Bool) : Summary :=
  ⟨s.key, s.displayTitle, s.createdAt, s.updatedAt, s.transcript.length, active⟩

end Session

namespace Summary

/-- A line of a listing. -/
def line (number : Nat) (s : Summary) : String :=
  toString number ++ ". " ++ (if s.active then "*" else " ") ++ " " ++ s.key.text ++ " | " ++
    s.title ++ " | updated " ++ s.updatedAt.secondText

/-- The first `most` sessions of a listing, numbered. -/
def listing (sessions : List Summary) (most : Nat) : String :=
  "Sessions:\n" ++
    "\n".intercalate ((sessions.take most).zipIdx.map fun (s, place) => s.line (place + 1))

open Json in
/-- A summary as JSON. -/
def toJson (s : Summary) : Json :=
  obj [("key", str s.key.text), ("title", str s.title), ("created_at", s.createdAt.toJson),
    ("updated_at", s.updatedAt.toJson), ("turns", ofNat s.turns), ("active", bool s.active)]

open Json in
/-- A reader of summaries. -/
def decoder : Decoder Summary := fun a t => do
  let r ← record? ["key", "title", "created_at", "updated_at", "turns", "active"] a t
  some ⟨⟨← r.required "key" Decoder.text⟩, ← r.required "title" Decoder.text,
    ← r.required "created_at" Timestamp.decoder, ← r.required "updated_at" Timestamp.decoder,
    ← r.required "turns" Decoder.word64, ← r.required "active" Decoder.bool⟩

end Summary

end Parley
