import Parley.Decimal.Literal

/-!
# The tokens of a JSON text

A text is cut into tokens by a machine that takes one character at a time: between tokens, inside
a string, inside a number, or inside a word.  It never looks ahead, so what it does with
`xs ++ ys` is what it does with `ys` from where `xs` left it.

Numbers and words are taken as long as their characters last and checked when they end.  That
accepts exactly the JSON texts: in a JSON text a comma, a colon, a bracket or white space follows
every number and every word.

A string that escapes half of a surrogate pair has no text, and so is `string none`.  It is a
token nevertheless, because a value nobody asks for may hold one.
-/

namespace Parley.Json

/-- A token of a JSON text. -/
inductive Token where
  | openObject
  | closeObject
  | openArray
  | closeArray
  | colon
  | comma
  | null
  | bool (b : Bool)
  | number (l : Decimal.Literal)
  | string (text : Option String)
  deriving DecidableEq, Repr

/-- The characters of a string read so far, latest first, and whether they are a text: `false`
after half of a surrogate pair. -/
structure StringDraft where
  chars : List Char
  isText : Bool

namespace StringDraft

/-- The draft of an empty string. -/
def empty : StringDraft := ⟨[], true⟩

/-- One more character. -/
def push (d : StringDraft) (c : Char) : StringDraft := { d with chars := c :: d.chars }

/-- Something that is no character. -/
def spoil (d : StringDraft) : StringDraft := { d with isText := false }

/-- The text, if the draft is one. -/
def text (d : StringDraft) : Option String :=
  if d.isText then some (String.ofList d.chars.reverse) else none

end StringDraft

/-- Where the machine stands. -/
inductive Scan where
  /-- Between tokens. -/
  | between
  /-- Inside a string; `high` is the first half of a surrogate pair just read. -/
  | inString (draft : StringDraft) (high : Option Nat)
  /-- After a backslash in a string. -/
  | inEscape (draft : StringDraft) (high : Option Nat)
  /-- Inside the digits of an escaped code: their value so far, and how many are to come. -/
  | inCode (draft : StringDraft) (high : Option Nat) (value left : Nat)
  /-- Inside a number, its characters latest first. -/
  | inNumber (chars : List Char)
  /-- Inside a word, its characters latest first. -/
  | inWord (chars : List Char)

/-- The characters that numbers are made of. -/
def isNumberChar (c : Char) : Bool :=
  ('0' ≤ c && c ≤ '9') || c == '-' || c == '+' || c == '.' || c == 'e' || c == 'E'

/-- The characters that words are made of. -/
def isWordChar (c : Char) : Bool :=
  'a' ≤ c && c ≤ 'z'

/-- The four characters of white space in JSON. -/
def isSpace (c : Char) : Bool :=
  c == ' ' || c == '\n' || c == '\r' || c == '\t'

/-- The value of a hexadecimal digit. -/
def hexValue? (c : Char) : Option Nat :=
  if '0' ≤ c && c ≤ '9' then some (c.toNat - 48)
  else if 'a' ≤ c && c ≤ 'f' then some (c.toNat - 87)
  else if 'A' ≤ c && c ≤ 'F' then some (c.toNat - 55)
  else none

/-- What a letter after a backslash stands for. -/
def unescape? (c : Char) : Option Char :=
  if c = '"' ∨ c = '\\' ∨ c = '/' then some c
  else if c = 'b' then some (Char.ofNat 8)
  else if c = 'f' then some (Char.ofNat 12)
  else if c = 'n' then some '\n'
  else if c = 'r' then some '\r'
  else if c = 't' then some '\t'
  else none

/-- The token that a word is. -/
def wordToken? (chars : List Char) : Option Token :=
  match String.ofList chars with
  | "null" => some .null
  | "true" => some (.bool true)
  | "false" => some (.bool false)
  | _ => none

/-- The state after one more character outside a string, with the tokens it completes. -/
def scanFresh (c : Char) : Option (Scan × List Token) :=
  if isSpace c then some (.between, [])
  else if c = '{' then some (.between, [.openObject])
  else if c = '}' then some (.between, [.closeObject])
  else if c = '[' then some (.between, [.openArray])
  else if c = ']' then some (.between, [.closeArray])
  else if c = ':' then some (.between, [.colon])
  else if c = ',' then some (.between, [.comma])
  else if c = '"' then some (.inString .empty none, [])
  else if isNumberChar c then some (.inNumber [c], [])
  else if isWordChar c then some (.inWord [c], [])
  else none

/-- A draft in which a first half without its second has become no text. -/
def StringDraft.settle (d : StringDraft) (high : Option Nat) : StringDraft :=
  if high.isSome then d.spoil else d

/-- A draft after a complete escaped code. -/
def StringDraft.pushCode (d : StringDraft) (high : Option Nat) (code : Nat) :
    StringDraft × Option Nat :=
  match high with
  | some first =>
    if 0xDC00 ≤ code ∧ code ≤ 0xDFFF then
      (d.push (Char.ofNat ((first - 0xD800) * 1024 + (code - 0xDC00) + 0x10000)), none)
    else (d.spoil, none)
  | none =>
    if 0xD800 ≤ code ∧ code ≤ 0xDBFF then (d, some code)
    else if 0xDC00 ≤ code ∧ code ≤ 0xDFFF then (d.spoil, none)
    else (d.push (Char.ofNat code), none)

/-- The state after one more character, with the tokens it completes, in order. -/
def Scan.step (s : Scan) (c : Char) : Option (Scan × List Token) :=
  match s with
  | .between => scanFresh c
  | .inString d high =>
    if c = '"' then some (.between, [.string (d.settle high).text])
    else if c = '\\' then some (.inEscape d high, [])
    else if c.toNat < 32 then none
    else some (.inString ((d.settle high).push c) none, [])
  | .inEscape d high =>
    if c = 'u' then some (.inCode d high 0 4, [])
    else (unescape? c).map fun e => (.inString ((d.settle high).push e) none, [])
  | .inCode d high value left =>
    (hexValue? c).map fun h =>
      let value := value * 16 + h
      if left ≤ 1 then
        let (d, high) := d.pushCode high value
        (.inString d high, [])
      else (.inCode d high value (left - 1), [])
  | .inNumber chars =>
    if isNumberChar c then some (.inNumber (c :: chars), [])
    else do
      let l ← Decimal.Literal.ofChars? chars.reverse
      let (s, more) ← scanFresh c
      some (s, .number l :: more)
  | .inWord chars =>
    if isWordChar c then some (.inWord (c :: chars), [])
    else do
      let t ← wordToken? chars.reverse
      let (s, more) ← scanFresh c
      some (s, t :: more)

/-- The tokens that the end of the text completes. -/
def Scan.finish : Scan → Option (List Token)
  | .between => some []
  | .inNumber chars => (Decimal.Literal.ofChars? chars.reverse).map fun l => [.number l]
  | .inWord chars => (wordToken? chars.reverse).map fun t => [t]
  | _ => none

/-- The tokens of a text from a given state on. -/
def Scan.run (s : Scan) : List Char → Option (List Token)
  | [] => s.finish
  | c :: rest =>
    match s.step c with
    | none => none
    | some (s, done) =>
      match s.run rest with
      | none => none
      | some more => some (done ++ more)

/-- The tokens of a text. -/
def tokens? (text : List Char) : Option (List Token) :=
  Scan.between.run text

end Parley.Json
