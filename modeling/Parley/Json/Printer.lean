import Parley.Json.Basic
import Parley.Decimal.Shortest

/-!
# JSON text

A value has two written forms.  The *compact* form has no white space; it is what tools hand to
the model and what session files hold, one value a line.  The *pretty* form puts every item and
every field on a line of its own, two spaces deeper than what holds it, and leaves empty arrays
and objects on one line.

A string escapes the quote, the backslash and the control characters below `U+0020`; every other
character stands for itself.  Numbers are written as `Decimal` says.
-/

namespace Parley.Json

/-! ## Strings and numbers -/

/-- A hexadecimal digit, in lower case. -/
def hexDigit (n : Nat) : Char :=
  if n < 10 then Char.ofNat (48 + n) else Char.ofNat (87 + n)

/-- A character as it stands inside a written string. -/
def escape (c : Char) : List Char :=
  if c = '"' then ['\\', '"']
  else if c = '\\' then ['\\', '\\']
  else if c = '\n' then ['\\', 'n']
  else if c = '\r' then ['\\', 'r']
  else if c = '\t' then ['\\', 't']
  else if c.toNat = 8 then ['\\', 'b']
  else if c.toNat = 12 then ['\\', 'f']
  else if c.toNat < 32 then ['\\', 'u', '0', '0', hexDigit (c.toNat / 16), hexDigit (c.toNat % 16)]
  else [c]

/-- A string between its quotes. -/
def quoted (s : String) : List Char :=
  '"' :: s.toList.flatMap escape ++ ['"']

/-- An integer. -/
def intText (i : Int) : List Char :=
  if i < 0 then '-' :: Decimal.natText i.natAbs else Decimal.natText i.natAbs

/-! ## The compact form -/

mutual

/-- The compact form, as characters. -/
def render : Json → List Char
  | null => ['n', 'u', 'l', 'l']
  | bool true => ['t', 'r', 'u', 'e']
  | bool false => ['f', 'a', 'l', 's', 'e']
  | int i => intText i
  | float x => Decimal.text64 x
  | str s => quoted s
  | arr items => '[' :: renderItems items
  | obj fields => '{' :: renderFields fields

/-- The items of an array, and its end. -/
def renderItems : List Json → List Char
  | [] => [']']
  | item :: rest => render item ++ renderMoreItems rest

/-- Further items, each after a comma, and the end. -/
def renderMoreItems : List Json → List Char
  | [] => [']']
  | item :: rest => ',' :: render item ++ renderMoreItems rest

/-- The fields of an object, and its end. -/
def renderFields : List (String × Json) → List Char
  | [] => ['}']
  | (name, value) :: rest => quoted name ++ ':' :: render value ++ renderMoreFields rest

/-- Further fields, each after a comma, and the end. -/
def renderMoreFields : List (String × Json) → List Char
  | [] => ['}']
  | (name, value) :: rest =>
    ',' :: quoted name ++ ':' :: render value ++ renderMoreFields rest

end

/-- The compact form. -/
def compact (j : Json) : String :=
  String.ofList j.render

/-! ## The pretty form -/

/-- A line feed and `depth` steps of two spaces. -/
def newline (depth : Nat) : List Char :=
  '\n' :: List.replicate (2 * depth) ' '

mutual

/-- The pretty form of a value that stands `depth` steps in. -/
def prettyChars (depth : Nat) : Json → List Char
  | arr [] => ['[', ']']
  | arr items => '[' :: prettyItems depth items ++ newline depth ++ [']']
  | obj [] => ['{', '}']
  | obj fields => '{' :: prettyFields depth fields ++ newline depth ++ ['}']
  | null => ['n', 'u', 'l', 'l']
  | bool true => ['t', 'r', 'u', 'e']
  | bool false => ['f', 'a', 'l', 's', 'e']
  | int i => intText i
  | float x => Decimal.text64 x
  | str s => quoted s

/-- The items of an array, one a line. -/
def prettyItems (depth : Nat) : List Json → List Char
  | [] => []
  | [item] => newline (depth + 1) ++ prettyChars (depth + 1) item
  | item :: rest =>
    newline (depth + 1) ++ prettyChars (depth + 1) item ++ ',' :: prettyItems depth rest

/-- The fields of an object, one a line. -/
def prettyFields (depth : Nat) : List (String × Json) → List Char
  | [] => []
  | [(name, value)] =>
    newline (depth + 1) ++ quoted name ++ ':' :: ' ' :: prettyChars (depth + 1) value
  | (name, value) :: rest =>
    newline (depth + 1) ++ quoted name ++ ':' :: ' ' :: prettyChars (depth + 1) value ++
      ',' :: prettyFields depth rest

end

/-- The pretty form. -/
def pretty (j : Json) : String :=
  String.ofList (prettyChars 0 j)

end Parley.Json
