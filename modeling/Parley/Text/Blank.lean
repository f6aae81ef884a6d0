/-!
# White space and lines

Names, titles, commands and prompts are trimmed and cut into lines before anything else
happens to them, always by the same two rules.

* **White space** is Unicode's `White_Space` property, which is wider than the ASCII blanks:
  it holds the no-break space, the ideographic space and the two separators as well.
* **A line** ends at a line feed, and a carriage return just before that feed belongs to the
  line's end.  Text after the last feed is a line of its own unless it is empty; a carriage
  return there is an ordinary character.

Both are stated on lists of characters, where the laws are inductions, and lifted to
`String` below.
-/

namespace Parley.Text

/-- Unicode's `White_Space` property. -/
def isBlank (c : Char) : Bool :=
  let n := c.toNat
  (9 ≤ n && n ≤ 13) || n == 0x20 || n == 0x85 || n == 0xA0 || n == 0x1680 ||
    (0x2000 ≤ n && n ≤ 0x200A) || n == 0x2028 || n == 0x2029 || n == 0x202F || n == 0x205F ||
    n == 0x3000

/-! ## Trimming -/

/-- The text from its first character that is not white space. -/
def trimLeft (s : List Char) : List Char :=
  s.dropWhile isBlank

/-- The text up to its last character that is not white space. -/
def trimRight (s : List Char) : List Char :=
  (s.reverse.dropWhile isBlank).reverse

/-- The text without white space at either end. -/
def trim (s : List Char) : List Char :=
  trimRight (trimLeft s)

/-! ## Lines -/

/-- The pieces between line feeds; there is one more of them than there are feeds. -/
def pieces : List Char → List (List Char)
  | [] => [[]]
  | c :: rest =>
    if c = '\n' then [] :: pieces rest
    else
      match pieces rest with
      | [] => [[c]]
      | piece :: more => (c :: piece) :: more

/-- A line without the carriage return that may precede its feed. -/
def dropReturn (line : List Char) : List Char :=
  if line.getLast? = some '\r' then line.dropLast else line

/-- The lines among the pieces of a text: all but the last ended in a feed, and an empty last
piece is no line. -/
def linesOfPieces : List (List Char) → List (List Char)
  | [] => []
  | [last] => if last.isEmpty then [] else [last]
  | piece :: more => dropReturn piece :: linesOfPieces more

/-- The lines of a text, without their ends. -/
def lines (s : List Char) : List (List Char) :=
  linesOfPieces (pieces s)

end Parley.Text

namespace String

open Parley

/-- The string without white space at either end. -/
def trimBlank (s : String) : String :=
  ofList (Text.trim s.toList)

/-- The string without white space at its end. -/
def trimBlankRight (s : String) : String :=
  ofList (Text.trimRight s.toList)

/-- Whether there is nothing but white space in the string. -/
def isAllBlank (s : String) : Bool :=
  s.toList.all Text.isBlank

/-- The lines of the string, without their ends. -/
def textLines (s : String) : List String :=
  (Text.lines s.toList).map ofList

/-- The string when it holds something, `none` when it is empty. -/
def nonempty? (s : String) : Option String :=
  if s.isEmpty then none else some s

/-- The first `n` characters. -/
def takeChars (s : String) (n : Nat) : String :=
  ofList (s.toList.take n)

/-- What follows `lead`, when the string starts with it. -/
def afterLead? (s lead : String) : Option String :=
  if lead.toList.isPrefixOf s.toList then some (ofList (s.toList.drop lead.length)) else none

/-- The two sides of the first `c`, when there is one. -/
def splitAtFirst? (s : String) (c : Char) : Option (String × String) :=
  match s.toList.span (· ≠ c) with
  | (_, []) => none
  | (before, _ :: after) => some (ofList before, ofList after)

end String
