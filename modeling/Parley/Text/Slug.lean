import Parley.Text.Blank

/-!
# Slugs

A bare session name becomes the last part of a key, so it is reduced to a *slug*: a word of
the language `[a-z0-9]+(-[a-z0-9]+)*`.  The name is trimmed and lower-cased, white space turns
into dashes, every other character outside the language is dropped, and runs of dashes are
joined.  A name with nothing left is called `session`.

The reduction is one pass over the lower-cased name.  It holds what is written so far, latest
first, and a dash is written only behind a letter: so no slug starts with one and no two of them
meet.  The dash that the pass may end with is taken off again.

Lower-casing is asked only for what a slug can keep.  Outside ASCII exactly two characters have
an ASCII letter in their lower case, the Kelvin sign and the dotted capital `I`; all others
lower to characters that are dropped, as they would be if left alone.
-/

namespace Parley.Text

/-- The lower case of a character, as far as a slug can keep any of it.  A character whose lower
case holds no ASCII letter stays as it is. -/
def slugLower (c : Char) : List Char :=
  if 'A' ≤ c && c ≤ 'Z' then [Char.ofNat (c.toNat + 32)]
  else if c = '\u212a' then ['k']
  else if c = '\u0130' then ['i', '\u0307']
  else [c]

/-- The letters of a slug. -/
def isSlugLetter (c : Char) : Bool :=
  ('a' ≤ c && c ≤ 'z') || ('0' ≤ c && c ≤ '9')

/-- Whether a character separates the words of a slug. -/
def isSlugBreak (c : Char) : Bool :=
  c == '-' || isBlank c

/-- One character of a lower-cased name, written behind what is there, latest first. -/
def slugStep (out : List Char) (c : Char) : List Char :=
  if isSlugBreak c then
    if out.isEmpty || out.head? == some '-' then out else '-' :: out
  else if isSlugLetter c then c :: out
  else out

/-- What is written, in its order and without a dash at its end. -/
def slugEnd (out : List Char) : List Char :=
  (out.dropWhile (· == '-')).reverse

/-- The letters of a slug, from a lower-cased name. -/
def slugLetters (text : List Char) : List Char :=
  slugEnd (text.foldl slugStep [])

/-- The slug of a name. -/
def slug (name : String) : String :=
  match slugLetters ((trim name.toList).flatMap slugLower) with
  | [] => "session"
  | letters => String.ofList letters

end Parley.Text
