import Parley.Decimal.Literal
import Parley.Decimal.Shortest
import Parley.Json.Decode
import Parley.Text.Blank
import Parley.Time.Calendar

/-!
# Instants and their text

A `Timestamp` is an instant in universal time, to the nanosecond.  A leap second is the second
59 prolonged: its nanoseconds run from 10⁹ on.  Instants are compared by their seconds first, so
a leap second lies between the seconds around it.

## Writing

`Timestamp.rfc3339` is RFC 3339 with `Z`: the fraction has three, six or nine digits, the fewest
that are exact, or is left out.  A year outside 0 to 9999 has a sign and at least five places.

## Reading

`Timestamp.ofText?` takes RFC 3339 with any offset and converts it.  It is lenient in the way
dates are typed: numbers may lack leading zeros, white space may stand before each part, a space
may stand for the `T`, and `UTC` for the offset zero.  An offset must be there, and the date and
the time must exist.
-/

namespace Parley

/-- An instant: seconds since 1970 in universal time, and nanoseconds. -/
structure Timestamp where
  seconds : Int
  nanos : Nat
  deriving DecidableEq, Repr, Inhabited

namespace Timestamp

open Time

/-- Whether `a` is not after `b`. -/
def le (a b : Timestamp) : Bool :=
  a.seconds < b.seconds || (a.seconds == b.seconds && a.nanos ≤ b.nanos)

/-- The later of two instants. -/
def max (a b : Timestamp) : Timestamp :=
  if a.le b then b else a

/-! ## Parts -/

/-- The civil date. -/
def date (t : Timestamp) : Date := Date.ofDays (t.seconds.fdiv 86400)

/-- The second of the day, a leap second counted as the one it prolongs. -/
def secondOfDay (t : Timestamp) : Nat := (t.seconds.fmod 86400).toNat

/-- The hour of the day. -/
def hour (t : Timestamp) : Nat := t.secondOfDay / 3600

/-- The minute of the hour. -/
def minute (t : Timestamp) : Nat := t.secondOfDay / 60 % 60

/-- The second of the minute, sixty in a leap second. -/
def second (t : Timestamp) : Nat :=
  t.secondOfDay % 60 + (if 1000000000 ≤ t.nanos then 1 else 0)

/-- The nanosecond of the second. -/
def fraction (t : Timestamp) : Nat := t.nanos % 1000000000

/-! ## Writing -/

/-- A number with at least `width` digits. -/
def padded (width n : Nat) : List Char :=
  let digits := Decimal.natText n
  List.replicate (width - digits.length) '0' ++ digits

/-- A year: four digits, or a sign and at least four digits. -/
def yearText (year : Int) : List Char :=
  if 0 ≤ year ∧ year ≤ 9999 then padded 4 year.toNat
  else (if year < 0 then '-' else '+') :: padded 4 year.natAbs

/-- `YYYY`, month and day with `between` in between. -/
def dateText (t : Timestamp) (between : List Char) : List Char :=
  yearText t.date.year ++ between ++ padded 2 t.date.month ++ between ++ padded 2 t.date.day

/-- Hour, minute and second with `between` in between. -/
def timeText (t : Timestamp) (between : List Char) : List Char :=
  padded 2 t.hour ++ between ++ padded 2 t.minute ++ between ++ padded 2 t.second

/-- The fraction of a second with the fewest groups of three digits, after a point. -/
def fractionText (t : Timestamp) : List Char :=
  if t.fraction = 0 then []
  else if t.fraction % 1000000 = 0 then '.' :: padded 3 (t.fraction / 1000000)
  else if t.fraction % 1000 = 0 then '.' :: padded 6 (t.fraction / 1000)
  else '.' :: padded 9 t.fraction

/-- RFC 3339 in universal time. -/
def rfc3339 (t : Timestamp) : String :=
  String.ofList (t.dateText ['-'] ++ 'T' :: t.timeText [':'] ++ t.fractionText ++ ['Z'])

/-- `YYYYMMDD-HHMMSS`, for generated session keys. -/
def keyStamp (t : Timestamp) : String :=
  String.ofList (t.dateText [] ++ '-' :: t.timeText [])

/-- `YYYYMMDD_HHMMSS_` and nine fraction digits, for generated file names. -/
def fileStamp (t : Timestamp) : String :=
  String.ofList (t.dateText [] ++ '_' :: t.timeText [] ++ '_' :: padded 9 t.fraction)

/-- `YYYY-MM-DD HH:MM`, for titles. -/
def minuteText (t : Timestamp) : String :=
  String.ofList (t.dateText ['-'] ++ ' ' :: padded 2 t.hour ++ ':' :: padded 2 t.minute)

/-- `YYYY-MM-DD HH:MM:SS`, for listings. -/
def secondText (t : Timestamp) : String :=
  String.ofList (t.dateText ['-'] ++ ' ' :: t.timeText [':'])

/-! ## Reading -/

/-- The years that instants may lie in. -/
def inRange (year : Int) : Bool := -262143 ≤ year && year ≤ 262142

/-- A number of one to `most` digits, and what follows. -/
def number? (most : Nat) (s : List Char) : Option (Nat × List Char) :=
  let digits := (s.take most).takeWhile fun c => (Decimal.digit? c).isSome
  if digits.isEmpty then none
  else some (Decimal.digitsValue (digits.filterMap Decimal.digit?), s.drop digits.length)

/-- A number as `number?`, after white space. -/
def part? (most : Nat) (s : List Char) : Option (Nat × List Char) :=
  number? most (Text.trimLeft s)

/-- A year, after white space: four digits at most, or a sign and any number of digits. -/
def year? (s : List Char) : Option (Int × List Char) :=
  match Text.trimLeft s with
  | '-' :: s => (number? s.length s).map fun (n, s) => (-(n : Int), s)
  | '+' :: s => (number? s.length s).map fun (n, s) => ((n : Int), s)
  | s => (number? 4 s).map fun (n, s) => ((n : Int), s)

/-- What follows the character `c`, after white space. -/
def after? (c : Char) (s : List Char) : Option (List Char) :=
  match Text.trimLeft s with
  | d :: s => if d = c then some s else none
  | [] => none

/-- Nanoseconds after a point, if there is one; digits from the tenth on are dropped. -/
def fraction? (s : List Char) : Option (Nat × List Char) :=
  match s with
  | '.' :: s => do
    let digits := s.takeWhile fun c => (Decimal.digit? c).isSome
    let (n, _) ← number? 9 s
    some (n * Nat.pow 10 (9 - digits.length), s.drop digits.length)
  | s => some (0, s)

/-- An offset from universal time in seconds, and what follows. -/
def offset? (s : List Char) : Option (Int × List Char) :=
  match s with
  | [] => none
  | c :: rest =>
    if c = 'Z' ∨ c = 'z' then some (0, rest)
    else if (s.take 3).map Char.toUpper = ['U', 'T', 'C'] then some (0, s.drop 3)
    else do
      let sign : Int ←
        if c = '+' then some 1 else if c = '-' ∨ c = '\u2212' then some (-1) else none
      let two (s : List Char) : Option (Nat × List Char) :=
        match s with
        | a :: b :: s =>
          match Decimal.digit? a, Decimal.digit? b with
          | some x, some y => some (x * 10 + y, s)
          | _, _ => none
        | _ => none
      let (hours, rest) ← two rest
      let (minutes, rest) ← two (rest.dropWhile fun c => c = ':' || Text.isBlank c)
      if minutes < 60 ∧ hours < 24 then some (sign * (hours * 3600 + minutes * 60 : Nat), rest)
      else none

/-- The instant that a text names. -/
def ofText? (text : String) : Option Timestamp := do
  let s := text.toList
  let (year, s) ← year? s
  let s ← after? '-' s
  let (month, s) ← part? 2 s
  let s ← after? '-' s
  let (day, s) ← part? 2 s
  let s ← match s with
    | c :: s => if c = 'T' ∨ c = 't' ∨ c = ' ' then some s else none
    | [] => none
  let (hour, s) ← part? 2 s
  let s ← after? ':' s
  let (minute, s) ← part? 2 s
  let s ← after? ':' s
  let (second, s) ← part? 2 s
  let (nanos, s) ← fraction? s
  let (offset, s) ← offset? (Text.trimLeft s)
  let date : Date := ⟨year, month, day⟩
  if (Text.trimLeft s).isEmpty ∧ inRange year ∧ date.isValid ∧ hour < 24 ∧ minute < 60 ∧ second ≤ 60
  then
    let leap := second = 60
    let seconds : Int :=
      date.toDays * 86400 + hour * 3600 + minute * 60 + (if leap then 59 else second) - offset
    let t : Timestamp := ⟨seconds, if leap then nanos + 1000000000 else nanos⟩
    if inRange t.date.year then some t else none
  else none

/-- The written form as JSON. -/
def toJson (t : Timestamp) : Json := .str t.rfc3339

/-- A reader of instants. -/
def decoder : Json.Decoder Timestamp := Json.Decoder.text.andThen ofText?

end Timestamp

end Parley
