import Parley.Decimal.Binary

/-!
# Reading a decimal literal

A literal is a sign, whole digits, and possibly a fraction and an exponent.  One without either
is an integer if it fits 64 bits, signed or unsigned.  Every other literal is a floating-point
number, and is read *quickly*, in at most three roundings:

1. its leading digits are gathered into a word of 64 bits, as long as they fit; whole digits that
   do not fit count as powers of ten, further fraction digits are dropped;
2. the word is rounded to a floating-point number;
3. that number is multiplied by, or divided by, the floating-point number nearest to the
   remaining power of ten.

The result may therefore differ from the correctly rounded value in its last place.  A number
too large for the format is refused; one too small becomes zero.  Minus zero is a
floating-point number, since no integer is.
-/

namespace Parley.Decimal

/-- A decimal literal as written.  Digits are numbers below ten. -/
structure Literal where
  negative : Bool
  whole : List Nat
  fraction : Option (List Nat)
  /-- The exponent's sign (`true` is minus) and digits. -/
  power : Option (Bool × List Nat)
  deriving DecidableEq, Repr

/-- What a literal stands for. -/
inductive Value where
  | int (i : Int)
  | float (x : Binary)
  deriving DecidableEq, Repr

/-- The greatest word of 64 bits. -/
def maxWord : Nat := UInt64.size - 1

/-- The greatest number whose negation is an integer of 64 bits. -/
def maxNegated : Nat := 9223372036854775808

/-- The greatest exponent that is counted digit by digit. -/
def maxPower : Nat := 2147483647

/-- The number that a run of digits writes. -/
def digitsValue (digits : List Nat) : Nat :=
  digits.foldl (fun n d => n * 10 + d) 0

/-- Whole digits gathered into a word: the word, and how many digits did not fit.  Once one does
not fit, no later one is tried. -/
def gatherWhole : Nat → List Nat → Nat × Nat
  | word, [] => (word, 0)
  | word, d :: rest =>
    if maxWord < word * 10 + d then (word, rest.length + 1)
    else gatherWhole (word * 10 + d) rest

/-- Fraction digits gathered onto a word: the word, and how many digits it took. -/
def gatherFraction : Nat → List Nat → Nat × Nat
  | word, [] => (word, 0)
  | word, d :: rest =>
    if maxWord < word * 10 + d then (word, 0)
    else
      let (word, taken) := gatherFraction (word * 10 + d) rest
      (word, taken + 1)

/-- `word · 10 ^ power`, each step rounded. -/
def scaled (word : Nat) (power : Int) : Option Binary := do
  let f := binary64
  let x ← f.round word 1
  if 308 < power then
    if word = 0 then some x else none
  else if 0 ≤ power then f.mul x (← f.tenPower power.toNat)
  else if -308 ≤ power then f.div x (← f.tenPower (-power).toNat)
  else if -616 ≤ power then
    let largest ← f.tenPower 308
    f.div (← f.div x largest) (← f.tenPower (-power - 308).toNat)
  else some (.zero false)

namespace Literal

/-- The floating-point number a literal is read as. -/
def float? (l : Literal) : Option Binary := do
  let (word, left) := gatherWhole 0 l.whole
  let (word, taken) := match l.fraction with
    | none => (word, 0)
    | some digits => gatherFraction word digits
  let shift : Int := (left : Int) - taken
  let size ← match l.power with
    | none => scaled word shift
    | some (minus, digits) =>
      let p := digitsValue digits
      if maxPower < p then
        if word ≠ 0 ∧ !minus then none else some (.zero false)
      else scaled word (if minus then shift - p else shift + p)
  some { size with negative := l.negative }

/-- What a literal stands for; `none` when it is beyond the range of floating-point numbers. -/
def value? (l : Literal) : Option Value :=
  let n := digitsValue l.whole
  if l.fraction.isNone ∧ l.power.isNone ∧ !l.negative ∧ n ≤ maxWord then some (.int n)
  else if l.fraction.isNone ∧ l.power.isNone ∧ l.negative ∧ 0 < n ∧ n ≤ maxNegated then
    some (.int (-n))
  else l.float?.map .float

end Literal

/-! ## The grammar of literals -/

/-- The value of a decimal digit. -/
def digit? (c : Char) : Option Nat :=
  if '0' ≤ c && c ≤ '9' then some (c.toNat - 48) else none

/-- The digits a text starts with, and what follows them. -/
def digitRun : List Char → List Nat × List Char
  | [] => ([], [])
  | c :: rest =>
    match digit? c with
    | some d =>
      let (digits, rest) := digitRun rest
      (d :: digits, rest)
    | none => ([], c :: rest)

/-- Some digits, all that stand there. -/
def someDigits (s : List Char) : Option (List Nat × List Char) :=
  match digitRun s with
  | ([], _) => none
  | found => some found

/-- A literal that fills a text: no zero leads another whole digit, and a point or an exponent
mark is followed by digits. -/
def Literal.ofChars? (s : List Char) : Option Literal := do
  let (negative, s) := match s with
    | '-' :: s => (true, s)
    | s => (false, s)
  let (whole, s) ← someDigits s
  if whole.head? = some 0 ∧ whole.length ≠ 1 then none else
  let (fraction, s) ← match s with
    | '.' :: s => (someDigits s).map fun (digits, s) => (some digits, s)
    | s => some (none, s)
  let (power, s) ← match s with
    | c :: s =>
      if c = 'e' ∨ c = 'E' then
        let (minus, s) := match s with
          | '-' :: s => (true, s)
          | '+' :: s => (false, s)
          | s => (false, s)
        (someDigits s).map fun (digits, s) => (some (minus, digits), s)
      else some (none, c :: s)
    | [] => some (none, [])
  if s.isEmpty then some ⟨negative, whole, fraction, power⟩ else none

end Parley.Decimal
