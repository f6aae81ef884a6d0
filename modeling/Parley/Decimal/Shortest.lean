import Parley.Decimal.Binary

/-!
# The shortest decimal text of a floating-point number

A number is written with the fewest digits that read back as the same number; among decimals
with that many digits the one nearest to the number is taken, and an exact half goes to the even
digit.

The decimals that read back form an interval around the number: half the distance to its
neighbours on either side, ends included when the significand is even.  If a point of a decimal
grid lies in the interval then so does one of the number's two neighbours on that grid, so each
grid, from one digit up, is tried with these two only.  Seventeen digits always suffice.
-/

namespace Parley.Decimal

/-- A decimal `digits · 10 ^ exponent`. -/
structure Digits where
  digits : Nat
  exponent : Int
  deriving DecidableEq, Repr

namespace Digits

/-- The decimal without the zeros at its end. -/
def strip (d : Digits) : Nat → Digits
  | 0 => d
  | n + 1 => if d.digits % 10 = 0 ∧ d.digits ≠ 0 then strip ⟨d.digits / 10, d.exponent + 1⟩ n else d

end Digits

/-- The numbers that round to one value, as multiples of a common unit: the value itself, the
distances down and up to the ends, and whether the ends belong to it. -/
structure Basin where
  value : Nat
  below : Nat
  above : Nat
  closed : Bool

namespace Basin

/-- The basin of a number, in units of a quarter of its last place.  Below a power of two the
neighbours are half as far apart as above it. -/
def of (f : Format) (x : Binary) : Basin where
  value := 4 * x.significand
  below := if x.significand = Nat.pow 2 (f.precision - 1) ∧ f.minExponent < x.exponent then 1 else 2
  above := 2
  closed := x.significand % 2 = 0

/-- Whether the point `p / q` (in the basin's unit) rounds to the basin's value. -/
def holds (b : Basin) (p q : Nat) : Bool :=
  let low := (b.value - b.below) * q
  let high := (b.value + b.above) * q
  if b.closed then low ≤ p && p ≤ high else low < p && p < high

end Basin

/-- The least `k` with `num / den < 10 ^ k`, searched upward from `k`. -/
def decimalWidth (num den : Nat) (k : Int) : Nat → Int
  | 0 => k
  | fuel + 1 =>
    if num * Nat.pow 10 (-k).toNat < den * Nat.pow 10 k.toNat then k
    else decimalWidth num den (k + 1) fuel

/-- The neighbour of a number on the decimal grid with step `10 ^ step` that reads back, if one
does.  `num / den` is the number, `b` its basin with unit `unitNum / unitDen`. -/
def onGrid? (b : Basin) (unitNum unitDen : Nat) (step : Int) : Option Digits :=
  -- the grid's step in basin units is `p / q`
  let p := Nat.pow 10 step.toNat * unitDen
  let q := Nat.pow 10 (-step).toNat * unitNum
  let low := b.value * q / p
  let readsBack (n : Nat) : Bool := n ≠ 0 && b.holds (n * p) q
  let nearLow : Bool :=
    let twice := 2 * b.value * q
    let middle := (2 * low + 1) * p
    twice < middle || (twice == middle && low % 2 == 0)
  if readsBack low && (nearLow || !readsBack (low + 1)) then some ⟨low, step⟩
  else if readsBack (low + 1) then some ⟨low + 1, step⟩
  else none

/-- The first grid with a hit, from coarse to fine. -/
def firstGrid (b : Basin) (unitNum unitDen : Nat) (step : Int) : Nat → Digits
  | 0 => ⟨0, 0⟩
  | fuel + 1 =>
    match onGrid? b unitNum unitDen step with
    | some d => d.strip 20
    | none => firstGrid b unitNum unitDen (step - 1) fuel

/-- The shortest decimal that reads back as the size of `x`. -/
def shortest (f : Format) (x : Binary) : Digits :=
  if x.significand = 0 then ⟨0, 0⟩
  else
    let start : Int := (Format.magnitude x.num x.den) * 301 / 1000 - 2
    let width := decimalWidth x.num x.den start 8
    firstGrid (Basin.of f x) (Nat.pow 2 x.exponent.toNat) (4 * Nat.pow 2 (-x.exponent).toNat)
      (width - 1) 25

/-! ## Writing the digits -/

/-- Where a number is written positionally: its decimal point stands between the places
`fromPlace` (exclusive) and `toPlace` (inclusive), counted from its first digit. -/
structure Layout where
  fromPlace : Int
  toPlace : Int

/-- Numbers from 0.00001 up to below 10^16 are written positionally, all others with a power of
ten. -/
def layout64 : Layout := ⟨-5, 16⟩

/-- Numbers of 32 bits are written positionally from 0.000001 up to below 10^13. -/
def layout32 : Layout := ⟨-6, 13⟩

/-- A whole number in decimal. -/
def natText (n : Nat) : List Char := Nat.toDigits 10 n

/-- An exponent with its sign. -/
def exponentText (e : Int) : List Char :=
  (if e < 0 then '-' else '+') :: natText e.natAbs

/-- A positive decimal as text.  A whole number keeps one place after the point. -/
def digitsText (l : Layout) (d : Digits) : List Char :=
  let digits := natText d.digits
  let point : Int := digits.length + d.exponent
  if 0 ≤ d.exponent ∧ point ≤ l.toPlace then
    digits ++ List.replicate d.exponent.toNat '0' ++ ['.', '0']
  else if 0 < point ∧ point ≤ l.toPlace then
    digits.take point.toNat ++ '.' :: digits.drop point.toNat
  else if l.fromPlace < point ∧ point ≤ 0 then
    '0' :: '.' :: List.replicate (-point).toNat '0' ++ digits
  else
    match digits with
    | [single] => single :: 'e' :: exponentText (point - 1)
    | first :: more => first :: '.' :: more ++ 'e' :: exponentText (point - 1)
    | [] => []

/-- A number of 64 bits as text. -/
def text64 (x : Binary) : List Char :=
  let size :=
    if x.significand = 0 then ['0', '.', '0'] else digitsText layout64 (shortest binary64 x)
  if x.negative then '-' :: size else size

/-- A number of 32 bits as text. -/
def text32 (x : Binary) : List Char :=
  let size :=
    if x.significand = 0 then ['0', '.', '0'] else digitsText layout32 (shortest binary32 x)
  if x.negative then '-' :: size else size

end Parley.Decimal
