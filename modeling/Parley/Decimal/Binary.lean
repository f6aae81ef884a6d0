/-!
# Binary floating point

A finite floating-point number is a sign, a significand and a power of two.  `Format` says which
of them a machine format holds, and `Format.round` takes an exact quotient to the nearest number
of the format, an exact half going to the even significand.  Products and quotients are rounded
from their exact values, so each of them is one rounding.

Everything is arithmetic on `Nat` and `Int`: no step depends on a processor's floating point.
-/

namespace Parley.Decimal

/-- A binary format: how many bits a significand has, and the least and greatest exponent. -/
structure Format where
  precision : Nat
  minExponent : Int
  maxExponent : Int

/-- Numbers of 64 bits. -/
def binary64 : Format := ⟨53, -1074, 971⟩

/-- Numbers of 32 bits. -/
def binary32 : Format := ⟨24, -149, 104⟩

/-- The number `± significand · 2 ^ exponent`. -/
structure Binary where
  negative : Bool
  significand : Nat
  exponent : Int
  deriving DecidableEq, Repr, Inhabited

namespace Binary

/-- Zero, which has a sign. -/
def zero (negative : Bool) : Binary := ⟨negative, 0, 0⟩

/-- The numerator of the number's size. -/
def num (x : Binary) : Nat := x.significand * Nat.pow 2 x.exponent.toNat

/-- The denominator of the number's size. -/
def den (x : Binary) : Nat := Nat.pow 2 (-x.exponent).toNat

/-- Equality of numbers: the two zeros are one number. -/
def same (x y : Binary) : Bool :=
  x.num * y.den == y.num * x.den && (x.negative == y.negative || x.significand == 0)

end Binary

namespace Format

/-- The greatest `k` with `2 ^ k ≤ num / den`, for a positive quotient. -/
def magnitude (num den : Nat) : Int :=
  let k : Int := (num.log2 : Int) - den.log2
  if num * Nat.pow 2 (-k).toNat < den * Nat.pow 2 k.toNat then k - 1 else k

/-- The whole number nearest to `num / den`, an exact half going to the even one. -/
def nearest (num den : Nat) : Nat :=
  let q := num / den
  let r := num % den
  if 2 * r < den then q
  else if den < 2 * r then q + 1
  else if q % 2 = 0 then q
  else q + 1

/-- The number of the format nearest to `num / den`, without a sign; `none` when it is beyond
the format's range. -/
def round (f : Format) (num den : Nat) : Option Binary :=
  if num = 0 then some (.zero false)
  else
    let e := max (magnitude num den - (f.precision - 1 : Nat)) f.minExponent
    let m := nearest (num * Nat.pow 2 (-e).toNat) (den * Nat.pow 2 e.toNat)
    let (m, e) := if m = Nat.pow 2 f.precision then (Nat.pow 2 (f.precision - 1), e + 1)
      else (m, e)
    if m = 0 then some (.zero false)
    else if f.maxExponent < e then none
    else some ⟨false, m, e⟩

/-- The rounded product of two sizes. -/
def mul (f : Format) (x y : Binary) : Option Binary :=
  f.round (x.num * y.num) (x.den * y.den)

/-- The rounded quotient of two sizes. -/
def div (f : Format) (x y : Binary) : Option Binary :=
  f.round (x.num * y.den) (x.den * y.num)

/-- The power of ten nearest to `10 ^ n`. -/
def tenPower (f : Format) (n : Nat) : Option Binary :=
  f.round (Nat.pow 10 n) 1

end Format

end Parley.Decimal
