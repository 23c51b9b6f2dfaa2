import DotLang.Number.Power

/-!
# Rounding to double precision

A finite double is a sign with a natural mantissa times a power of two. This
module takes doubles apart and rounds quotients of natural numbers to the
nearest double, ties going to the even mantissa. All work is done in exact
arithmetic on natural numbers.
-/

namespace DotLang

/-- A finite double: a sign and the magnitude `mantissa * 2 ^ exponent`. -/
structure Binary where
  /-- Whether the sign bit is set; zero has a sign too. -/
  negative : Bool
  /-- The integral factor of the magnitude, below `2 ^ 53`. -/
  mantissa : Nat
  /-- The power of two that scales the mantissa, at least `-1074`. -/
  exponent : Int
deriving DecidableEq, Repr

namespace Binary

/-- The parts of a finite double; infinities and NaN have none. -/
def ofFloat? (number : Float) : Option Binary :=
  let bits : Nat := number.toBits.toNat
  let negative := bits / twoPow 63 == 1
  let exponentField : Nat := bits / twoPow 52 % twoPow 11
  let fraction : Nat := bits % twoPow 52
  if exponentField == 2047 then none
  else if exponentField == 0 then some ⟨negative, fraction, -1074⟩
  else some ⟨negative, fraction + twoPow 52, (exponentField : Int) - 1075⟩

/-- The integer that a finite double denotes, if it denotes one. -/
def toInt? (binary : Binary) : Option Int :=
  let magnitude :=
    if 0 ≤ binary.exponent then some (binary.mantissa * twoPow binary.exponent.toNat)
    else
      let unit := twoPow (-binary.exponent).toNat
      if binary.mantissa % unit = 0 then some (binary.mantissa / unit) else none
  magnitude.map fun size => if binary.negative then -(size : Int) else size

end Binary

/-- The quotient rounded to a natural number, a half going to the even neighbour. -/
def roundHalfEven (numerator denominator : Nat) : Nat :=
  let floor := numerator / denominator
  let twice := 2 * (numerator % denominator)
  if denominator < twice || (twice == denominator && floor % 2 == 1) then floor + 1 else floor

/-- The quotient of `numerator` by `denominator * 2 ^ exponent`, rounded to a natural number. -/
def roundScaled (numerator denominator : Nat) (exponent : Int) : Nat :=
  roundHalfEven (numerator * twoPow (-exponent).toNat) (denominator * twoPow exponent.toNat)

/-- The exponent of the double nearest to a positive quotient: the one that leaves a mantissa
of 53 bits, or the least exponent there is. -/
def quotientExponent (numerator denominator : Nat) : Int :=
  let estimate : Int := (numerator.log2 : Int) - denominator.log2 - 53
  let scaled := numerator * twoPow (-estimate).toNat / (denominator * twoPow estimate.toNat)
  max (if twoPow 53 ≤ scaled then estimate + 1 else estimate) (-1074)

/-- The bits of positive infinity, the first pattern above all finite magnitudes. -/
def infinityBits : Nat :=
  2047 * twoPow 52

/-- The double nearest to a quotient with a sign; infinity stands above the largest double. -/
def nearestFloat (negative : Bool) (numerator denominator : Nat) : Float :=
  let exponent := quotientExponent numerator denominator
  let bits :=
    if numerator = 0 then 0
    else (exponent + 1074).toNat * twoPow 52 + roundScaled numerator denominator exponent
  let signBit := if negative then twoPow 63 else 0
  Float.ofBits (UInt64.ofNat (signBit + min bits infinityBits))

/-- The double nearest to an integer. -/
def floatOfInt (number : Int) : Float :=
  nearestFloat (number < 0) number.natAbs 1

end DotLang
