import DotLang.Number.Rounding

/-!
# Shortest decimals

The shortest decimal that reads back as a given double, and of those the one
nearest to it. The reals that round to a double form an interval around it.
For one, two and more digits the two decimals next to the double are tried;
the first count of digits with a decimal inside the interval wins.
-/

namespace DotLang

/-- A decimal `digits * 10 ^ exponent`. -/
structure Decimal where
  /-- The digits read as a natural number. -/
  digits : Nat
  /-- The power of ten that scales the digits. -/
  exponent : Int
deriving DecidableEq, Repr

namespace Decimal

/-- The number of decimal digits of a natural number; zero has one. -/
def digitCount (number : Nat) : Nat :=
  (Nat.toDigits 10 number).length

/-- The interval of reals that round to `mantissa * 2 ^ exponent`, in quarters of a unit in the
last place. The lower end is nearer where the mantissa is the least with its exponent. -/
def roundingEnds (mantissa : Nat) (exponent : Int) : Nat × Nat :=
  let below := if mantissa = twoPow 52 ∧ -1074 < exponent then 1 else 2
  (4 * mantissa - below, 4 * mantissa + 2)

/-- The decimal exponent of the leading digit of `mantissa * 2 ^ exponent`. -/
def leadingExponent (mantissa : Nat) (exponent : Int) : Int :=
  let places : Nat := 400
  let scaled := mantissa * twoPow exponent.toNat * tenPow places / twoPow (-exponent).toNat
  (digitCount scaled : Int) - 1 - places

/-- The multiple of `10 ^ place` nearest to `mantissa * 2 ^ exponent` among those that read back
as it, a tie going to the even multiple. -/
def onGrid? (mantissa : Nat) (exponent place : Int) : Option Decimal :=
  let unit := twoPow (exponent - 2).toNat * tenPow (-place).toNat
  let step := twoPow (2 - exponent).toNat * tenPow place.toNat
  let (lower, upper) := roundingEnds mantissa exponent
  let inside (multiple : Nat) : Bool :=
    if mantissa % 2 = 0 then lower * unit ≤ multiple * step && multiple * step ≤ upper * unit
    else lower * unit < multiple * step && multiple * step < upper * unit
  let target := 4 * mantissa * unit
  let floor := target / step
  let nearer := roundHalfEven target step
  let farther := if nearer = floor then floor + 1 else floor
  if inside nearer then some ⟨nearer, place⟩
  else if inside farther then some ⟨farther, place⟩
  else none

/-- Seventeen digits tell all doubles apart. -/
def maxDigits : Nat := 17

/-- The decimal with the fewest digits that reads back as `mantissa * 2 ^ exponent`. -/
def shortest (mantissa : Nat) (exponent : Int) : Decimal :=
  let leading := leadingExponent mantissa exponent
  let found? := (List.range maxDigits).findSome? fun (extra : Nat) =>
    onGrid? mantissa exponent (leading - extra)
  found?.getD ⟨mantissa, exponent⟩

end Decimal

end DotLang
