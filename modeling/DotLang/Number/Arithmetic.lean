import DotLang.Number.Notation

/-!
# Arithmetic of mixed numbers

Coordinates and scales are integers of any size or doubles. Where the two
meet, the integer is converted to the nearest double, which fails beyond the
largest one; a quotient of two integers is rounded only once.
-/

namespace DotLang

/-- An integer of any size or a double. -/
inductive Number where
  | int (number : Int)
  | float (number : Float)

/-- Why a number cannot be computed or written. -/
inductive NumberFault where
  /-- A division by zero in which at least one number is a double. -/
  | floatDivisionByZero
  /-- A division of integers by zero. -/
  | intDivisionByZero
  /-- An integer lies beyond the largest double. -/
  | intTooLarge
  /-- A quotient of integers lies beyond the largest double. -/
  | quotientTooLarge
  /-- A value of another type stands in the place of a number. -/
  | notNumber (typeName : String)
deriving DecidableEq, Repr

/-- The wording of a fault. -/
def NumberFault.message : NumberFault → String
  | .floatDivisionByZero => "float division by zero"
  | .intDivisionByZero => "division by zero"
  | .intTooLarge => "int too large to convert to float"
  | .quotientTooLarge => "integer division result too large for a float"
  | .notNumber typeName => "must be real number, not " ++ typeName

namespace Number

/-- The double nearest to a number. -/
def toFloat : Number → Except NumberFault Float
  | .float number => .ok number
  | .int number =>
      let nearest := floatOfInt number
      if nearest.isInf then .error .intTooLarge else .ok nearest

/-- A double times a number. -/
def scale (number : Float) (factor : Number) : Except NumberFault Float := do
  return number * (← factor.toFloat)

/-- The quotient of two integers, rounded once. -/
def intQuotient (dividend divisor : Int) : Except NumberFault Float :=
  if divisor = 0 then .error .intDivisionByZero
  else
    let negative := decide (dividend < 0) != decide (divisor < 0)
    let quotient := nearestFloat negative dividend.natAbs divisor.natAbs
    if quotient.isInf then .error .quotientTooLarge else .ok quotient

/-- The quotient of two doubles. -/
def floatQuotient (dividend divisor : Float) : Except NumberFault Float :=
  if divisor == 0.0 then .error .floatDivisionByZero else .ok (dividend / divisor)

/-- The quotient of two numbers. -/
def quotient : Number → Number → Except NumberFault Float
  | .int dividend, .int divisor => intQuotient dividend divisor
  | dividend, divisor => do floatQuotient (← dividend.toFloat) (← divisor.toFloat)

/-- Whether a number is NaN. -/
def isNaN (number : Number) : Except NumberFault Bool := do
  return (← number.toFloat).isNaN

end Number

end DotLang
