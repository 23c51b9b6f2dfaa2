import DotLang.Number.Shortest

/-!
# How numbers are written

The text of integers and doubles. A double is written with the fewest digits
that read back: positionally while its leading digit stands between the fourth
place after the point and the sixteenth place before it, and with an exponent
of at least two digits otherwise.
-/

namespace DotLang

/-- The decimal digits of a natural number. -/
def digitsText (number : Nat) : List Char :=
  Nat.toDigits 10 number

/-- An integer in decimal. -/
def intText (number : Int) : String :=
  String.ofList (if number < 0 then '-' :: digitsText number.natAbs else digitsText number.natAbs)

namespace Decimal

/-- The digits without zeros at their end; zero is the single digit `0`. -/
def significantDigits (decimal : Decimal) : List Char :=
  let digits := digitsText decimal.digits
  let significant := (digits.reverse.dropWhile (· == '0')).reverse
  if significant.isEmpty then ['0'] else significant

/-- How many of the digits stand before the point; negative for zeros after the point. -/
def pointPlace (decimal : Decimal) : Int :=
  (digitCount decimal.digits : Int) + decimal.exponent

/-- Positional notation, with at least one digit on both sides of the point. -/
def positional (digits : List Char) (point : Int) : List Char :=
  if point ≤ 0 then '0' :: '.' :: List.replicate (-point).toNat '0' ++ digits
  else
    let whole := point.toNat
    if digits.length ≤ whole then
      digits ++ List.replicate (whole - digits.length) '0' ++ ['.', '0']
    else digits.take whole ++ '.' :: digits.drop whole

/-- Notation with an exponent, which has a sign and at least two digits. -/
def scientific (digits : List Char) (exponent : Int) : List Char :=
  let power := digitsText exponent.natAbs
  let point := if 1 < digits.length then ['.'] else []
  digits.take 1 ++ point ++ digits.drop 1 ++
    ['e', if exponent < 0 then '-' else '+'] ++ List.replicate (2 - power.length) '0' ++ power

/-- A decimal in positional notation or with an exponent, whichever its size asks for. -/
def text (decimal : Decimal) : List Char :=
  let digits := decimal.significantDigits
  let point := decimal.pointPlace
  if -4 < point ∧ point ≤ 16 then positional digits point else scientific digits (point - 1)

end Decimal

/-- A double with the fewest digits that read back. -/
def floatText (number : Float) : String :=
  match Binary.ofFloat? number with
  | none =>
      if number.isNaN then "nan" else if number < 0 then "-inf" else "inf"
  | some binary =>
      let magnitude :=
        if binary.mantissa = 0 then ['0', '.', '0']
        else (Decimal.shortest binary.mantissa binary.exponent).text
      String.ofList (if binary.negative then '-' :: magnitude else magnitude)

end DotLang
