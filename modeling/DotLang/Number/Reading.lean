import DotLang.Number.Rounding
import DotLang.Text.Blank
import DotLang.Text.Digit

/-!
# How doubles are read

The text of a double: blanks around it, an optional sign, and either a decimal
with an optional exponent, `inf`, `infinity` or `nan`. Digits of any script
count, and an underscore may stand between two digits. A decimal beyond the
largest double reads as infinity.
-/

namespace DotLang

namespace FloatText

/-- The value of a row of ASCII digits. -/
def digitsValue (digits : List Char) : Nat :=
  digits.foldl (fun value digit => 10 * value + (digit.toNat - 48)) 0

/-- Digits of any script become ASCII digits and white space becomes a space; no other
character beyond ASCII can stand in a number. -/
def normalize (char : Char) : Char :=
  if char.toNat < 128 then char
  else if Text.isWhiteSpace char then ' '
  else
    match Text.decimalValue? char with
    | some value => Text.asciiDigit value
    | none => '?'

/-- The ASCII characters that may surround a number. -/
def isMargin (char : Char) : Bool :=
  char.toNat < 128 && Text.isWhiteSpace char

/-- The text without its underscores, if each stands between two digits. -/
def withoutUnderscores? (previous : Char) : List Char → Option (List Char)
  | [] => if previous == '_' then none else some []
  | '_' :: rest => if previous.isDigit then withoutUnderscores? '_' rest else none
  | char :: rest =>
      if previous == '_' && !char.isDigit then none
      else (withoutUnderscores? char rest).map (char :: ·)

/-- A sign, if there is one, and what follows it. -/
def signed : List Char → Bool × List Char
  | '-' :: rest => (true, rest)
  | '+' :: rest => (false, rest)
  | chars => (false, chars)

/-- The exponent at the end of a decimal; without an `e` it is zero. -/
def exponent? : List Char → Option Int
  | [] => some 0
  | mark :: rest =>
      let (negative, digits) := signed rest
      if (mark == 'e' || mark == 'E') && !digits.isEmpty && digits.all Char.isDigit then
        some (if negative then -(digitsValue digits : Int) else digitsValue digits)
      else none

/-- The double nearest to `digits * 10 ^ exponent`. Decimals far beyond the range of doubles are
settled by their size alone. -/
def decimalFloat (negative : Bool) (digits : Nat) (exponent : Int) : Float :=
  let size := (Nat.toDigits 10 digits).length + exponent
  if digits = 0 ∨ size < -400 then nearestFloat negative 0 1
  else if 400 < size then nearestFloat negative (twoPow 1024) 1
  else nearestFloat negative (digits * tenPow exponent.toNat) (tenPow (-exponent).toNat)

/-- A decimal without sign: digits, at most one point among or beside them, an exponent. -/
def decimal? (negative : Bool) (chars : List Char) : Option Float :=
  let whole := chars.takeWhile Char.isDigit
  let afterWhole := chars.dropWhile Char.isDigit
  let (fraction, tail) :=
    match afterWhole with
    | '.' :: rest => (rest.takeWhile Char.isDigit, rest.dropWhile Char.isDigit)
    | rest => ([], rest)
  if whole.isEmpty && fraction.isEmpty then none
  else
    (exponent? tail).map fun exponent =>
      decimalFloat negative (digitsValue (whole ++ fraction)) (exponent - fraction.length)

/-- The double written by a text without blanks around it or underscores in it. -/
def unmarked? (chars : List Char) : Option Float :=
  let (negative, magnitude) := signed chars
  let word := magnitude.map Char.toLower
  if word == ['i', 'n', 'f'] || word == ['i', 'n', 'f', 'i', 'n', 'i', 't', 'y'] then
    some (if negative then -1.0 / 0.0 else 1.0 / 0.0)
  else if word == ['n', 'a', 'n'] then some (0.0 / 0.0)
  else decimal? negative magnitude

/-- The double that a text writes, if it writes one. -/
def read? (chars : List Char) : Option Float := do
  let plain ← withoutUnderscores? ' ' (Text.trim isMargin (chars.map normalize))
  unmarked? plain

end FloatText

end DotLang
