import DotLang.Text.CodePoint
import DotLang.Text.Printable

/-!
# Text literals

How a text is shown inside messages and inside the text of lists: between
quotes, with escapes for the quote in use, the backslash and everything that
is not printable.
-/

namespace DotLang.Text

/-- The digits of a number to base sixteen, filled with zeros to at least `width` places. -/
def hexDigits (width number : Nat) : List Char :=
  let digits := Nat.toDigits 16 number
  List.replicate (width - digits.length) '0' ++ digits

/-- The single quote, unless the text holds one and no double quote. -/
def literalQuote (chars : List Char) : Char :=
  if chars.contains '\'' && !chars.contains '"' then '"' else '\''

/-- One character of a literal between the given quotes. -/
def literalChar (quote char : Char) : List Char :=
  if char == quote || char == '\\' then ['\\', char]
  else if char == '\t' then ['\\', 't']
  else if char == '\n' then ['\\', 'n']
  else if char == '\r' then ['\\', 'r']
  else if isPrintable char then [char]
  else if char.toNat < 0x100 then '\\' :: 'x' :: hexDigits 2 char.toNat
  else if char.toNat < 0x10000 then '\\' :: 'u' :: hexDigits 4 char.toNat
  else '\\' :: 'U' :: hexDigits 8 char.toNat

/-- A surrogate by its number. -/
def surrogateEscape (point : CodePoint) : List Char :=
  '\\' :: 'u' :: hexDigits 4 point.number

/-- One code point of a literal between the given quotes. No surrogate is printable. -/
def literalPoint (quote : Char) : CodePoint → List Char
  | .plain char => literalChar quote char
  | point => surrogateEscape point

/-- The literal of a text. -/
def literal (text : String) : String :=
  let quote := literalQuote text.toList
  let points := codePoints text.toList
  String.ofList (quote :: points.flatMap (literalPoint quote) ++ [quote])

/-- A text with each surrogate replaced by its escape. -/
def escapeSurrogates (text : String) : String :=
  let shown (point : CodePoint) := if point.isSurrogate then surrogateEscape point else point.chars
  String.ofList ((codePoints text.toList).flatMap shown)

end DotLang.Text
