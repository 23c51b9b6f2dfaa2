/-!
# Blanks and tokens

Which characters count as blank, how blanks are trimmed from the ends of a
text, and how a text of coordinates falls apart into tokens at blanks and
commas.
-/

namespace DotLang.Text

/-- The characters with the Unicode property `White_Space`. -/
def isWhiteSpace (char : Char) : Bool :=
  let code := char.toNat
  (0x09 ≤ code && code ≤ 0x0d) || code == 0x20 || code == 0x85 || code == 0xa0 ||
    code == 0x1680 || (0x2000 ≤ code && code ≤ 0x200a) || code == 0x2028 || code == 0x2029 ||
    code == 0x202f || code == 0x205f || code == 0x3000

/-- The blanks: white space and the four information separators `U+001C` to `U+001F`. -/
def isBlank (char : Char) : Bool :=
  isWhiteSpace char || (0x1c ≤ char.toNat && char.toNat ≤ 0x1f)

/-- Drops the characters of a class from both ends. -/
def trim (dropped : Char → Bool) (chars : List Char) : List Char :=
  ((chars.dropWhile dropped).reverse.dropWhile dropped).reverse

/-- A text without the blanks at its ends. -/
def strip (text : String) : String :=
  String.ofList (trim isBlank text.toList)

/-- Whether a text holds nothing but blanks. -/
def isBlankText (text : String) : Bool :=
  text.toList.all isBlank

/-- The characters between two coordinates. -/
def isSeparator (char : Char) : Bool :=
  isBlank char || char == ','

/-- The runs of characters between neighbouring separators, the empty runs included. -/
def pieces (separates : Char → Bool) : List Char → List (List Char)
  | [] => [[]]
  | char :: rest =>
      if separates char then [] :: pieces separates rest
      else
        match pieces separates rest with
        | [] => [[char]]
        | first :: others => (char :: first) :: others

/-- The maximal non-empty runs of characters that are not separators. -/
def tokens (chars : List Char) : List (List Char) :=
  (pieces isSeparator chars).filter fun piece => !piece.isEmpty

end DotLang.Text
