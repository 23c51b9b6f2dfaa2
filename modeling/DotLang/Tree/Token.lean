import DotLang.Value

/-!
# Tokens

How a name or a value becomes one token of a DOT document. Letters and digits
stand alone, markup stands between angle brackets, and all else is quoted. In
quotes only the quote itself is escaped; a backslash is kept, but an odd run
of backslashes at the end gets one more, so that it cannot escape the closing
quote.
-/

namespace DotLang.Token

/-- The words that mean something else when they stand alone. -/
def reservedWords : List String :=
  ["graph", "digraph", "subgraph", "node", "edge", "strict"]

/-- Whether a text can stand without quotes. -/
def isBare (text : String) : Bool :=
  !text.isEmpty && text.toList.all Char.isAlphanum && !reservedWords.contains text

/-- Puts a backslash before every quote. -/
def escapeQuotes (chars : List Char) : List Char :=
  chars.flatMap fun char => if char = '"' then ['\\', '"'] else [char]

/-- The length of the run of backslashes at the end. -/
def trailingBackslashes (chars : List Char) : Nat :=
  (chars.reverse.takeWhile (· = '\\')).length

/-- Makes the run of backslashes at the end even. -/
def evenBackslashes (chars : List Char) : List Char :=
  if trailingBackslashes chars % 2 = 1 then chars ++ ['\\'] else chars

/-- The characters of a text between quotes. -/
def quoted (chars : List Char) : List Char :=
  '"' :: evenBackslashes (escapeQuotes chars) ++ ['"']

/-- The token of a text. -/
def ofText (text : String) : String :=
  if isBare text then text else String.ofList (quoted text.toList)

/-- The token of a value. -/
def ofValue : Value → String
  | .null => "\"\""
  | .markup content => "<" ++ content ++ ">"
  | value => ofText value.display

end DotLang.Token
