import DotLang.Value

/-!
# Reading JSON

A JSON document is read into a `Value`. Objects become objects in which
the last value of a repeated key stands at the place of its first. Numbers
without fraction and exponent are integers of any size; `NaN`, `Infinity` and
`-Infinity` are numbers too.

An escape may name a surrogate that is no half of a pair. It is kept in the text as
the code point that it is.

A document that is not JSON has exactly one fault: the first one met from the
left, with the place where reading stopped.
-/

namespace DotLang.Json

/-- What is wrong at the place where reading stopped. -/
inductive Fault where
  | byteOrderMark
  | value
  | propertyName
  | colon
  | comma
  | extraData
  | unterminatedString
  | controlCharacter
  | escape
  | unicodeEscape
  /-- An integer with more digits than are converted. -/
  | oversizedInteger
deriving DecidableEq, Repr

/-- The wording of a fault. -/
def Fault.wording : Fault → String
  | .byteOrderMark => "Unexpected UTF-8 BOM (decode using utf-8-sig)"
  | .value => "Expecting value"
  | .propertyName => "Expecting property name enclosed in double quotes"
  | .colon => "Expecting ':' delimiter"
  | .comma => "Expecting ',' delimiter"
  | .extraData => "Extra data"
  | .unterminatedString => "Unterminated string starting at"
  | .controlCharacter => "Invalid control character at"
  | .escape => "Invalid \\escape"
  | .unicodeEscape => "Invalid \\uXXXX escape"
  | .oversizedInteger => "Exceeds the limit (4300 digits) for integer string conversion"

/-- A fault and the number of characters before it. -/
structure SyntaxError where
  fault : Fault
  position : Nat
deriving DecidableEq, Repr

/-- The fault with the line and column of its place in the document, counted in code points. -/
def SyntaxError.message (error : SyntaxError) (document : String) : String :=
  let before := Text.codePoints (document.toList.take error.position)
  let line := before.count (.plain '\n') + 1
  let column := (before.reverse.takeWhile (· != .plain '\n')).length + 1
  error.fault.wording ++ ": line " ++ toString line ++ " column " ++ toString column ++
    " (char " ++ toString before.length ++ ")"

/-- The part of a document that is still to be read. -/
structure Input where
  /-- The number of characters read. -/
  position : Nat
  /-- The characters that follow. -/
  rest : List Char

/-- A reader takes what it reads off the front of the input, or stops with a fault. -/
abbrev Reader := StateT Input (Except SyntaxError)

/-- The input behind the next `count` characters. -/
def Input.advance (input : Input) (count : Nat) : Input :=
  ⟨input.position + count, input.rest.drop count⟩

/-- Whether the input goes on with the given characters. -/
def Input.startsWith (input : Input) (word : List Char) : Bool :=
  word.isPrefixOf input.rest

/-- Reading stops with a fault at the given place. -/
def fail {α : Type} (fault : Fault) (position : Nat) : Reader α :=
  throw ⟨fault, position⟩

/-- Passes over the next `count` characters. -/
def skip (count : Nat) : Reader Unit :=
  modify fun input => input.advance count

/-- The blanks between the parts of a document. -/
def isBlank (char : Char) : Bool :=
  char == ' ' || char == '\t' || char == '\n' || char == '\r'

/-- Passes over blanks. -/
def skipBlanks : Reader Unit :=
  modify fun input => input.advance (input.rest.takeWhile isBlank).length

/-- The value of a digit to base sixteen. -/
def hexValue? (char : Char) : Option Nat :=
  let code := char.toNat
  if 48 ≤ code && code ≤ 57 then some (code - 48)
  else if 97 ≤ code && code ≤ 102 then some (code - 87)
  else if 65 ≤ code && code ≤ 70 then some (code - 55)
  else none

/-- The number written by four hexadecimal digits at the front. -/
def fourHex? (chars : List Char) : Option Nat :=
  match (chars.take 4).map hexValue? with
  | [some first, some second, some third, some fourth] =>
      some (((first * 16 + second) * 16 + third) * 16 + fourth)
  | _ => none

/-- Whether a code unit opens a surrogate pair. -/
def isHighSurrogate (unit : Nat) : Bool := 0xd800 ≤ unit && unit < 0xdc00

/-- Whether a code unit closes a surrogate pair. -/
def isLowSurrogate (unit : Nat) : Bool := 0xdc00 ≤ unit && unit < 0xe000

/-- Reads the four digits behind `\u`; at least one more character has to follow them. -/
def readUnit : Reader Nat := do
  let input ← get
  match fourHex? input.rest with
  | some unit =>
      if (input.rest.drop 4).isEmpty then fail .unicodeEscape (input.position - 1)
      skip 4
      return unit
  | none => fail .unicodeEscape (input.position - 1)

/-- Reads the digits behind `\u`, with the second escape that completes a surrogate pair. A
surrogate without its other half stays one. -/
def readUnicodeEscape : Reader CodePoint := do
  let unit ← readUnit
  let behind ← get
  if isHighSurrogate unit && !(behind.rest.drop 6).isEmpty && behind.startsWith ['\\', 'u'] then
    skip 2
    let second ← readUnit
    if isLowSurrogate second then
      return .ofNumber (0x10000 + (unit - 0xd800) * 0x400 + (second - 0xdc00))
    set behind
  return .ofNumber unit

/-- The character that an escape of one letter stands for. -/
def simpleEscape? : Char → Option Char
  | '"' => some '"'
  | '\\' => some '\\'
  | '/' => some '/'
  | 'b' => some '\x08'
  | 'f' => some '\x0c'
  | 'n' => some '\n'
  | 'r' => some '\r'
  | 't' => some '\t'
  | _ => none

/-- Reads the characters of a string up to its closing quote. `opening` is the place of the
opening quote; `fuel` bounds the number of characters. -/
def readStringBody (opening : Nat) : (fuel : Nat) → Reader (List Char)
  | 0 => fail .unterminatedString opening
  | fuel + 1 => do
      let input ← get
      match input.rest with
      | [] => fail .unterminatedString opening
      | '"' :: _ =>
          skip 1
          return []
      | ['\\'] => fail .unterminatedString opening
      | '\\' :: 'u' :: _ =>
          skip 2
          let point ← readUnicodeEscape
          return point.chars ++ (← readStringBody opening fuel)
      | '\\' :: letter :: _ =>
          match simpleEscape? letter with
          | none => fail .escape input.position
          | some char =>
              skip 2
              return char :: (← readStringBody opening fuel)
      | char :: _ =>
          if char.toNat < 0x20 then fail .controlCharacter input.position
          skip 1
          return char :: (← readStringBody opening fuel)

/-- Reads a string; the input stands at its opening quote. `fuel` bounds the number of
characters. -/
def readString (fuel : Nat) : Reader String := do
  let opening := (← get).position
  skip 1
  return String.ofList (← readStringBody opening fuel)

/-- The parts of a number: sign, whole digits, fraction and exponent, each as it is written. -/
structure NumberParts where
  sign : List Char
  whole : List Char
  fraction : List Char
  exponent : List Char

/-- All characters of a number. -/
def NumberParts.chars (parts : NumberParts) : List Char :=
  parts.sign ++ parts.whole ++ parts.fraction ++ parts.exponent

/-- A sign at the front. -/
def signChars : List Char → List Char
  | '-' :: _ => ['-']
  | '+' :: _ => ['+']
  | _ => []

/-- The digits of a whole number at the front: a single zero, or digits without leading zero. -/
def wholeChars : List Char → List Char
  | '0' :: _ => ['0']
  | chars => chars.takeWhile Char.isDigit

/-- A point with digits at the front. -/
def fractionChars : List Char → List Char
  | '.' :: rest =>
      let digits := rest.takeWhile Char.isDigit
      if digits.isEmpty then [] else '.' :: digits
  | _ => []

/-- An exponent with digits at the front. -/
def exponentChars : List Char → List Char
  | [] => []
  | mark :: rest =>
      let sign := signChars rest
      let digits := (rest.drop sign.length).takeWhile Char.isDigit
      if (mark == 'e' || mark == 'E') && !digits.isEmpty then mark :: sign ++ digits else []

/-- The longest number at the front. -/
def numberParts? (chars : List Char) : Option NumberParts :=
  let sign := if chars.head? == some '-' then ['-'] else []
  let unsigned := chars.drop sign.length
  let whole := wholeChars unsigned
  let afterWhole := unsigned.drop whole.length
  let fraction := fractionChars afterWhole
  let exponent := exponentChars (afterWhole.drop fraction.length)
  if whole.isEmpty then none else some { sign, whole, fraction, exponent }

/-- An integer with more digits than this is refused. -/
def maxIntegerDigits : Nat := 4300

/-- Reads a number; anything else is not a value. -/
def readNumber : Reader Value := do
  let input ← get
  match numberParts? input.rest with
  | none => fail .value input.position
  | some parts =>
      skip parts.chars.length
      if parts.fraction.isEmpty && parts.exponent.isEmpty then
        if maxIntegerDigits < parts.whole.length then fail .oversizedInteger input.position
        let magnitude : Int := FloatText.digitsValue parts.whole
        return .int (if parts.sign.isEmpty then magnitude else -magnitude)
      else
        return .float ((FloatText.read? parts.chars).getD 0.0)

/-- The words that are values, with what they stand for. -/
def words : List (String × Value) := [
  ("null", .null),
  ("true", .bool true),
  ("false", .bool false),
  ("NaN", .float (0.0 / 0.0)),
  ("Infinity", .float (1.0 / 0.0)),
  ("-Infinity", .float (-1.0 / 0.0))]

/-- Reads a value that is neither list nor object nor string. -/
def readScalar : Reader Value := do
  let input ← get
  match words.find? fun (word, _) => input.startsWith word.toList with
  | some (word, value) =>
      skip word.length
      return value
  | none => readNumber

mutual

/-- Reads a value at the front of the input. `fuel` bounds the number of characters: every value
and every separator costs at least one character and at most two units of fuel. -/
def readValue : (fuel : Nat) → Reader Value
  | 0 => do fail .value (← get).position
  | fuel + 1 => do
      match (← get).rest with
      | '"' :: _ => return .text (← readString fuel)
      | '[' :: _ =>
          skip 1
          skipBlanks
          if (← get).startsWith [']'] then
            skip 1
            return .list []
          return .list (← readItems fuel)
      | '\x7b' :: _ =>
          skip 1
          skipBlanks
          if (← get).startsWith ['\x7d'] then
            skip 1
            return .object []
          return .object (OrderedMap.ofList (← readFields fuel)).entries
      | _ => readScalar

/-- Reads the items of a list up to its closing bracket. -/
def readItems : (fuel : Nat) → Reader (List Value)
  | 0 => do fail .value (← get).position
  | fuel + 1 => do
      let item ← readValue fuel
      skipBlanks
      let next ← get
      match next.rest with
      | ']' :: _ =>
          skip 1
          return [item]
      | ',' :: _ =>
          skip 1
          skipBlanks
          return item :: (← readItems fuel)
      | _ => fail .comma next.position

/-- Reads the fields of an object up to its closing brace. -/
def readFields : (fuel : Nat) → Reader (List (String × Value))
  | 0 => do fail .propertyName (← get).position
  | fuel + 1 => do
      let start ← get
      if !start.startsWith ['"'] then fail .propertyName start.position
      let key ← readString fuel
      skipBlanks
      let separator ← get
      if !separator.startsWith [':'] then fail .colon separator.position
      skip 1
      skipBlanks
      let value ← readValue fuel
      skipBlanks
      let next ← get
      match next.rest with
      | '\x7d' :: _ =>
          skip 1
          return [(key, value)]
      | ',' :: _ =>
          skip 1
          skipBlanks
          return (key, value) :: (← readFields fuel)
      | _ => fail .comma next.position

end

/-- Reads a whole document: one value with blanks around it. -/
def readDocument (fuel : Nat) : Reader Value := do
  if (← get).startsWith ['\ufeff'] then fail .byteOrderMark 0
  skipBlanks
  let value ← readValue fuel
  skipBlanks
  let last ← get
  if !last.rest.isEmpty then fail .extraData last.position
  return value

/-- The value of a document, or its first fault. -/
def read (document : String) : Except SyntaxError Value :=
  let chars := document.toList
  (readDocument (2 * chars.length + 2)).run' ⟨0, chars⟩

end DotLang.Json
