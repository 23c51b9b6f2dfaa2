import DotLang.Value

/-!
# Writing JSON

A `Value` is written as a JSON document in ASCII, either on one line or with
one item to a line. Markup and edge positions, for which JSON has no form, are
written as their texts.
-/

namespace DotLang.Json

/-- One code unit of sixteen bits as an escape. -/
def unitEscape (unit : Nat) : List Char :=
  '\\' :: 'u' :: Text.hexDigits 4 unit

/-- One character inside a string. -/
def escapeChar (char : Char) : List Char :=
  let code := char.toNat
  if char == '"' || char == '\\' then ['\\', char]
  else if char == '\n' then ['\\', 'n']
  else if char == '\r' then ['\\', 'r']
  else if char == '\t' then ['\\', 't']
  else if code == 0x08 then ['\\', 'b']
  else if code == 0x0c then ['\\', 'f']
  else if 0x20 ≤ code && code < 0x7f then [char]
  else if code < 0x10000 then unitEscape code
  else
    let offset := code - 0x10000
    unitEscape (0xd800 + offset / 0x400) ++ unitEscape (0xdc00 + offset % 0x400)

/-- One code point inside a string. -/
def escapePoint : CodePoint → List Char
  | .plain char => escapeChar char
  | point => unitEscape point.number

/-- A text as a string. -/
def stringText (content : String) : String :=
  String.ofList ('"' :: (Text.codePoints content.toList).flatMap escapePoint ++ ['"'])

/-- A double; the values beyond the finite ones are written as words. -/
def floatText (number : Float) : String :=
  if number.isNaN then "NaN"
  else if number.isInf then (if number < 0 then "-Infinity" else "Infinity")
  else DotLang.floatText number

/-- How the items of a list or an object are laid out. -/
inductive Layout where
  /-- All on one line. -/
  | compact
  /-- Each on a line of its own, indented by two spaces a level. -/
  | indented
deriving DecidableEq

/-- Items between brackets at a level of nesting. -/
def enclose (layout : Layout) (level : Nat) (opening closing : String) :
    List String → String
  | [] => opening ++ closing
  | items =>
      match layout with
      | .compact => opening ++ ", ".intercalate items ++ closing
      | .indented =>
          let newline (depth : Nat) := "\n" ++ String.ofList (List.replicate (2 * depth) ' ')
          opening ++ newline (level + 1) ++ ("," ++ newline (level + 1)).intercalate items ++
            newline level ++ closing

mutual

/-- Writes a value at a level of nesting. -/
def writeAt (layout : Layout) (level : Nat) : Value → String
  | .null => "null"
  | .bool true => "true"
  | .bool false => "false"
  | .int number => intText number
  | .float number => floatText number
  | .text content => stringText content
  | .markup content => stringText content
  | .edgePos position => stringText position.toText
  | .list items => enclose layout level "[" "]" (writeItems layout (level + 1) items)
  | .object fields => enclose layout level "\x7b" "\x7d" (writeFields layout (level + 1) fields)

/-- Writes the items of a list. -/
def writeItems (layout : Layout) (level : Nat) : List Value → List String
  | [] => []
  | item :: rest => writeAt layout level item :: writeItems layout level rest

/-- Writes the fields of an object. -/
def writeFields (layout : Layout) (level : Nat) : List (String × Value) → List String
  | [] => []
  | (key, value) :: rest =>
      (stringText key ++ ": " ++ writeAt layout level value) :: writeFields layout level rest

end

/-- The document of a value. -/
def write (layout : Layout) (value : Value) : String :=
  writeAt layout 0 value

end DotLang.Json
