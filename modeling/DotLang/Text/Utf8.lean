import DotLang.Number.Power
import DotLang.Text.Literal

/-!
# UTF-8

Bytes are decoded into characters, or the first bytes that belong to no
character are named with the reason. A text can be encoded unless it holds a lone
surrogate.
-/

namespace DotLang.Utf8

/-- Why bytes belong to no character. -/
inductive Reason where
  | invalidStart
  | invalidContinuation
  | unexpectedEnd
deriving DecidableEq, Repr

/-- The wording of a reason. -/
def Reason.message : Reason → String
  | .invalidStart => "invalid start byte"
  | .invalidContinuation => "invalid continuation byte"
  | .unexpectedEnd => "unexpected end of data"

/-- The first undecodable bytes: where they start, how many they are, and which byte is first. -/
structure Fault where
  position : Nat
  length : Nat
  byte : Nat
  reason : Reason
deriving DecidableEq, Repr

/-- The wording of a fault. -/
def Fault.message (fault : Fault) : String :=
  let place :=
    if fault.length = 1 then
      "byte 0x" ++ String.ofList (Text.hexDigits 2 fault.byte) ++
        " in position " ++ toString fault.position
    else
      "bytes in position " ++ toString fault.position ++ "-" ++
        toString (fault.position + fault.length - 1)
  "'utf-8' codec can't decode " ++ place ++ ": " ++ fault.reason.message

/-- Whether a byte continues a character. -/
def isContinuation (byte : Nat) : Bool :=
  0x80 ≤ byte && byte < 0xc0

/-- Whether a byte can stand second behind the given first byte. The second byte excludes what a
shorter form could write, the surrogates, and code points beyond the last. -/
def isSecond (first second : Nat) : Bool :=
  isContinuation second &&
    !((first == 0xe0 && second < 0xa0) || (first == 0xed && 0xa0 ≤ second) ||
      (first == 0xf0 && second < 0x90) || (first == 0xf4 && 0x90 ≤ second))

/-- How many bytes a character has that starts with the given byte. -/
def sequenceLength? (first : Nat) : Option Nat :=
  if first < 0x80 then some 1
  else if first < 0xc2 then none
  else if first < 0xe0 then some 2
  else if first < 0xf0 then some 3
  else if first < 0xf5 then some 4
  else none

/-- How many bytes at the front of what follows the first byte continue its character. -/
def continuations (first : Nat) : List Nat → Nat
  | [] => 0
  | second :: rest =>
      if isSecond first second then 1 + (rest.takeWhile isContinuation).length else 0

/-- The code point of a character with the given first byte and continuation bytes. -/
def codePoint (first length : Nat) (following : List Nat) : Nat :=
  let lead := if length = 1 then first else first % twoPow (7 - length)
  following.foldl (fun code byte => code * 64 + byte % 64) lead

/-- Decodes the character at the front, or says how many bytes are undecodable and why. -/
def decodeChar (first : Nat) (rest : List Nat) : Except (Nat × Reason) (Char × Nat) :=
  match sequenceLength? first with
  | none => .error (1, .invalidStart)
  | some length =>
      let found := min (continuations first rest) (length - 1)
      if found = length - 1 then .ok (Char.ofNat (codePoint first length (rest.take found)), found)
      else if rest.length = found then .error (found + 1, .unexpectedEnd)
      else .error (found + 1, .invalidContinuation)

/-- Decodes the bytes from a position on; `fuel` bounds their number. -/
def decodeFrom : (fuel position : Nat) → List Nat → Except Fault (List Char)
  | 0, _, _ => .ok []
  | _, _, [] => .ok []
  | fuel + 1, position, first :: rest =>
      match decodeChar first rest with
      | .ok (char, found) => do
          return char :: (← decodeFrom fuel (position + found + 1) (rest.drop found))
      | .error (length, reason) => .error { position, length, byte := first, reason }

/-- Decodes a text. -/
def decode (bytes : List UInt8) : Except Fault String := do
  let chars ← decodeFrom bytes.length 0 (bytes.map UInt8.toNat)
  return Text.ofUnicode (String.ofList chars)

/-- The first surrogates in a row that cannot be encoded: how many code points stand before them,
how many they are, and which is first. -/
structure Unencodable where
  position : Nat
  length : Nat
  first : CodePoint
deriving DecidableEq, Repr

/-- The wording for surrogates that cannot be encoded. -/
def Unencodable.message (fault : Unencodable) : String :=
  let place :=
    if fault.length = 1 then
      "character '" ++ String.ofList (Text.surrogateEscape fault.first) ++
        "' in position " ++ toString fault.position
    else
      "characters in position " ++ toString fault.position ++ "-" ++
        toString (fault.position + fault.length - 1)
  "'utf-8' codec can't encode " ++ place ++ ": surrogates not allowed"

/-- Why a text cannot be encoded where the given code points are refused. -/
def unencodable? (isRefused : CodePoint → Bool) (text : String) : Option Unencodable :=
  let points := Text.codePoints text.toList
  let before := points.takeWhile fun point => !isRefused point
  match points.drop before.length with
  | [] => none
  | first :: rest =>
      some { position := before.length, length := 1 + (rest.takeWhile CodePoint.isSurrogate).length,
             first }

/-- How many bytes a text has. A surrogate is counted as the one byte that it stands for in the
name of a file. -/
def size (text : String) : Nat :=
  let bytes (point : CodePoint) := (point.plainChar?.map Char.utf8Size).getD 1
  (Text.codePoints text.toList).foldl (fun total point => total + bytes point) 0

end DotLang.Utf8
