import DotLang.Text.Blank
import DotLang.Text.Utf8

/-!
# Paths

A path is a row of names behind an optional root. The current folder `.` and
repeated slashes say nothing and are left out; a step up `..` is kept, because
where it leads depends on the folders that exist.
-/

namespace DotLang.CommandLine

/-- A path to a file or folder. -/
structure Path where
  /-- The slashes of an absolute path, or nothing. -/
  root : String
  /-- The names on the way, which may be `..`. -/
  names : List String
deriving DecidableEq, Repr

namespace Path

/-- The root of a path: exactly two slashes are kept, and more than two are one. -/
def rootOf : List Char → String
  | ['/', '/'] => "//"
  | '/' :: '/' :: third :: _ => if third = '/' then "/" else "//"
  | '/' :: _ => "/"
  | _ => ""

/-- Whether a piece names something. -/
def isName (piece : List Char) : Bool :=
  !piece.isEmpty && piece != ['.']

/-- The path that a text writes. -/
def ofText (text : String) : Path where
  root := rootOf text.toList
  names := ((Text.pieces (· == '/') text.toList).filter isName).map String.ofList

/-- The text of a path; a path that leads nowhere else is the current folder. -/
def toText (path : Path) : String :=
  if path.root.isEmpty && path.names.isEmpty then "."
  else path.root ++ "/".intercalate path.names

/-- Whether no name of a file can hold a code point. The upper surrogates from U+DC80 on stand for
single bytes of a name. -/
def isUnnameable (point : CodePoint) : Bool :=
  point.isSurrogate && !(0xdc80 ≤ point.number && point.number ≤ 0xdcff)

/-- Why a path cannot be encoded. -/
def unencodable? (path : Path) : Option Utf8.Unencodable :=
  Utf8.unencodable? isUnnameable path.toText

end Path

end DotLang.CommandLine
