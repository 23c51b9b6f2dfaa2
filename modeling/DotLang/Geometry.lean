import DotLang.Number.Arithmetic
import DotLang.Value

/-!
# Typed geometry

A layout writes sizes and positions into attributes as text. Typed geometry
puts numbers, lists of numbers and edge positions in their place and writes
them as text again:

* `width` and `height` are numbers, multiplied by a scale;
* `bb` and `lp` are lists of numbers;
* `pos` is an edge position if it opens with a marker, and a list of numbers
  otherwise.

Text that should be a number and is none becomes NaN; blank text becomes no
value.
-/

namespace DotLang

/-- How the attributes of a model hold geometry. -/
inductive Geometry where
  /-- As the text of the document. -/
  | plain
  /-- As numbers, with the factor for sizes. -/
  | typed (scale : Number)

namespace Geometry

/-- Points to an inch: sizes are in inches and become points. -/
def defaultScale : Number := .float 72.0

/-- The attributes that hold a size. -/
def sizeNames : List String := ["width", "height"]

/-- The attributes that hold a list of coordinates. -/
def listNames : List String := ["bb", "lp"]

/-- The attribute that holds a position. -/
def positionName : String := "pos"

end Geometry

namespace Value

/-- Whether there is no value, or a blank text. -/
def isBlank : Value → Bool
  | .null => true
  | .text content => Text.isBlankText content
  | _ => false

/-- The number that a value is; truth values are zero and one. -/
def number? : Value → Option Number
  | .bool truth => some (.int truth.toNat)
  | .int number => some (.int number)
  | .float number => some (.float number)
  | _ => none

/-- The number that a value is, or a fault if it is none. -/
def number (value : Value) : Except NumberFault Number :=
  match value.number? with
  | some number => .ok number
  | none => .error (.notNumber value.typeName)

/-- The number that a text writes. -/
def readFloat? (value : Value) : Option Float :=
  if value.isBlank then none
  else some (readCoordinate (Text.trim Text.isBlank value.display.toList))

/-- The numbers that a text writes. -/
def readFloats? (value : Value) : Option (List Float) :=
  if value.isBlank then none else some ((Text.tokens value.display.toList).map readCoordinate)

/-- A list of doubles as a value. -/
def ofFloats (numbers : List Float) : Value :=
  .list (numbers.map .float)

/-- Whether a text opens with the marker of an edge position. -/
def opensEdgePos (text : String) : Bool :=
  EdgePos.markers.any fun marker => (marker ++ ",").toList.isPrefixOf text.toList

/-- The position that a text writes: an edge position or a list of numbers. -/
def readPosition (value : Value) : Value :=
  if value.isBlank then .null
  else
    let text := Text.strip value.display
    if opensEdgePos text then .edgePos (EdgePos.ofText text)
    else ((Value.text text).readFloats?.map ofFloats).getD .null

end Value

/-- The text of a coordinate: without a fraction it is written as an integer. -/
def numberText : Number → Except NumberFault String
  | .float number => .ok (coordinateText number)
  | .int number => do
      let _ ← (Number.int number).toFloat
      return intText number

/-- Whether coordinates make a point: there are two that are not NaN. -/
def isPoint : List Number → Except NumberFault Bool
  | horizontal :: vertical :: _ => do
      if ← horizontal.isNaN then return false
      return !(← vertical.isNaN)
  | _ => .ok false

namespace Geometry

/-- The typed form of an attribute. -/
def parse (geometry : Geometry) (name : String) (value : Value) : Except NumberFault Value :=
  match geometry with
  | .plain => .ok value
  | .typed scale =>
      if name ∈ sizeNames then
        match value.readFloat? with
        | some size => do return .float (← Number.scale size scale)
        | none => .ok .null
      else if name ∈ listNames then .ok ((value.readFloats?.map Value.ofFloats).getD .null)
      else if name = positionName then .ok value.readPosition
      else .ok value

/-- The text of a list of coordinates. -/
def listText (items : List Value) : Except NumberFault String := do
  let texts ← items.mapM fun item => do numberText (← item.number)
  return ",".intercalate texts

/-- The form of an attribute in a document. -/
def encode (geometry : Geometry) (name : String) (value : Value) : Except NumberFault Value :=
  match geometry with
  | .plain => .ok value
  | .typed scale =>
      let size? := if name ∈ sizeNames then value.number? else none
      match size?, value with
      | some size, _ => do return .text (coordinateText (← Number.quotient size scale))
      | none, .edgePos position => .ok (.text position.toText)
      | none, .list items =>
          if name ∈ listNames ∨ name = positionName then do return .text (← listText items)
          else .ok value
      | none, _ => .ok value

end Geometry

end DotLang
