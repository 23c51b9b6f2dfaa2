import DotLang.Number.Notation
import DotLang.Number.Reading

/-!
# Edge positions

A layout describes the course of an edge by a marker and a row of numbers: the
origin of the edge, control points in groups of six numbers, and an arrow of
four numbers whose last two are the target. This module reads such a row,
writes it again, and gives the reading and writing of single coordinates.

A row is written with the target only, not with the whole arrow, so reading a
written row regroups its last numbers.
-/

namespace DotLang

/-- The coordinate that a token writes; anything else than a number reads as NaN. -/
def readCoordinate (token : List Char) : Float :=
  (FloatText.read? token).getD (0.0 / 0.0)

/-- A coordinate: without a fraction it is written as an integer. -/
def coordinateText (number : Float) : String :=
  match (Binary.ofFloat? number).bind Binary.toInt? with
  | some whole => intText whole
  | none => floatText number

/-- The course of an edge in a layout. -/
structure EdgePos where
  /-- The first token of the row; layouts write `e` or `s`. -/
  marker : String
  /-- Where the edge starts. -/
  origin : Float × Float
  /-- The control points between origin and arrow, six numbers to a group. -/
  controlPoints : List (List Float) := []
  /-- The numbers at the end of the row, at most four when read. -/
  arrow : List Float := []
deriving DecidableEq

namespace EdgePos

/-- The marker of an edge position without any token. -/
def defaultMarker : String := "e"

/-- The markers that open an edge position rather than a plain point. -/
def markers : List String := ["e", "s"]

/-- How many numbers make a control group. -/
def groupSize : Nat := 6

/-- How many numbers make an arrow. -/
def arrowSize : Nat := 4

/-- Takes groups of six numbers from the front as long as four numbers are left for the arrow.
Returns the groups and the numbers behind them. -/
def splitGroups : List Float → List (List Float) × List Float
  | first :: second :: third :: fourth :: fifth :: sixth :: rest =>
      if arrowSize ≤ rest.length then
        let (groups, tail) := splitGroups rest
        ([first, second, third, fourth, fifth, sixth] :: groups, tail)
      else ([], first :: second :: third :: fourth :: fifth :: sixth :: rest)
  | numbers => ([], numbers)

/-- The last four numbers, or all if there are fewer. -/
def lastFour (numbers : List Float) : List Float :=
  numbers.drop (numbers.length - arrowSize)

/-- The edge position with a marker and a row of numbers. Numbers that fill no group and stand
before the arrow are dropped. -/
def ofNumbers (marker : String) (numbers : List Float) : EdgePos :=
  let origin :=
    match numbers with
    | horizontal :: vertical :: _ => (horizontal, vertical)
    | _ => (0.0 / 0.0, 0.0 / 0.0)
  let (groups, tail) := splitGroups (numbers.drop 2)
  { marker, origin, controlPoints := groups, arrow := lastFour tail }

/-- Reads an edge position; tokens that are no numbers become NaN. -/
def ofText (text : String) : EdgePos :=
  match Text.tokens text.toList with
  | [] => ofNumbers defaultMarker []
  | marker :: rest => ofNumbers (String.ofList marker) (rest.map readCoordinate)

/-- The last two numbers of the arrow. -/
def target? (position : EdgePos) : Option (Float × Float) :=
  match position.arrow.reverse with
  | vertical :: horizontal :: _ => some (horizontal, vertical)
  | _ => none

/-- The numbers that are written: origin, control points and target. -/
def writtenNumbers (position : EdgePos) : List Float :=
  let target :=
    match position.target? with
    | some (horizontal, vertical) => [horizontal, vertical]
    | none => []
  [position.origin.1, position.origin.2] ++ position.controlPoints.flatten ++ target

/-- The marker and the written numbers, between commas. -/
def toText (position : EdgePos) : String :=
  ",".intercalate (position.marker :: position.writtenNumbers.map coordinateText)

end EdgePos

end DotLang
