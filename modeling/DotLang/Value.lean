import DotLang.EdgePos
import DotLang.OrderedMap
import DotLang.Text.Literal

/-!
# Attribute values

The values that an attribute can hold and that the tagged form of a tree is made
of: the data of a JSON document, raw markup, and the edge positions that typed
geometry puts in place of text.

A value has two texts. `display` is what is written where a value stands alone;
`literal` is how it appears inside a list, an object or a message.
-/

namespace DotLang

/-- An attribute value, or a piece of the tagged form of a tree. -/
inductive Value where
  /-- No value. -/
  | null
  /-- A truth value. -/
  | bool (truth : Bool)
  /-- An integer of any size. -/
  | int (number : Int)
  /-- A double. -/
  | float (number : Float)
  /-- A text. -/
  | text (content : String)
  /-- HTML-like text that is written between angle brackets as it stands. -/
  | markup (content : String)
  /-- The course of an edge. -/
  | edgePos (position : EdgePos)
  /-- A list of values. -/
  | list (items : List Value)
  /-- An object, its keys in order of first writing. -/
  | object (fields : List (String × Value))

namespace Value

instance : Inhabited Value := ⟨.null⟩

/-- Whether there is no value. -/
def isNull : Value → Bool
  | .null => true
  | _ => false

/-- Whether a value counts as true: all but nothing, false, zero and what is empty. -/
def isTruthy : Value → Bool
  | .null => false
  | .bool truth => truth
  | .int number => number != 0
  | .float number => number != 0.0
  | .text content => !content.isEmpty
  | .markup _ => true
  | .edgePos _ => true
  | .list items => !items.isEmpty
  | .object fields => !fields.isEmpty

/-- The name of a value's type in messages. -/
def typeName : Value → String
  | .null => "NoneType"
  | .bool _ => "bool"
  | .int _ => "int"
  | .float _ => "float"
  | .text _ => "str"
  | .markup _ => "Markup"
  | .edgePos _ => "EdgePos"
  | .list _ => "list"
  | .object _ => "dict"

/-- The value under a key; a missing key has no value. -/
def field (fields : List (String × Value)) (key : String) : Value :=
  (fields.lookup key).getD .null

/-- Texts between parentheses, with a comma after a single one. -/
def parenthesized : List String → String
  | [] => "()"
  | [single] => "(" ++ single ++ ",)"
  | several => "(" ++ ", ".intercalate several ++ ")"

/-- An edge position with all its parts. -/
def edgePosLiteral (position : EdgePos) : String :=
  let row (numbers : List Float) := parenthesized (numbers.map floatText)
  "EdgePos(marker=" ++ Text.literal position.marker ++
    ", origin=" ++ row [position.origin.1, position.origin.2] ++
    ", control_points=" ++ parenthesized (position.controlPoints.map row) ++
    ", arrow=" ++ row position.arrow ++ ")"

mutual

/-- The text of a value inside another value or a message. -/
def literal : Value → String
  | .null => "None"
  | .bool true => "True"
  | .bool false => "False"
  | .int number => intText number
  | .float number => floatText number
  | .text content => Text.literal content
  | .markup content => "Markup(value=" ++ Text.literal content ++ ")"
  | .edgePos position => edgePosLiteral position
  | .list items => "[" ++ ", ".intercalate (literalItems items) ++ "]"
  | .object fields => "\x7b" ++ ", ".intercalate (literalFields fields) ++ "\x7d"

/-- The literals of the items of a list. -/
def literalItems : List Value → List String
  | [] => []
  | item :: rest => literal item :: literalItems rest

/-- The fields of an object, each as the literals of key and value. -/
def literalFields : List (String × Value) → List String
  | [] => []
  | (key, value) :: rest => (Text.literal key ++ ": " ++ literal value) :: literalFields rest

end

/-- The text of a value that stands alone. Integers of any size are shown; the limit of the
interpreter on the digits of a shown integer is left out. -/
def display : Value → String
  | .text content => content
  | .markup content => content
  | .edgePos position => position.toText
  | value => literal value

/-- A truth value as the number zero or one. -/
def truthAsNumber : Value → Value
  | .bool truth => .int truth.toNat
  | value => value

/-- Whether two values are equal numbers; NaN counts as equal to itself. -/
def sameNumber (left right : Value) : Bool :=
  match left.truthAsNumber, right.truthAsNumber with
  | .int whole, .int other => whole == other
  | .float number, .float other => number == other || (number.isNaN && other.isNaN)
  | .int whole, .float number => (Binary.ofFloat? number).bind Binary.toInt? == some whole
  | .float number, .int whole => (Binary.ofFloat? number).bind Binary.toInt? == some whole
  | _, _ => false

mutual

/-- Structural equality: numbers by their size, objects regardless of order. -/
def same : Value → Value → Bool
  | .null, .null => true
  | .text left, .text right => left == right
  | .markup left, .markup right => left == right
  | .edgePos left, .edgePos right => left == right
  | .list left, .list right => sameItems left right
  | .object left, .object right => left.length == right.length && sameFields left right
  | left, right => sameNumber left right

/-- Whether two lists are of one length and equal item by item. -/
def sameItems : List Value → List Value → Bool
  | [], [] => true
  | left :: leftRest, right :: rightRest => same left right && sameItems leftRest rightRest
  | _, _ => false

/-- Whether every field on the left has an equal one on the right. -/
def sameFields : List (String × Value) → List (String × Value) → Bool
  | [], _ => true
  | (key, value) :: rest, others =>
      (match others.lookup key with
        | some other => same value other
        | none => false) && sameFields rest others

end

end Value

/-- Attributes: values by name, in the order in which the names were first written. -/
abbrev Attributes := OrderedMap String Value

namespace Attributes

/-- Writes the attributes of `source` that `target` lacks or holds without a value. -/
def fill (target source : Attributes) : Attributes :=
  OrderedMap.fill Value.isNull target source

end Attributes

end DotLang
