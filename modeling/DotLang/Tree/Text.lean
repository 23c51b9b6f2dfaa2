import DotLang.Tree
import DotLang.Tree.Token

/-!
# DOT text

A tree is written as lines of DOT text. A statement takes one line; a graph or
subgraph opens a block whose lines are one level deeper. A subgraph at the end
of an edge is written on the line of the edge instead. Trees that are no
statements have no text.
-/

namespace DotLang

/-- An endpoint that is neither a subgraph nor a node reference cannot be written. -/
structure MissingNode where
  /-- The tree in the place of the node reference. -/
  found : Tree

namespace Tree

/-- The indentation of a level; levels below zero have none. -/
def indentation (indent : String) (level : Int) : String :=
  String.join (List.replicate level.toNat indent)

/-- The text behind a keyword for a declared id. -/
def headText (keyword : String) (id : Option String) : String :=
  match id with
  | some id => keyword ++ " " ++ Token.ofText id
  | none => keyword

/-- What opens the block of a graph. -/
def graphHead (kind : String) (id : Option String) (isStrict : Bool) : String :=
  if isStrict then "strict " ++ headText kind id else headText kind id

/-- A further part of a node reference. -/
def nodePartText (part : Option String) : String :=
  match part with
  | some part => ":" ++ Token.ofText part
  | none => ""

/-- A node reference with its port and compass point. -/
def nodeIdText (node : NodeId) : String :=
  Token.ofText node.id ++ nodePartText node.port ++ nodePartText node.compass

/-- The text of a tree in the place of a node reference. -/
def referenceText : Tree → Except MissingNode String
  | .nodeId node => .ok (nodeIdText node)
  | tree => .error ⟨tree⟩

/-- The attributes of a statement in brackets; no attributes, no brackets. -/
def attrsText (attrs : List Attr) : String :=
  if attrs.isEmpty then ""
  else
    let entryText (entry : Attr) := Token.ofText entry.id ++ "=" ++ Token.ofValue entry.value
    " [" ++ ", ".intercalate (attrs.map entryText) ++ "]"

/-- The operator between the endpoints of an edge. -/
def edgeOperator (directed : Bool) : String :=
  if directed then " -> " else " -- "

/-- A block of lines behind its head. -/
def block (indent : String) (level : Int) (head : String) (body : List String) : List String :=
  (indentation indent level ++ head ++ " \x7b") :: body ++ [indentation indent level ++ "\x7d"]

/-- A block on one line. -/
def inlineBlock (head : String) (body : List String) : String :=
  let inside := " ".intercalate body
  if inside.isEmpty then head ++ " \x7b\x7d" else head ++ " \x7b " ++ inside ++ " \x7d"

mutual

/-- The lines of a tree at a level of indentation. -/
def lines (indent : String) (level : Int) (directed : Bool) :
    Tree → Except MissingNode (List String)
  | .graph kind id isStrict children => do
      let body ← linesOfItems indent (level + 1) (kind == "digraph") children
      return block indent level (graphHead kind id isStrict) body
  | .subgraph id children => do
      let body ← linesOfItems indent (level + 1) directed children
      return block indent level (headText "subgraph" id) body
  | .nodeStmt subject attrs => do
      let reference ← referenceText subject
      return [indentation indent level ++ reference ++ attrsText attrs ++ ";"]
  | .edgeStmt endpoints attrs => do
      let parts ← endpointTexts directed endpoints
      let chain := (edgeOperator directed).intercalate parts
      return [indentation indent level ++ chain ++ attrsText attrs ++ ";"]
  | .attrStmt target attrs => .ok [indentation indent level ++ target ++ attrsText attrs ++ ";"]
  | .nodeId node => .ok [indentation indent level ++ nodeIdText node]
  | .attr _ => .ok []
  | .unknown .. => .ok []
  | .raw _ => .ok []
  | .list items => linesOfItems indent level directed items
termination_by structural tree => tree

/-- The lines of several trees at one level of indentation. -/
def linesOfItems (indent : String) (level : Int) (directed : Bool) :
    List Tree → Except MissingNode (List String)
  | [] => .ok []
  | tree :: rest => do
      let first ← lines indent level directed tree
      return first ++ (← linesOfItems indent level directed rest)
termination_by structural items => items

/-- The text of an endpoint on the line of its edge. -/
def endpointText (directed : Bool) : Tree → Except MissingNode String
  | .subgraph id children => do
      return inlineBlock (headText "subgraph" id) (← linesOfItems "" 0 directed children)
  | tree => referenceText tree
termination_by structural tree => tree

/-- The texts of the endpoints of an edge. -/
def endpointTexts (directed : Bool) : List Tree → Except MissingNode (List String)
  | [] => .ok []
  | tree :: rest => do
      let first ← endpointText directed tree
      return first :: (← endpointTexts directed rest)
termination_by structural items => items

end

/-- The DOT text of a tree. Outside of any graph, edges are written as `directed` says. -/
def toText (indent : String) (level : Int) (directed : Bool) (tree : Tree) :
    Except MissingNode String := do
  return "\n".intercalate (← lines indent level directed tree)

end Tree

end DotLang
