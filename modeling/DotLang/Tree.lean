import DotLang.Value

/-!
# Syntax trees

The statements of a DOT document as a tree: graphs and subgraphs with their
children, statements about nodes and edges, and statements that set default
attributes.

Whoever builds a tree by hand may put anything anywhere, so every position of
a tree holds a tree: node references, single attributes, statements that could
not be understood, foreign values and lists can stand where a statement or an
endpoint is expected. The operations on trees say what they make of them.
-/

namespace DotLang

/-- An attribute as it is listed in a statement. -/
structure Attr where
  /-- The name of the attribute. -/
  id : String
  /-- What stands behind the equals sign. -/
  value : Value := .null

/-- A reference to a node, with the port of the node that an edge attaches to. -/
structure NodeId where
  /-- The name of the node. -/
  id : String
  /-- The name of a port of the node. -/
  port : Option String := none
  /-- The compass point of the port or node. -/
  compass : Option String := none
deriving DecidableEq

/-- A statement of a DOT document, or what stands in the place of one. -/
inductive Tree where
  /-- A graph with its kind, `graph` or `digraph` in a document. -/
  | graph (kind : String) (id : Option String) (isStrict : Bool) (children : List Tree)
  /-- A subgraph. -/
  | subgraph (id : Option String) (children : List Tree)
  /-- A statement about the node that `subject` refers to. -/
  | nodeStmt (subject : Tree) (attrs : List Attr)
  /-- Edges along a chain of endpoints, each a node reference or a subgraph. -/
  | edgeStmt (endpoints : List Tree) (attrs : List Attr)
  /-- Default attributes for `graph`, `node` or `edge`. -/
  | attrStmt (target : String) (attrs : List Attr)
  /-- A node reference. -/
  | nodeId (node : NodeId)
  /-- A single attribute. -/
  | attr (entry : Attr)
  /-- A part of a tagged form that could not be understood, with its tag and the reason. -/
  | unknown (kind : Value) (data : Value) (reason : String)
  /-- A value that is no part of a syntax tree. -/
  | raw (value : Value)
  /-- A list of trees. -/
  | list (items : List Tree)

instance : Inhabited Tree := ⟨.list []⟩

namespace Tree

/-- The kinds of graphs. -/
def graphKinds : List String := ["graph", "digraph"]

/-- The targets of default attributes. -/
def attrTargets : List String := ["graph", "node", "edge"]

/-- The name of a tree's type in messages. -/
def typeName : Tree → String
  | .graph .. => "Graph"
  | .subgraph .. => "Subgraph"
  | .nodeStmt .. => "NodeStmt"
  | .edgeStmt .. => "EdgeStmt"
  | .attrStmt .. => "AttrStmt"
  | .nodeId _ => "NodeId"
  | .attr _ => "Attr"
  | .unknown .. => "UnknownStatement"
  | .raw value => value.typeName
  | .list _ => "list"

/-- The name that a tree in the place of a node reference gives the node. -/
def name? : Tree → Option String
  | .nodeId node => some node.id
  | .graph _ id _ _ => id
  | .subgraph id _ => id
  | .attr entry => some entry.id
  | _ => none

mutual

/-- A value in the place of a tree; a list becomes a list of trees. -/
def ofRaw : Value → Tree
  | .list items => .list (ofRawItems items)
  | value => .raw value

/-- The items of a list in the place of trees. -/
def ofRawItems : List Value → List Tree
  | [] => []
  | item :: rest => ofRaw item :: ofRawItems rest

end

/-- Whether two lists of attributes are equal. -/
def sameAttrs : List Attr → List Attr → Bool
  | [], [] => true
  | left :: leftRest, right :: rightRest =>
      left.id == right.id && left.value.same right.value && sameAttrs leftRest rightRest
  | _, _ => false

mutual

/-- Structural equality of trees. -/
def same : Tree → Tree → Bool
  | .graph kind id isStrict children, .graph kind' id' isStrict' children' =>
      kind == kind' && id == id' && isStrict == isStrict' && sameItems children children'
  | .subgraph id children, .subgraph id' children' => id == id' && sameItems children children'
  | .nodeStmt subject attrs, .nodeStmt subject' attrs' =>
      same subject subject' && sameAttrs attrs attrs'
  | .edgeStmt endpoints attrs, .edgeStmt endpoints' attrs' =>
      sameItems endpoints endpoints' && sameAttrs attrs attrs'
  | .attrStmt target attrs, .attrStmt target' attrs' =>
      target == target' && sameAttrs attrs attrs'
  | .nodeId node, .nodeId node' => node == node'
  | .attr entry, .attr entry' => sameAttrs [entry] [entry']
  | .unknown kind data reason, .unknown kind' data' reason' =>
      kind.same kind' && data.same data' && reason == reason'
  | .raw value, .raw value' => value.same value'
  | .list items, .list items' => sameItems items items'
  | _, _ => false

/-- Whether two lists of trees are equal. -/
def sameItems : List Tree → List Tree → Bool
  | [], [] => true
  | left :: leftRest, right :: rightRest => same left right && sameItems leftRest rightRest
  | _, _ => false

end

end Tree

end DotLang
