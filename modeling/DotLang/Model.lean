import DotLang.Forest

/-!
# The resolved model

What a document describes once all default attributes are resolved: nodes with
their final attributes, edges, and the nesting of subgraphs, one of which may be
the root.

Edges are kept in the order of their creation, and the number of an edge is its
place in that order. The index groups the numbers by end points; edges are
listed group by group, in the order in which the pairs of end points first
occurred.
-/

namespace DotLang

/-- A node with its resolved attributes. -/
structure Node where
  /-- The name of the node. -/
  id : String
  /-- The attributes of the node. -/
  attrs : Attributes := ∅

/-- An edge with its resolved attributes. -/
structure Edge where
  /-- The name of the node where the edge starts. -/
  tail : String
  /-- The name of the node where the edge ends. -/
  head : String
  /-- The attributes of the edge. -/
  attrs : Attributes := ∅

/-- The end points of an edge; parallel edges share them. -/
def Edge.key (edge : Edge) : String × String :=
  (edge.tail, edge.head)

/-- The resolved model of a document. -/
structure Model where
  /-- The nodes by name. -/
  nodes : OrderedMap String Node := ∅
  /-- The edges in the order of their creation. -/
  edges : List Edge := []
  /-- The subgraphs by key. -/
  graphs : Forest := ∅
  /-- The key of the root subgraph. -/
  root : Option String := none
  /-- The declared id of the root. -/
  id : Option String := none
  /-- The kind of the root. -/
  kind : String := "digraph"
  /-- Whether the graph was declared strict. -/
  isStrict : Bool := false
  /-- A message for each statement that was skipped. -/
  diagnostics : List String := []

namespace Model

instance : EmptyCollection Model := ⟨{}⟩
instance : Inhabited Model := ⟨∅⟩

/-- Whether edges have a direction. -/
def isDirected (model : Model) : Bool :=
  model.kind == "digraph"

/-- Adds a number to the group of its end points. -/
def indexEdge (index : OrderedMap (String × String) (List Nat)) (edge : Edge) (number : Nat) :
    OrderedMap (String × String) (List Nat) :=
  index.insert edge.key ((index.get? edge.key).getD [] ++ [number])

/-- The numbers of the edges by end points. -/
def edgeIndex (model : Model) : OrderedMap (String × String) (List Nat) :=
  model.edges.zipIdx.foldl (fun index (edge, number) => indexEdge index edge number) ∅

/-- The numbers of all edges, group by group. -/
def edgeOrder (model : Model) : List Nat :=
  model.edgeIndex.values.flatten

/-- The edges with the given numbers. -/
def edgesAt (model : Model) (numbers : List Nat) : List Edge :=
  numbers.filterMap fun number => model.edges[number]?

/-- All edges, group by group. -/
def edgeList (model : Model) : List Edge :=
  model.edgesAt model.edgeOrder

/-- The edges from one node to another in the order of their creation. -/
def getEdges (model : Model) (tail head : String) : List Edge :=
  model.edgesAt ((model.edgeIndex.get? (tail, head)).getD [])

/-- Puts a node in the place of any node with its name. -/
def putNode (model : Model) (node : Node) : Model :=
  { model with nodes := model.nodes.insert node.id node }

/-- Creates edges that belong to no subgraph. -/
def addEdges (model : Model) (edges : List Edge) : Model :=
  { model with edges := model.edges ++ edges }

/-- Lists a node as a member of a subgraph. -/
def addMember (model : Model) (key node : String) : Model :=
  { model with graphs := model.graphs.modify key fun subgraph => subgraph.addNode node }

/-- Whether another subgraph than the given one is the root. -/
def hasOtherRoot (model : Model) (key : String) : Bool :=
  match model.root with
  | some root => root != key
  | none => false

/-- Makes a subgraph the root. Once there is a root no other subgraph becomes it, but the root
itself can be set again, which takes over its kind and strictness. -/
def setRoot (model : Model) (key : String) (isStrict : Bool) : Model :=
  if model.hasOtherRoot key then model
  else
    match model.graphs.get? key with
    | some subgraph =>
        { model with
          root := some key
          id := subgraph.id
          kind := subgraph.kind
          isStrict := model.isStrict || isStrict }
    | none => model

end Model

end DotLang
