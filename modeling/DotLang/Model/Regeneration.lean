import DotLang.Model
import DotLang.Number.Arithmetic
import DotLang.Tree

/-!
# Regenerating a tree from a model

The tree of a model describes the same nodes, edges and attributes as the tree
it was walked from, with other statements: every entity carries its final
attributes, and no statement sets defaults for nodes or edges.

A body lists its subgraphs, its nodes, its edges and its own attributes, in this
order. The body of the root also lists the nodes and edges that belong to no
subgraph below the root.
-/

namespace DotLang

/-- Turns the value of an attribute back into its form in a document. -/
abbrev Encoder := String → Value → Except NumberFault Value

namespace Model

/-- The attribute list of a statement. -/
def attrList (encode : Encoder) (attrs : Attributes) : Except NumberFault (List Attr) :=
  attrs.entries.mapM fun (name, value) => do return ⟨name, ← encode name value⟩

/-- The statement about a node. -/
def nodeStmt (encode : Encoder) (model : Model) (id : String) : Except NumberFault Tree := do
  let attrs := ((model.nodes.get? id).map Node.attrs).getD ∅
  return .nodeStmt (.nodeId { id }) (← attrList encode attrs)

/-- The statement about an edge. -/
def edgeStmt (encode : Encoder) (edge : Edge) : Except NumberFault Tree := do
  return .edgeStmt [.nodeId { id := edge.tail }, .nodeId { id := edge.head }]
    (← attrList encode edge.attrs)

/-- The statement about the attributes of a subgraph; without attributes there is none. -/
def graphAttrStmts (encode : Encoder) (attrs : Attributes) : Except NumberFault (List Tree) :=
  if attrs.isEmpty then .ok [] else do return [.attrStmt "graph" (← attrList encode attrs)]

/-- The statements of a subgraph about its nodes, its edges and itself. -/
def ownStmts (encode : Encoder) (model : Model) (subgraph : Subgraph) :
    Except NumberFault (List Tree) := do
  let nodes ← subgraph.nodes.mapM (nodeStmt encode model)
  let edges ← (model.edgesAt subgraph.edges).mapM (edgeStmt encode)
  let attrs ← graphAttrStmts encode subgraph.attrs
  return nodes ++ edges ++ attrs

mutual

/-- The statements in the body of a subgraph. -/
def body (encode : Encoder) (model : Model) : Hierarchy → Except NumberFault (List Tree)
  | .scope top children => do
      let subgraphs ← subgraphStmts encode model children
      return subgraphs ++ (← ownStmts encode model top)
termination_by structural hierarchy => hierarchy

/-- The statements for neighbouring subgraphs. -/
def subgraphStmts (encode : Encoder) (model : Model) :
    List Hierarchy → Except NumberFault (List Tree)
  | [] => .ok []
  | hierarchy :: rest => do
      let children ← body encode model hierarchy
      return .subgraph hierarchy.top.id children :: (← subgraphStmts encode model rest)
termination_by structural hierarchies => hierarchies

end

/-- The subgraphs that the root lists, itself among them. -/
def listedSubgraphs (model : Model) : List Subgraph :=
  match model.root with
  | some root => model.graphs.descendants root
  | none => []

/-- The names of the nodes that no listed subgraph has as members. -/
def unlistedNodes (model : Model) : List String :=
  let listed := model.listedSubgraphs.flatMap Subgraph.nodes
  model.nodes.keys.filter fun id => id ∉ listed

/-- The edges that belong to no listed subgraph. -/
def unlistedEdges (model : Model) : List Edge :=
  let listed := model.listedSubgraphs.flatMap Subgraph.edges
  model.edgesAt (model.edgeOrder.filter fun number => number ∉ listed)

/-- The statements in the body of the root. -/
def rootBody (encode : Encoder) (model : Model) : Except NumberFault (List Tree) :=
  match model.root.bind model.graphs.hierarchy? with
  | some hierarchy => body encode model hierarchy
  | none => .ok []

/-- The tree that describes a model. -/
def toTree (encode : Encoder) (model : Model) : Except NumberFault Tree := do
  let listed ← rootBody encode model
  let nodes ← model.unlistedNodes.mapM (nodeStmt encode model)
  let edges ← model.unlistedEdges.mapM (edgeStmt encode)
  return .graph model.kind model.id model.isStrict (listed ++ nodes ++ edges)

end Model

end DotLang
