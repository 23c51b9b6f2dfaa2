import DotLang.Value

/-!
# Subgraphs and their nesting

A subgraph knows its member nodes by name, its edges by number, and its
children and parent by handle. All subgraphs of a model stand in one table, the
forest, so a subgraph that is entered again from elsewhere is changed in one
place. In a model the handle of a subgraph is its key.

`Hierarchy` is one tree of the forest with the subgraphs themselves at its
nodes. What has to be said about a subgraph and everything below it, such as its
transitive members, is recursion on a hierarchy.
-/

namespace DotLang

/-- A scope of the document: a graph or one of its subgraphs. -/
structure Subgraph where
  /-- The declared id, or a generated key for a subgraph without one. -/
  key : String
  /-- The declared id. -/
  id : Option String := none
  /-- `subgraph`, or the kind of the graph for a graph at the top level. -/
  kind : String := "subgraph"
  /-- The attributes of the subgraph itself. -/
  attrs : Attributes := ∅
  /-- The names of the member nodes in the order in which they joined. -/
  nodes : List String := []
  /-- The numbers of the edges created directly inside the subgraph. -/
  edges : List Nat := []
  /-- The handles of the children in the order in which they were first entered. -/
  children : List String := []
  /-- The handle of the enclosing subgraph. -/
  parent : Option String := none

namespace Subgraph

/-- Whether the subgraph was declared without an id. -/
def isAnonymous (subgraph : Subgraph) : Bool :=
  subgraph.id.isNone

/-- Lists a node as a member, if it is none yet. -/
def addNode (subgraph : Subgraph) (node : String) : Subgraph :=
  if node ∈ subgraph.nodes then subgraph
  else { subgraph with nodes := subgraph.nodes ++ [node] }

end Subgraph

/-- A subgraph with all subgraphs below it. -/
inductive Hierarchy where
  /-- A subgraph over the hierarchies of its children. -/
  | scope (top : Subgraph) (children : List Hierarchy)

namespace Hierarchy

/-- The subgraph at the top. -/
def top : Hierarchy → Subgraph
  | .scope top _ => top

mutual

/-- The subgraphs of a hierarchy, depth first and parents before their children. -/
def walk : Hierarchy → List Subgraph
  | .scope top children => top :: walkAll children

/-- The subgraphs of neighbouring hierarchies. -/
def walkAll : List Hierarchy → List Subgraph
  | [] => []
  | first :: rest => first.walk ++ walkAll rest

end

mutual

/-- The members of the top subgraph and of all subgraphs below it, each at its first occurrence. -/
def allNodes : Hierarchy → List String
  | .scope top children => (top.nodes ++ allNodesOf children).eraseDups

/-- The members of neighbouring hierarchies, one hierarchy after the other. -/
def allNodesOf : List Hierarchy → List String
  | [] => []
  | first :: rest => first.allNodes ++ allNodesOf rest

end

end Hierarchy

/-- The table of all subgraphs by handle. -/
abbrev Forest := OrderedMap String Subgraph

namespace Forest

/-- The key of the subgraph with a handle. -/
def keyOf? (forest : Forest) (handle : String) : Option String :=
  (forest.get? handle).map Subgraph.key

/-- The children with a new one: it takes the place of a child with the same key, or comes last. -/
def enlist (forest : Forest) (children : List String) (child : String) : List String :=
  let isTwin (sibling : String) := forest.keyOf? sibling = forest.keyOf? child
  if children.any isTwin then
    children.map fun sibling => if isTwin sibling then child else sibling
  else children ++ [child]

/-- Makes one subgraph the parent of another. -/
def adopt (forest : Forest) (parent child : String) : Forest :=
  (forest.modify parent fun subgraph =>
      { subgraph with children := forest.enlist subgraph.children child }).modify child
    fun subgraph => { subgraph with parent := some parent }

/-- The hierarchy below a subgraph, cut off `depth` levels down. -/
def hierarchyTo (forest : Forest) : (depth : Nat) → Subgraph → Hierarchy
  | 0, top => .scope top []
  | depth + 1, top =>
      .scope top (top.children.filterMap fun child =>
        (forest.get? child).map (hierarchyTo forest depth))

/-- The hierarchy below the subgraph with a handle. No path in a forest is longer than the number
of its subgraphs, so nothing is cut off. -/
def hierarchy? (forest : Forest) (handle : String) : Option Hierarchy :=
  (forest.get? handle).map (hierarchyTo forest forest.size)

/-- The members of the subgraph with a handle and of all subgraphs below it. -/
def allNodes (forest : Forest) (handle : String) : List String :=
  match forest.hierarchy? handle with
  | some hierarchy => hierarchy.allNodes
  | none => []

/-- The subgraph with a handle and all subgraphs below it, depth first. -/
def descendants (forest : Forest) (handle : String) : List Subgraph :=
  match forest.hierarchy? handle with
  | some hierarchy => hierarchy.walk
  | none => []

/-- The handles of the subgraphs without parent. -/
def tops (forest : Forest) : List String :=
  (forest.entries.filter fun (_, subgraph) => subgraph.parent.isNone).map Prod.fst

end Forest

end DotLang
