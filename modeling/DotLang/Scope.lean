import DotLang.Tree

/-!
# Scopes

The default attributes in effect at one place of a document, apart for nodes,
edges and the enclosing graph. An inner scope starts from the defaults of the
outer one; as scopes are values, what happens inside does not show outside.
-/

namespace DotLang

namespace Attributes

/-- The attributes listed in a statement; the last value of a repeated name wins. -/
def ofAttrs (attrs : List Attr) : Attributes :=
  OrderedMap.ofList (attrs.map fun entry => (entry.id, entry.value))

end Attributes

/-- The default attributes in effect at one place of a document. -/
structure Scope where
  /-- Defaults for nodes. -/
  node : Attributes := ∅
  /-- Defaults for edges. -/
  edge : Attributes := ∅
  /-- Attributes for the enclosing graph or subgraph. -/
  graph : Attributes := ∅

namespace Scope

instance : EmptyCollection Scope := ⟨{}⟩

/-- The scope after a statement sets defaults; only nodes, edges and graphs have defaults. -/
def set? (scope : Scope) (target : String) (attrs : Attributes) : Option Scope :=
  if target = "node" then some { scope with node := scope.node.override attrs }
  else if target = "edge" then some { scope with edge := scope.edge.override attrs }
  else if target = "graph" then some { scope with graph := scope.graph.override attrs }
  else none

end Scope

end DotLang
