import DotLang.Geometry
import DotLang.Model

/-!
# The typed pass over a model

Replaces every attribute of a model by its typed form: first on all nodes, then
on all edges, and last on all subgraphs, from the tops of the forest down. The
pass stops at an attribute whose typed form does not exist, and keeps what it
has replaced before.
-/

namespace DotLang

/-- Where a model holds attributes. -/
inductive Place where
  /-- The node with a name. -/
  | node (id : String)
  /-- The edge with a number. -/
  | edge (number : Nat)
  /-- The subgraph with a key. -/
  | graph (key : String)

namespace Attributes

/-- Replaces the given attributes by their typed forms up to the first that has none. -/
def retype (geometry : Geometry) :
    List (String × Value) → Attributes → Attributes × Option NumberFault
  | [], attrs => (attrs, none)
  | (name, value) :: rest, attrs =>
      match geometry.parse name value with
      | .ok typed => retype geometry rest (attrs.insert name typed)
      | .error fault => (attrs, some fault)

end Attributes

namespace Model

/-- The attributes at a place. -/
def attrsAt (model : Model) : Place → Attributes
  | .node id => ((model.nodes.get? id).map Node.attrs).getD ∅
  | .edge number => ((model.edges[number]?).map Edge.attrs).getD ∅
  | .graph key => ((model.graphs.get? key).map Subgraph.attrs).getD ∅

/-- Puts attributes at a place. -/
def setAttrsAt (model : Model) (attrs : Attributes) : Place → Model
  | .node id => { model with nodes := model.nodes.modify id fun node => { node with attrs } }
  | .edge number =>
      { model with edges := model.edges.modify number fun edge => { edge with attrs } }
  | .graph key =>
      { model with graphs := model.graphs.modify key fun subgraph => { subgraph with attrs } }

/-- All places with attributes in the order of the typed pass. -/
def places (model : Model) : List Place :=
  model.nodes.keys.map .node ++ model.edgeOrder.map .edge ++
    (model.graphs.tops.flatMap fun top =>
      (model.graphs.descendants top).map fun subgraph => .graph subgraph.key)

/-- Retypes the attributes at the given places, up to the first fault. -/
def retypeAt (geometry : Geometry) : List Place → Model → Model × Option NumberFault
  | [], model => (model, none)
  | place :: rest, model =>
      let attrs := model.attrsAt place
      match Attributes.retype geometry attrs.entries attrs with
      | (typed, none) => retypeAt geometry rest (model.setAttrsAt typed place)
      | (typed, some fault) => (model.setAttrsAt typed place, some fault)

/-- Retypes all attributes of a model. -/
def retype (geometry : Geometry) (model : Model) : Model × Option NumberFault :=
  retypeAt geometry model.places model

/-- Whether a model has an attribute that holds a size. -/
def hasSize (model : Model) : Bool :=
  model.places.any fun place =>
    Geometry.sizeNames.any fun name =>
      ((model.attrsAt place).get? name).any fun value => !value.isBlank

end Model

end DotLang
