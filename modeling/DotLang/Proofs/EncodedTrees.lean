import DotLang.Proofs.ReEncoding
import DotLang.Proofs.Stability

/-!
# Changing attributes before and after regeneration

Regeneration reads the values of attributes only to encode them. So the tree of a
model whose values were all changed is the tree of the model before the change,
with every value in it as the change and the encoding leave it
(`Model.toTree_mapAttrs`). Nothing else in the tree depends on the values.
-/

namespace DotLang

/-! ### Values in a tree -/

/-- An attribute with another value. -/
def Attr.mapValue (change : String → Value → Value) (entry : Attr) : Attr :=
  { entry with value := change entry.id entry.value }

namespace Tree

mutual

/-- The tree with other values in its attributes. -/
def mapValues (change : String → Value → Value) : Tree → Tree
  | .graph kind id isStrict children => .graph kind id isStrict (mapValuesAll change children)
  | .subgraph id children => .subgraph id (mapValuesAll change children)
  | .nodeStmt subject attrs => .nodeStmt (subject.mapValues change) (attrs.map (.mapValue change))
  | .edgeStmt endpoints attrs =>
      .edgeStmt (mapValuesAll change endpoints) (attrs.map (.mapValue change))
  | .attrStmt target attrs => .attrStmt target (attrs.map (.mapValue change))
  | .attr entry => .attr (entry.mapValue change)
  | .list items => .list (mapValuesAll change items)
  | tree => tree
termination_by structural tree => tree

def mapValuesAll (change : String → Value → Value) : List Tree → List Tree
  | [] => []
  | tree :: rest => tree.mapValues change :: mapValuesAll change rest
termination_by structural trees => trees

end

theorem mapValuesAll_eq_map (change : String → Value → Value) (trees : List Tree) :
    mapValuesAll change trees = trees.map (mapValues change) := by
  induction trees with
  | nil => rfl
  | cons tree rest ih => rw [mapValuesAll, ih, List.map_cons]

end Tree

/-! ### Subgraphs in their places -/

namespace Hierarchy

variable (change : Subgraph → Subgraph)

mutual

theorem walk_map : ∀ hierarchy : Hierarchy,
    (hierarchy.map change).walk = hierarchy.walk.map change
  | .scope top children => by
      rw [map, walk, walk, walkAll_mapAll children, List.map_cons]

theorem walkAll_mapAll : ∀ hierarchies : List Hierarchy,
    walkAll (mapAll change hierarchies) = (walkAll hierarchies).map change
  | [] => rfl
  | first :: rest => by
      rw [mapAll, walkAll, walkAll, walk_map first, walkAll_mapAll rest, List.map_append]

end

end Hierarchy

namespace Forest

variable {change : Subgraph → Subgraph}
  (sameChildren : ∀ subgraph, (change subgraph).children = subgraph.children)

include sameChildren

theorem hierarchyTo_mapValues (forest : Forest) (depth : Nat) (top : Subgraph) :
    hierarchyTo (forest.mapValues fun _ subgraph => change subgraph) depth (change top) =
      (forest.hierarchyTo depth top).map change := by
  induction depth generalizing top with
  | zero => rfl
  | succ depth ih =>
      have child_eq (child : String) :
          ((OrderedMap.mapValues (fun _ subgraph => change subgraph) forest).get? child).map
              (hierarchyTo (forest.mapValues fun _ subgraph => change subgraph) depth) =
            ((forest.get? child).map (forest.hierarchyTo depth)).map (Hierarchy.map change) := by
        rw [OrderedMap.get?_mapValues, Option.map_map, Option.map_map]
        exact congrArg (Option.map · _) (funext ih)
      rw [hierarchyTo, hierarchyTo, Hierarchy.map, Hierarchy.mapAll_eq_map, sameChildren,
        List.map_filterMap]
      simp only [child_eq]

theorem hierarchy?_mapValues (forest : Forest) (handle : String) :
    hierarchy? (forest.mapValues fun _ subgraph => change subgraph) handle =
      (forest.hierarchy? handle).map (Hierarchy.map change) := by
  have size_eq : (OrderedMap.mapValues (fun _ subgraph => change subgraph) forest).size =
      forest.size :=
    List.length_map _
  rw [hierarchy?, hierarchy?, OrderedMap.get?_mapValues, size_eq, Option.map_map, Option.map_map]
  exact congrArg (Option.map · _) (funext fun top =>
    hierarchyTo_mapValues sameChildren forest forest.size top)

end Forest

namespace Model

variable {change write : String → Value → Value}

theorem edgesAt_mapAttrs (model : Model) (numbers : List Nat) :
    (model.mapAttrs change).edgesAt numbers = (model.edgesAt numbers).map (.mapAttrs change) := by
  rw [edgesAt, edgesAt, List.map_filterMap]
  apply List.filterMap_congr
  intro number _
  exact List.getElem?_map

/-- The order of the edges depends on their end points only. -/
theorem edgeOrder_mapAttrs (model : Model) :
    (model.mapAttrs change).edgeOrder = model.edgeOrder := by
  rw [edgeOrder, edgeOrder, edgeIndex, edgeIndex, mapAttrs, List.zipIdx_map, List.foldl_map]
  rfl

theorem hierarchy?_mapAttrs (model : Model) (key : String) :
    (model.mapAttrs change).graphs.hierarchy? key =
      (model.graphs.hierarchy? key).map (Hierarchy.map (Subgraph.mapAttrs change)) := by
  have sameChildren (subgraph : Subgraph) :
      (subgraph.mapAttrs change).children = subgraph.children :=
    rfl
  exact Forest.hierarchy?_mapValues sameChildren model.graphs key

theorem listedSubgraphs_mapAttrs (model : Model) :
    (model.mapAttrs change).listedSubgraphs = model.listedSubgraphs.map (.mapAttrs change) := by
  have root_eq : (model.mapAttrs change).root = model.root := rfl
  rw [listedSubgraphs, listedSubgraphs, root_eq]
  cases model.root with
  | none => rfl
  | some root =>
      simp only [Forest.descendants, hierarchy?_mapAttrs]
      cases model.graphs.hierarchy? root with
      | none => rfl
      | some hierarchy => exact hierarchy.walk_map _

theorem unlistedNodes_mapAttrs (model : Model) :
    (model.mapAttrs change).unlistedNodes = model.unlistedNodes := by
  have keys_eq : (model.mapAttrs change).nodes.keys = model.nodes.keys :=
    OrderedMap.keys_mapValues _ _
  simp only [unlistedNodes, listedSubgraphs_mapAttrs, List.flatMap_map, keys_eq]
  rfl

theorem unlistedEdges_mapAttrs (model : Model) :
    (model.mapAttrs change).unlistedEdges = model.unlistedEdges.map (.mapAttrs change) := by
  simp only [unlistedEdges, listedSubgraphs_mapAttrs, List.flatMap_map, edgeOrder_mapAttrs,
    edgesAt_mapAttrs]
  rfl

/-! ### Regeneration -/

variable {encode : Encoder}

section

variable (encodes : ∀ name value, encode name (change name value) = .ok (write name value))

include encodes

theorem attrList_mapValues (attrs : Attributes) :
    attrList encode (attrs.mapValues change) = .ok (attrs.listed.map (.mapValue write)) := by
  have each (entry : String × Value) :
      (do return Attr.mk entry.1 (← encode entry.1 (change entry.1 entry.2)) :
        Except NumberFault Attr) = .ok ⟨entry.1, write entry.1 entry.2⟩ := by
    rw [encodes]
    rfl
  rw [attrList, Attributes.listed, List.map_map]
  exact List.mapM_map.trans (mapM_of_total each attrs.entries)

theorem nodeStmt_mapAttrs (model : Model) (id : String) :
    nodeStmt encode (model.mapAttrs change) id = .ok ((model.restatedNode id).mapValues write) := by
  have attrs_eq : (((model.mapAttrs change).nodes.get? id).map Node.attrs).getD ∅ =
      (model.attrsAt (.node id)).mapValues change :=
    attrsAt_mapAttrs change model (.node id)
  simp only [nodeStmt, attrs_eq, attrList_mapValues encodes]
  rfl

theorem edgeStmt_mapAttrs (edge : Edge) :
    edgeStmt encode (edge.mapAttrs change) = .ok ((restatedEdge edge).mapValues write) := by
  simp only [edgeStmt, Edge.mapAttrs, attrList_mapValues encodes]
  rfl

theorem nodeStmts_mapAttrs (model : Model) (ids : List String) :
    ids.mapM (nodeStmt encode (model.mapAttrs change)) =
      .ok ((ids.map model.restatedNode).map (.mapValues write)) := by
  rw [List.map_map]
  exact mapM_of_total (nodeStmt_mapAttrs encodes model) ids

theorem edgeStmts_mapAttrs (edges : List Edge) :
    (edges.map (.mapAttrs change)).mapM (edgeStmt encode) =
      .ok ((edges.map restatedEdge).map (.mapValues write)) := by
  rw [List.map_map, List.mapM_map]
  exact mapM_of_total (edgeStmt_mapAttrs encodes) edges

theorem ownStmts_mapAttrs (model : Model) (subgraph : Subgraph) :
    ownStmts encode (model.mapAttrs change) (subgraph.mapAttrs change) =
      .ok ((model.restatedOwn subgraph).map (.mapValues write)) := by
  have attrs_eq : graphAttrStmts encode (subgraph.attrs.mapValues change) =
      .ok ((restatedAttrs subgraph.attrs).map (.mapValues write)) := by
    have isEmpty_eq : (subgraph.attrs.mapValues change).isEmpty = subgraph.attrs.isEmpty :=
      List.isEmpty_map
    rw [graphAttrStmts, restatedAttrs, isEmpty_eq, attrList_mapValues encodes]
    split <;> rfl
  simp only [ownStmts, Subgraph.mapAttrs, nodeStmts_mapAttrs encodes, edgesAt_mapAttrs,
    edgeStmts_mapAttrs encodes, attrs_eq, restatedOwn, List.map_append]
  rfl

end

mutual

theorem body_mapAttrs
    (encodes : ∀ name value, encode name (change name value) = .ok (write name value))
    (model : Model) : ∀ hierarchy : Hierarchy,
    body encode (model.mapAttrs change) (hierarchy.map (.mapAttrs change)) =
      .ok ((model.restatedBody hierarchy).map (.mapValues write))
  | .scope top children => by
      simp only [Hierarchy.map, body, subgraphStmts_mapAttrs encodes model children,
        ownStmts_mapAttrs encodes, restatedBody, List.map_append]
      rfl

theorem subgraphStmts_mapAttrs
    (encodes : ∀ name value, encode name (change name value) = .ok (write name value))
    (model : Model) : ∀ hierarchies : List Hierarchy,
    subgraphStmts encode (model.mapAttrs change) (Hierarchy.mapAll (.mapAttrs change) hierarchies) =
      .ok ((model.restatedSubgraphs hierarchies).map (.mapValues write))
  | [] => rfl
  | .scope top children :: rest => by
      simp only [Hierarchy.mapAll, subgraphStmts, body_mapAttrs encodes model (.scope top children),
        subgraphStmts_mapAttrs encodes model rest, restatedSubgraphs, List.map_cons,
        Tree.mapValues, Tree.mapValuesAll_eq_map]
      rfl

end

/-- The tree of a model with changed attributes is the tree of the model with the values in it
changed and encoded. -/
theorem toTree_mapAttrs
    (encodes : ∀ name value, encode name (change name value) = .ok (write name value))
    (model : Model) :
    (model.mapAttrs change).toTree encode = .ok (model.restatement.mapValues write) := by
  have root_eq : rootBody encode (model.mapAttrs change) =
      .ok (model.restatedRoot.map (.mapValues write)) := by
    have sameRoot : (model.mapAttrs change).root = model.root := rfl
    rw [rootBody, restatedRoot, sameRoot]
    cases model.root with
    | none => rfl
    | some root =>
        simp only [Option.bind_some, hierarchy?_mapAttrs]
        cases model.graphs.hierarchy? root with
        | none => rfl
        | some hierarchy => exact body_mapAttrs encodes model hierarchy
  simp only [toTree, root_eq, unlistedNodes_mapAttrs, unlistedEdges_mapAttrs,
    nodeStmts_mapAttrs encodes, edgeStmts_mapAttrs encodes, restatement, Tree.mapValues,
    Tree.mapValuesAll_eq_map, List.map_append]
  rfl

end Model

end DotLang
