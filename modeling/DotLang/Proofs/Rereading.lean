import DotLang.Proofs.TaggedForm
import DotLang.Proofs.Value

/-!
# Reading the tagged form of a tree again

The tagged form of a tree can be read, but two things get lost on the way: a
compass point without a port, which has no place in the tagged form, and an object
as the value of an attribute, which reading unwraps. Everything else comes back as
it was (`ofValue_toValue`).

So a tree made of statements comes back equal exactly if it has neither
(`typed_reread_iff`). Trees with unknown statements are treated along with them, as
far as the data of each is read as that statement again.
-/

namespace DotLang

/-- A node reference as it comes back from its tagged form. -/
def NodeId.reread (node : NodeId) : NodeId :=
  { node with compass := if node.port.isSome then node.compass else none }

/-- An attribute as it comes back from its tagged form. -/
def Attr.reread (entry : Attr) : Attr :=
  ⟨entry.id, Tree.attrValueOfValue (Tree.attrValueToValue entry.value)⟩

namespace Tree

mutual

/-- A tree as it comes back from its tagged form. -/
def reread : Tree → Tree
  | .graph kind id isStrict children => .graph kind id isStrict (rereadAll children)
  | .subgraph id children => .subgraph id (rereadAll children)
  | .nodeStmt subject attrs => .nodeStmt subject.reread (attrs.map Attr.reread)
  | .edgeStmt endpoints attrs => .edgeStmt (rereadAll endpoints) (attrs.map Attr.reread)
  | .attrStmt target attrs => .attrStmt target (attrs.map Attr.reread)
  | .nodeId node => .nodeId node.reread
  | .attr entry => .attr entry.reread
  | .list items => .list (rereadAll items)
  | tree => tree
termination_by structural tree => tree

def rereadAll : List Tree → List Tree
  | [] => []
  | tree :: rest => tree.reread :: rereadAll rest
termination_by structural trees => trees

end

mutual

/-- Whether all node references in a tree and all its attributes are of a kind. -/
def AllParts (ofNodes : NodeId → Prop) (ofAttrs : Attr → Prop) : Tree → Prop
  | .graph _ _ _ children => AllPartsIn ofNodes ofAttrs children
  | .subgraph _ children => AllPartsIn ofNodes ofAttrs children
  | .nodeStmt subject attrs => subject.AllParts ofNodes ofAttrs ∧ ∀ entry ∈ attrs, ofAttrs entry
  | .edgeStmt endpoints attrs =>
      AllPartsIn ofNodes ofAttrs endpoints ∧ ∀ entry ∈ attrs, ofAttrs entry
  | .attrStmt _ attrs => ∀ entry ∈ attrs, ofAttrs entry
  | .nodeId node => ofNodes node
  | .attr entry => ofAttrs entry
  | .list items => AllPartsIn ofNodes ofAttrs items
  | _ => True
termination_by structural tree => tree

def AllPartsIn (ofNodes : NodeId → Prop) (ofAttrs : Attr → Prop) : List Tree → Prop
  | [] => True
  | tree :: rest => tree.AllParts ofNodes ofAttrs ∧ AllPartsIn ofNodes ofAttrs rest
termination_by structural trees => trees

end

/-- No node reference has a compass point without a port, and no attribute has an object for its
value. -/
abbrev IsLossless (tree : Tree) : Prop :=
  tree.AllParts (fun node => node.port = none → node.compass = none)
    fun entry => ∀ fields, entry.value ≠ .object fields

abbrev AllLossless (trees : List Tree) : Prop :=
  AllPartsIn (fun node => node.port = none → node.compass = none)
    (fun entry => ∀ fields, entry.value ≠ .object fields) trees

/-- Whether the objects in the values of attributes have distinct keys. -/
def HaveDistinctKeys (attrs : List Attr) : Prop :=
  ∀ entry ∈ attrs, entry.value.hasDistinctKeys = true

mutual

/-- Whether a tree is made of the statements of a document, with node references and subgraphs for
endpoints and lists for several statements. Objects in the values of attributes have distinct keys.
Of unknown statements, those that are admitted may be among them. -/
def IsProper (admits : Value → Value → String → Prop) : Tree → Prop
  | .graph kind _ _ children => kind ∈ graphKinds ∧ AllProper admits children
  | .subgraph _ children => AllProper admits children
  | .nodeStmt (.nodeId _) attrs => HaveDistinctKeys attrs
  | .edgeStmt endpoints attrs => AllProperEndpoints admits endpoints ∧ HaveDistinctKeys attrs
  | .attrStmt target attrs => target ∈ attrTargets ∧ HaveDistinctKeys attrs
  | .unknown kind data reason => admits kind data reason
  | .list items => AllProper admits items
  | _ => False
termination_by structural tree => tree

def AllProper (admits : Value → Value → String → Prop) : List Tree → Prop
  | [] => True
  | tree :: rest => tree.IsProper admits ∧ AllProper admits rest
termination_by structural trees => trees

/-- Whether a tree is a proper endpoint: a node reference, or a subgraph made of statements. -/
def IsProperEndpoint (admits : Value → Value → String → Prop) : Tree → Prop
  | .subgraph _ children => AllProper admits children
  | .nodeId _ => True
  | _ => False
termination_by structural tree => tree

def AllProperEndpoints (admits : Value → Value → String → Prop) : List Tree → Prop
  | [] => True
  | tree :: rest => tree.IsProperEndpoint admits ∧ AllProperEndpoints admits rest
termination_by structural trees => trees

end

/-- Whether a tree is made of known statements only. -/
abbrev IsTyped (tree : Tree) : Prop :=
  tree.IsProper fun _ _ _ => False

variable {admits : Value → Value → String → Prop} {isStrict : Bool}

theorem nodeId_of_proper {subject : Tree} {attrs : List Attr}
    (proper : (Tree.nodeStmt subject attrs).IsProper admits) :
    (∃ node, subject = .nodeId node) ∧ HaveDistinctKeys attrs := by
  cases subject with
  | nodeId node => exact ⟨⟨node, rfl⟩, proper⟩
  | _ => exact proper.elim

/-! ### Node references and attributes -/

theorem nodeIdOfValue_toValue (node : NodeId) :
    nodeIdOfValue (nodeIdToValue node) = .ok node.reread := by
  rcases node with ⟨id, _ | port, _ | compass⟩ <;> rfl

theorem attrOfValue_toValue (entry : Attr) :
    attrOfValue (attrToValue entry) = .ok entry.reread :=
  rfl

theorem attrsOfValue_toValue (attrs : List Attr) :
    attrsOfValue (attrsToValue attrs) = .ok (attrs.map Attr.reread) := by
  rw [attrsToValue, attrsOfValue]
  induction attrs with
  | nil => rfl
  | cons entry rest ih =>
      rw [List.map_cons, List.mapM_cons, attrOfValue_toValue, ih]
      rfl

/-! ### Statements -/

theorem ofValue_graph {kind : String} (isKind : kind ∈ graphKinds) (id : Option String)
    (isStrictGraph : Bool) {values : List Value} {trees : List Tree}
    (read : ofItems isStrict values = .ok trees) :
    ofValue isStrict (.object
      ([("type", .text kind), ("children", .list values)] ++ idField id ++
        if isStrictGraph then [("strict", .bool true)] else [])) =
      .ok (.graph kind id isStrictGraph trees) := by
  have kind_eq : kind = "graph" ∨ kind = "digraph" := by simpa [graphKinds] using isKind
  rcases kind_eq with rfl | rfl
  all_goals
    cases id <;> cases isStrictGraph <;>
      simp [ofValue, orUnknown, Value.field, idField, childrenOfFields, childrenOfValue, read,
        graphKinds, List.lookup_cons, optionalText, Value.isTruthy, Value.display, bind,
        Except.bind, pure, Except.pure]

/-- The tagged form of a subgraph, the same for a statement and for an endpoint. -/
def subgraphForm (id : Option String) (values : List Value) : Value :=
  .object ([("type", .text "subgraph"), ("children", .list values)] ++ idField id)

theorem ofValue_subgraphForm (id : Option String) {values : List Value} {trees : List Tree}
    (read : ofItems isStrict values = .ok trees) :
    ofValue isStrict (subgraphForm id values) = .ok (.subgraph id trees) := by
  cases id <;>
    simp [subgraphForm, ofValue, orUnknown, Value.field, idField, childrenOfFields,
      childrenOfValue, read, graphKinds, List.lookup_cons, optionalText, Value.display, bind,
      Except.bind, pure, Except.pure]

theorem endpointOfValue_subgraphForm (id : Option String) {values : List Value}
    {trees : List Tree} (read : ofItems isStrict values = .ok trees) :
    endpointOfValue isStrict (subgraphForm id values) = .ok (.subgraph id trees) := by
  cases id <;>
    simp [subgraphForm, endpointOfValue, Value.field, idField, childrenOfFields,
      childrenOfValue, read, List.lookup_cons, optionalText, Value.display, bind,
      Except.bind, pure, Except.pure]

theorem endpointOfValue_nodeIdToValue (node : NodeId) :
    endpointOfValue isStrict (nodeIdToValue node) = .ok (.nodeId node.reread) := by
  rcases node with ⟨id, _ | port, _ | compass⟩ <;> rfl

theorem ofValue_nodeStmt (node : NodeId) (attrs : List Attr) :
    ofValue isStrict (.object [("type", .text "node_stmt"), ("node_id", nodeIdToValue node),
      ("attr_list", attrsToValue attrs)]) =
      .ok (.nodeStmt (.nodeId node.reread) (attrs.map Attr.reread)) := by
  have required : require [("type", .text "node_stmt"), ("node_id", nodeIdToValue node),
      ("attr_list", attrsToValue attrs)] "node_id" = .ok (nodeIdToValue node) := rfl
  have node_read := nodeIdOfValue_toValue node
  have attrs_read := attrsOfValue_toValue attrs
  simp [ofValue, orUnknown, nodeStmtOfFields, required, node_read, Value.field, graphKinds,
    List.lookup_cons, attrs_read, bind, Except.bind, pure, Except.pure]

theorem ofValue_edgeStmt {values : List Value} {endpoints : List Tree} (attrs : List Attr)
    (read : endpointsOfItems isStrict values = .ok endpoints) :
    ofValue isStrict (.object [("type", .text "edge_stmt"), ("edge_list", .list values),
      ("attr_list", attrsToValue attrs)]) =
      .ok (.edgeStmt endpoints (attrs.map Attr.reread)) := by
  have attrs_read := attrsOfValue_toValue attrs
  simp [ofValue, orUnknown, Value.field, endpointsOfFields, endpointsOfValue, read,
    graphKinds, List.lookup_cons, attrs_read, bind, Except.bind, pure, Except.pure]

theorem ofValue_attrStmt {target : String} (isTarget : target ∈ attrTargets)
    (attrs : List Attr) :
    ofValue isStrict (.object [("type", .text "attr_stmt"), ("target", .text target),
      ("attr_list", attrsToValue attrs)]) =
      .ok (.attrStmt target (attrs.map Attr.reread)) := by
  have attrs_read := attrsOfValue_toValue attrs
  simp [ofValue, orUnknown, attrStmtOfFields, require, Value.field, isTarget,
    graphKinds, List.lookup_cons, attrs_read, bind, Except.bind, pure, Except.pure]

/-! ### Trees -/

mutual

/-- A proper tree has a tagged form, and either mode reads from it the tree without what is lost.
Unknown statements give their data, which has to be read as the statement. -/
theorem ofValue_toValue
    (known : ∀ kind data reason, admits kind data reason →
      ofValue isStrict data = .ok (.unknown kind data reason)) :
    ∀ tree : Tree, tree.IsProper admits →
      ∃ value, tree.toValue = .ok value ∧ ofValue isStrict value = .ok tree.reread
  | .graph kind id isStrictGraph children, proper => by
      rcases ofItems_toValues known children proper.2 with ⟨values, values_eq, read⟩
      exact ⟨_, by rw [toValue, values_eq]; rfl, ofValue_graph proper.1 id isStrictGraph read⟩
  | .subgraph id children, proper => by
      rcases ofItems_toValues known children proper with ⟨values, values_eq, read⟩
      exact ⟨_, by rw [toValue, values_eq]; rfl, ofValue_subgraphForm id read⟩
  | .nodeStmt subject attrs, proper => by
      rcases nodeId_of_proper proper with ⟨⟨node, rfl⟩, _⟩
      exact ⟨_, rfl, ofValue_nodeStmt node attrs⟩
  | .edgeStmt endpoints attrs, proper => by
      rcases endpointsOfItems_toValues known endpoints proper.1 with ⟨values, values_eq, read⟩
      exact ⟨_, by rw [toValue, values_eq]; rfl, ofValue_edgeStmt attrs read⟩
  | .attrStmt target attrs, proper => ⟨_, rfl, ofValue_attrStmt proper.1 attrs⟩
  | .unknown kind data reason, proper => ⟨data, rfl, known kind data reason proper⟩
  | .list items, proper => by
      rcases ofItems_toValues known items proper with ⟨values, values_eq, read⟩
      refine ⟨.list values, by rw [toValue, values_eq]; rfl, ?_⟩
      rw [ofValue, read]
      rfl
  | .nodeId _, proper => proper.elim
  | .attr _, proper => proper.elim
  | .raw _, proper => proper.elim

theorem ofItems_toValues
    (known : ∀ kind data reason, admits kind data reason →
      ofValue isStrict data = .ok (.unknown kind data reason)) :
    ∀ trees : List Tree, AllProper admits trees →
      ∃ values, toValues trees = .ok values ∧ ofItems isStrict values = .ok (rereadAll trees)
  | [], _ => ⟨[], rfl, rfl⟩
  | tree :: rest, proper => by
      rcases ofValue_toValue known tree proper.1 with ⟨value, value_eq, read⟩
      rcases ofItems_toValues known rest proper.2 with ⟨values, values_eq, readRest⟩
      refine ⟨value :: values, by rw [toValues, value_eq, values_eq]; rfl, ?_⟩
      rw [ofItems, read, readRest]
      rfl

theorem endpointOfValue_toValue
    (known : ∀ kind data reason, admits kind data reason →
      ofValue isStrict data = .ok (.unknown kind data reason)) :
    ∀ tree : Tree, tree.IsProperEndpoint admits →
      ∃ value, tree.toValue = .ok value ∧ endpointOfValue isStrict value = .ok tree.reread
  | .subgraph id children, proper => by
      rcases ofItems_toValues known children proper with ⟨values, values_eq, read⟩
      exact ⟨_, by rw [toValue, values_eq]; rfl, endpointOfValue_subgraphForm id read⟩
  | .nodeId node, _ => ⟨_, rfl, endpointOfValue_nodeIdToValue node⟩
  | .graph .., proper => proper.elim
  | .nodeStmt .., proper => proper.elim
  | .edgeStmt .., proper => proper.elim
  | .attrStmt .., proper => proper.elim
  | .attr _, proper => proper.elim
  | .unknown .., proper => proper.elim
  | .raw _, proper => proper.elim
  | .list _, proper => proper.elim

theorem endpointsOfItems_toValues
    (known : ∀ kind data reason, admits kind data reason →
      ofValue isStrict data = .ok (.unknown kind data reason)) :
    ∀ trees : List Tree, AllProperEndpoints admits trees →
      ∃ values, toValues trees = .ok values ∧
        endpointsOfItems isStrict values = .ok (rereadAll trees)
  | [], _ => ⟨[], rfl, rfl⟩
  | tree :: rest, proper => by
      rcases endpointOfValue_toValue known tree proper.1 with ⟨value, value_eq, read⟩
      rcases endpointsOfItems_toValues known rest proper.2 with ⟨values, values_eq, readRest⟩
      refine ⟨value :: values, by rw [toValues, value_eq, values_eq]; rfl, ?_⟩
      rw [endpointsOfItems, read, readRest]
      rfl

end

/-! ### What gets lost -/

/-- What reading unwraps from an object is smaller than the object. -/
theorem same_attrValueOfValue_object {fields : List (String × Value)}
    (distinct : (Value.object fields).hasDistinctKeys = true) :
    (attrValueOfValue (.object fields)).same (.object fields) = false := by
  simp only [attrValueOfValue]
  split
  · rfl
  · rw [Value.field]
    cases found : fields.lookup "value" with
    | none => rfl
    | some inner =>
        have inner_mem := Value.mem_of_lookup found
        exact Value.same_object_of_mem inner_mem
          ((Value.hasDistinctKeys_object.mp distinct).2 _ inner_mem)

theorem same_reread_value_iff {value : Value} (distinct : value.hasDistinctKeys = true) :
    (attrValueOfValue (attrValueToValue value)).same value = true ↔
      ∀ fields, value ≠ .object fields := by
  cases value with
  | object fields =>
      have differs := same_attrValueOfValue_object distinct
      simp [attrValueToValue, differs]
  | markup content => simp [attrValueToValue, attrValueOfValue, Value.field, List.lookup_cons,
      Value.isTruthy, optionalText, Value.display, Value.same]
  | _ => simp [attrValueToValue, attrValueOfValue, Value.same_refl _ distinct]

theorem sameAttrs_reread_iff {attrs : List Attr} (distinct : HaveDistinctKeys attrs) :
    sameAttrs (attrs.map Attr.reread) attrs = true ↔
      ∀ entry ∈ attrs, ∀ fields, entry.value ≠ .object fields := by
  induction attrs with
  | nil => simp [sameAttrs]
  | cons entry rest ih =>
      have here := same_reread_value_iff (distinct entry List.mem_cons_self)
      have later := ih fun entry entry_mem => distinct entry (List.mem_cons_of_mem _ entry_mem)
      rw [List.map_cons, sameAttrs, Bool.and_eq_true, later, Attr.reread, beq_self_eq_true,
        Bool.true_and, here, List.forall_mem_cons]

theorem reread_node_eq_iff (node : NodeId) :
    node.reread = node ↔ (node.port = none → node.compass = none) := by
  rcases node with ⟨id, _ | port, _ | compass⟩ <;> simp [NodeId.reread]

theorem reread_attr_eq {entry : Attr} (notObject : ∀ fields, entry.value ≠ .object fields) :
    entry.reread = entry := by
  rcases entry with ⟨id, value⟩
  cases value with
  | object fields => exact absurd rfl (notObject fields)
  | _ => rfl

theorem reread_attrs_eq {attrs : List Attr}
    (notObject : ∀ entry ∈ attrs, ∀ fields, entry.value ≠ .object fields) :
    attrs.map Attr.reread = attrs := by
  conv_rhs => rw [← List.map_id attrs]
  exact List.map_congr_left fun entry entry_mem => reread_attr_eq (notObject entry entry_mem)

mutual

theorem reread_eq_self : ∀ tree : Tree, tree.IsLossless → tree.reread = tree
  | .graph kind id isStrictGraph children, lossless => by
      rw [reread, rereadAll_eq_self children lossless]
  | .subgraph id children, lossless => by rw [reread, rereadAll_eq_self children lossless]
  | .nodeStmt subject attrs, lossless => by
      rw [reread, reread_eq_self subject lossless.1, reread_attrs_eq lossless.2]
  | .edgeStmt endpoints attrs, lossless => by
      rw [reread, rereadAll_eq_self endpoints lossless.1, reread_attrs_eq lossless.2]
  | .attrStmt target attrs, lossless => by rw [reread, reread_attrs_eq lossless]
  | .nodeId node, lossless => by rw [reread, (reread_node_eq_iff node).mpr lossless]
  | .attr entry, lossless => by rw [reread, reread_attr_eq lossless]
  | .list items, lossless => by rw [reread, rereadAll_eq_self items lossless]
  | .unknown .., _ => rfl
  | .raw _, _ => rfl

theorem rereadAll_eq_self : ∀ trees : List Tree, AllLossless trees → rereadAll trees = trees
  | [], _ => rfl
  | tree :: rest, lossless => by
      rw [rereadAll, reread_eq_self tree lossless.1, rereadAll_eq_self rest lossless.2]

end

mutual

/-- A tree that comes back equal has nothing to lose. -/
theorem same_reread_iff
    (distinct : ∀ kind data reason, admits kind data reason →
      kind.hasDistinctKeys = true ∧ data.hasDistinctKeys = true) :
    ∀ tree : Tree, tree.IsProper admits → (tree.reread.same tree = true ↔ tree.IsLossless)
  | .graph kind id isStrictGraph children, proper => by
      have below := sameItems_rereadAll_iff distinct children proper.2
      simp [reread, same, AllParts, below]
  | .subgraph id children, proper => by
      have below := sameItems_rereadAll_iff distinct children proper
      simp [reread, same, AllParts, below]
  | .nodeStmt subject attrs, proper => by
      rcases nodeId_of_proper proper with ⟨⟨node, rfl⟩, attrs_distinct⟩
      have sameNode := reread_node_eq_iff node
      have listed := sameAttrs_reread_iff attrs_distinct
      simp [reread, same, AllParts, sameNode, listed]
  | .edgeStmt endpoints attrs, proper => by
      have below := sameItems_rereadEndpoints_iff distinct endpoints proper.1
      have listed := sameAttrs_reread_iff proper.2
      simp [reread, same, AllParts, below, listed]
  | .attrStmt target attrs, proper => by
      have listed := sameAttrs_reread_iff proper.2
      simp [reread, same, AllParts, listed]
  | .unknown kind data reason, proper => by
      have refl := distinct kind data reason proper
      simp [reread, same, AllParts, Value.same_refl _ refl.1, Value.same_refl _ refl.2]
  | .list items, proper => by
      have below := sameItems_rereadAll_iff distinct items proper
      simp [reread, same, AllParts, below]
  | .nodeId _, proper => proper.elim
  | .attr _, proper => proper.elim
  | .raw _, proper => proper.elim

theorem sameItems_rereadAll_iff
    (distinct : ∀ kind data reason, admits kind data reason →
      kind.hasDistinctKeys = true ∧ data.hasDistinctKeys = true) :
    ∀ trees : List Tree, AllProper admits trees →
      (sameItems (rereadAll trees) trees = true ↔ AllLossless trees)
  | [], _ => by simp [rereadAll, sameItems, AllPartsIn]
  | tree :: rest, proper => by
      rw [rereadAll, sameItems, Bool.and_eq_true, same_reread_iff distinct tree proper.1,
        sameItems_rereadAll_iff distinct rest proper.2]
      rfl

theorem sameEndpoint_reread_iff
    (distinct : ∀ kind data reason, admits kind data reason →
      kind.hasDistinctKeys = true ∧ data.hasDistinctKeys = true) :
    ∀ tree : Tree, tree.IsProperEndpoint admits →
      (tree.reread.same tree = true ↔ tree.IsLossless)
  | .subgraph id children, proper => by
      have below := sameItems_rereadAll_iff distinct children proper
      simp [reread, same, AllParts, below]
  | .nodeId node, _ => by
      have sameNode := reread_node_eq_iff node
      simp [reread, same, AllParts, sameNode]
  | .graph .., proper => proper.elim
  | .nodeStmt .., proper => proper.elim
  | .edgeStmt .., proper => proper.elim
  | .attrStmt .., proper => proper.elim
  | .attr _, proper => proper.elim
  | .unknown .., proper => proper.elim
  | .raw _, proper => proper.elim
  | .list _, proper => proper.elim

theorem sameItems_rereadEndpoints_iff
    (distinct : ∀ kind data reason, admits kind data reason →
      kind.hasDistinctKeys = true ∧ data.hasDistinctKeys = true) :
    ∀ trees : List Tree, AllProperEndpoints admits trees →
      (sameItems (rereadAll trees) trees = true ↔ AllLossless trees)
  | [], _ => by simp [rereadAll, sameItems, AllPartsIn]
  | tree :: rest, proper => by
      rw [rereadAll, sameItems, Bool.and_eq_true, sameEndpoint_reread_iff distinct tree proper.1,
        sameItems_rereadEndpoints_iff distinct rest proper.2]
      rfl

end

/-- A tree of statements has a tagged form that both modes of reading accept. They read the same
from it, and this is the tree again exactly if every compass point stands behind a port and no
attribute has an object for its value. -/
theorem typed_reread_iff {tree : Tree} (typed : tree.IsTyped) :
    ∃ value reread, tree.toValue = .ok value ∧ ofValue false value = .ok reread ∧
      ofValue true value = .ok reread ∧ (reread.same tree = true ↔ tree.IsLossless) ∧
      (tree.IsLossless → reread = tree) := by
  rcases ofValue_toValue (fun _ _ _ => False.elim) tree typed with ⟨value, value_eq, lenient⟩
  rcases ofValue_toValue (fun _ _ _ => False.elim) tree typed with ⟨value', value_eq', strict⟩
  cases value_eq.symm.trans value_eq'
  exact ⟨value, tree.reread, value_eq, lenient, strict,
    same_reread_iff (fun _ _ _ => False.elim) tree typed, reread_eq_self tree⟩

/-- A compass point that is lost at one endpoint, and one that is kept inside the other. -/
theorem typed_reread_of_lost_compass :
    let tree := Tree.list [.graph "digraph" (some "g") true [
      .attrStmt "node" [⟨"shape", .text "box"⟩],
      .edgeStmt [.nodeId { id := "a", compass := some "n" },
        .subgraph none [.nodeStmt (.nodeId { id := "b", port := some "p", compass := some "n" })
          [⟨"label", .markup "b"⟩]]] []]]
    tree.IsTyped ∧ ∃ value reread, tree.toValue = .ok value ∧
      ofValue false value = .ok reread ∧ ofValue true value = .ok reread ∧
      reread.same tree = false := by
  intro tree
  have typed : tree.IsTyped := by
    simp [tree, IsProper, AllProper, IsProperEndpoint, AllProperEndpoints, graphKinds, attrTargets,
      HaveDistinctKeys, Value.hasDistinctKeys]
  rcases typed_reread_iff typed with ⟨value, reread, form_eq, lenient, strict, same_iff, _⟩
  refine ⟨typed, value, reread, form_eq, lenient, strict, ?_⟩
  rw [← Bool.not_eq_true, same_iff]
  simp [tree, AllParts, AllPartsIn]

end Tree

end DotLang
