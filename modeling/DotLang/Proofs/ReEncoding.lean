import DotLang.Proofs.CoordinateText
import DotLang.Proofs.Integrity
import DotLang.Proofs.Regeneration
import DotLang.Proofs.Results
import DotLang.Proofs.TypedPass

/-!
# Writing typed geometry back

Regenerating a tree encodes all attributes that the tree states, those of every
node, of every edge and of the listed subgraphs, and nothing else in it can fail
(`toTree_settles`). After a typed pass the only values without a form in a
document are sizes under the scale zero (`encode_typedForm`). So a model of such
a pass has a tree unless the scale is zero and the tree states a size
(`toTree_typed`).
-/

namespace DotLang

/-! ### Typed forms in a document -/

theorem Number.floatQuotient_settles (dividend divisor : Float) :
    Settles .floatDivisionByZero ((divisor == 0.0) = true) (floatQuotient dividend divisor) := by
  rw [floatQuotient]
  split
  · next zero => exact ⟨fun _ => rfl, fun nonzero => absurd zero nonzero⟩
  · next nonzero => exact .of_ok nonzero ⟨_, rfl⟩

namespace Geometry

theorem exists_encode {scale : Number} {name : String} (notSize : name ∉ sizeNames) {form : Value}
    (coordinates : ∀ items, form = .list items → name ∈ listNames ∨ name = positionName →
      ∃ numbers : List Float, items = numbers.map .float) :
    ∃ written, (typed scale).encode name form = .ok written := by
  simp only [encode, if_neg notSize]
  cases form with
  | list items =>
      by_cases listed : name ∈ listNames ∨ name = positionName
      · obtain ⟨numbers, rfl⟩ := coordinates items rfl listed
        exact ⟨.text (rowText numbers), by simp [listed, listText_floats]⟩
      · exact ⟨.list items, by simp [listed]⟩
  | _ => exact ⟨_, rfl⟩

theorem coordinates_of_readFloats {value : Value} {items : List Value}
    (read : (value.readFloats?.map Value.ofFloats).getD .null = .list items) :
    ∃ numbers : List Float, items = numbers.map .float := by
  cases floats_eq : value.readFloats? with
  | none => simp [floats_eq] at read
  | some numbers =>
      simp only [floats_eq, Option.map_some, Option.getD_some, Value.ofFloats,
        Value.list.injEq] at read
      exact ⟨numbers, read.symm⟩

theorem coordinates_of_typedForm {scale : Number} {name : String} {value : Value}
    (notSize : name ∉ sizeNames) {items : List Value}
    (form_eq : (typed scale).typedForm name value = .list items)
    (listed : name ∈ listNames ∨ name = positionName) :
    ∃ numbers : List Float, items = numbers.map .float := by
  by_cases coordinates : name ∈ listNames
  · have read : (value.readFloats?.map Value.ofFloats).getD .null = .list items := by
      simpa [typedForm, parse, notSize, coordinates] using form_eq
    exact coordinates_of_readFloats read
  · have position := listed.resolve_left coordinates
    subst position
    simp only [typedForm, parse, if_neg notSize, if_neg coordinates, if_true,
      Value.readPosition] at form_eq
    split at form_eq
    · cases form_eq
    · split at form_eq
      · cases form_eq
      · exact coordinates_of_readFloats form_eq

/-- The typed form of an attribute can be written back unless it is a size and the scale is
zero. -/
theorem encode_typedForm (scale : Float) (name : String) (value : Value) :
    let geometry := typed (.float scale)
    Settles .floatDivisionByZero
      ((scale == 0.0) = true ∧ name ∈ sizeNames ∧
        ∃ size, geometry.typedForm name value = .float size)
      (geometry.encode name (geometry.typedForm name value)) := by
  intro geometry
  by_cases sized : name ∈ sizeNames
  · cases size_eq : value.readFloat? with
    | none =>
        have form_eq : geometry.typedForm name value = .null := by
          simp [geometry, typedForm, parse, sized, size_eq]
        rw [form_eq]
        exact .of_ok (by simp) ⟨.null, by simp [geometry, encode, Value.number?]⟩
    | some size =>
        have form_eq : geometry.typedForm name value = .float (size * scale) := by
          simp only [geometry, typedForm, parse, sized, size_eq, if_true]
          rfl
        have encode_eq : geometry.encode name (.float (size * scale)) =
            (do return .text (coordinateText (← Number.floatQuotient (size * scale) scale))) := by
          simp only [geometry, encode, sized, if_true]
          rfl
        have written := (Number.floatQuotient_settles (size * scale) scale).bind fun quotient =>
          .value (Value.text (coordinateText quotient))
        rw [form_eq, encode_eq]
        exact written.of_iff (by simp [sized])
  · apply Settles.of_ok (by simp [sized])
    exact exists_encode sized fun items form_eq listed =>
      coordinates_of_typedForm sized form_eq listed

end Geometry

/-- Whether there is a size among the attributes. -/
def Attributes.HoldsSize (attrs : Attributes) : Prop :=
  ∃ name ∈ Geometry.sizeNames, ∃ size, attrs.get? name = some (.float size)

namespace Model

theorem attrList_settles (scale : Float) (attrs : Attributes) :
    let geometry := Geometry.typed (.float scale)
    let typed : Attributes := attrs.mapValues geometry.typedForm
    Settles .floatDivisionByZero ((scale == 0.0) = true ∧ typed.HoldsSize)
      (attrList geometry.encode typed) := by
  intro geometry typed
  have each : ∀ entry ∈ typed.entries,
      Settles .floatDivisionByZero
        ((scale == 0.0) = true ∧ entry.1 ∈ Geometry.sizeNames ∧ ∃ size, entry.2 = .float size)
        (do return Attr.mk entry.1 (← geometry.encode entry.1 entry.2)) := by
    intro entry entry_mem
    obtain ⟨⟨name, value⟩, _, rfl⟩ := List.mem_map.mp entry_mem
    apply ((Geometry.encode_typedForm scale name value).bind fun form =>
      .value (Attr.mk name form)).of_iff
    simp [geometry]
  apply (Settles.mapM each).of_iff
  constructor
  · rintro ⟨zero, name, sized, size, found⟩
    exact ⟨(name, .float size), (typed.get?_eq_some_iff name _).mp found, zero, sized, size, rfl⟩
  · rintro ⟨⟨name, form⟩, entry_mem, zero, sized, size, rfl⟩
    exact ⟨zero, name, sized, size, (typed.get?_eq_some_iff name _).mpr entry_mem⟩

/-! ### All attributes of a tree -/

/-- Whether something is true of the attributes of a node, of an edge or of a listed subgraph. -/
def StatesAttrs (holds : Attributes → Prop) (model : Model) : Prop :=
  (∃ id ∈ model.nodes.keys, holds (model.attrsAt (.node id))) ∨
    (∃ edge ∈ model.edges, holds edge.attrs) ∨
      ∃ subgraph ∈ model.listedSubgraphs, holds subgraph.attrs

/-- The same for the statements of a subgraph about its nodes, its edges and itself. -/
def OwnAttrs (holds : Attributes → Prop) (model : Model) (subgraph : Subgraph) : Prop :=
  (∃ id ∈ subgraph.nodes, holds (model.attrsAt (.node id))) ∨
    (∃ edge ∈ model.edgesAt subgraph.edges, holds edge.attrs) ∨ holds subgraph.attrs

/-- A tree states all attributes, and nothing else. -/
theorem Resolved.statesAttrs_iff {model : Model} (resolved : model.Resolved)
    (holds : Attributes → Prop) :
    model.StatesAttrs holds ↔ (∃ subgraph ∈ model.restatedListed, OwnAttrs holds model subgraph) ∨
      (∃ id ∈ model.unlistedNodes, holds (model.attrsAt (.node id))) ∨
        ∃ edge ∈ model.unlistedEdges, holds edge.attrs := by
  have nodes (id : String) := (resolved.mem_restatedNodes_iff id).symm
  have edges (edge : Edge) := (resolved.ownsEdges.restatedEdges_perm.mem_iff (a := edge)).symm
  have listed (subgraph : Subgraph) := (model.restatedListed_perm.mem_iff (a := subgraph)).symm
  simp only [StatesAttrs, nodes, edges, listed, restatedNodes, restatedEdges, OwnAttrs, edgesAt,
    List.mem_append, List.mem_filterMap, List.mem_flatMap]
  -- Both sides name the same entities and differ in the order of the quantifiers only.
  grind

/-- All attributes of a model have a form in a document unless something is wrong with them. -/
def Encodes (encode : Encoder) (fault : NumberFault) (fails : Attributes → Prop) (model : Model) :
    Prop :=
  ∀ place, Settles fault (fails (model.attrsAt place)) (attrList encode (model.attrsAt place))

variable {encode : Encoder} {model : Model} {fault : NumberFault} {fails : Attributes → Prop}

theorem nodeStmt_settles (settles : model.Encodes encode fault fails) (id : String) :
    Settles fault (fails (model.attrsAt (.node id))) (nodeStmt encode model id) :=
  ((settles (.node id)).bind fun attrs => .value (Tree.nodeStmt (.nodeId { id }) attrs)).of_iff
    (by simp)

theorem edgeStmt_settles (settles : model.Encodes encode fault fails) {numbers : List Nat}
    {edge : Edge} (edge_mem : edge ∈ model.edgesAt numbers) :
    Settles fault (fails edge.attrs) (edgeStmt encode edge) := by
  obtain ⟨number, _, found⟩ := List.mem_filterMap.mp edge_mem
  have listed := settles (.edge number)
  simp only [attrsAt, found, Option.map_some, Option.getD_some] at listed
  have made := listed.bind fun attrs =>
    .value (Tree.edgeStmt [.nodeId { id := edge.tail }, .nodeId { id := edge.head }] attrs)
  exact made.of_iff (by simp)

theorem graphAttrStmts_settles (settles : model.Encodes encode fault fails) {key : String}
    {subgraph : Subgraph} (found : model.graphs.get? key = some subgraph) :
    Settles fault (fails subgraph.attrs) (graphAttrStmts encode subgraph.attrs) := by
  have listed := settles (.graph key)
  simp only [attrsAt, found, Option.map_some, Option.getD_some] at listed
  rw [graphAttrStmts]
  split
  · next empty =>
      have noFault : attrList encode subgraph.attrs = .ok [] := by
        rw [(OrderedMap.isEmpty_iff _).mp empty]
        rfl
      refine ⟨fun failed => ?_, fun _ => ⟨[], rfl⟩⟩
      cases noFault.symm.trans (listed.error failed)
  · exact (listed.bind fun attrs => .value [Tree.attrStmt "graph" attrs]).of_iff (by simp)

theorem ownStmts_settles (settles : model.Encodes encode fault fails) {key : String}
    {subgraph : Subgraph} (found : model.graphs.get? key = some subgraph) :
    Settles fault (OwnAttrs fails model subgraph) (ownStmts encode model subgraph) := by
  have nodes := Settles.mapM fun id (_ : id ∈ subgraph.nodes) => nodeStmt_settles settles id
  have edges := Settles.mapM fun edge (edge_mem : edge ∈ model.edgesAt subgraph.edges) =>
    edgeStmt_settles settles edge_mem
  have attrs := graphAttrStmts_settles settles found
  have all := nodes.bind fun nodeStmts => edges.bind fun edgeStmts => attrs.bind fun attrStmts =>
    .value (nodeStmts ++ edgeStmts ++ attrStmts)
  exact all.of_iff (by simp [OwnAttrs])

mutual

theorem body_settles (settles : model.Encodes encode fault fails) : ∀ hierarchy : Hierarchy,
    (∀ subgraph ∈ hierarchy.restated, ∃ key, model.graphs.get? key = some subgraph) →
    Settles fault (∃ subgraph ∈ hierarchy.restated, OwnAttrs fails model subgraph)
      (body encode model hierarchy)
  | .scope top children, listed => by
      rw [Hierarchy.restated, List.forall_mem_append] at listed
      obtain ⟨key, found⟩ := listed.2 top List.mem_cons_self
      have below := subgraphStmts_settles settles children listed.1
      have all := below.bind fun subgraphs => (ownStmts_settles settles found).bind fun own =>
        .value (subgraphs ++ own)
      exact all.of_iff (by simp [Hierarchy.restated, or_and_right, exists_or])

theorem subgraphStmts_settles (settles : model.Encodes encode fault fails) :
    ∀ hierarchies : List Hierarchy,
    (∀ subgraph ∈ Hierarchy.restatedAll hierarchies,
      ∃ key, model.graphs.get? key = some subgraph) →
    Settles fault (∃ subgraph ∈ Hierarchy.restatedAll hierarchies, OwnAttrs fails model subgraph)
      (subgraphStmts encode model hierarchies)
  | [], _ => (Settles.value []).of_iff (by simp [Hierarchy.restatedAll])
  | hierarchy :: rest, listed => by
      rw [Hierarchy.restatedAll, List.forall_mem_append] at listed
      have first := body_settles settles hierarchy listed.1
      have others := subgraphStmts_settles settles rest listed.2
      have all := first.bind fun children => others.bind fun statements =>
        .value (Tree.subgraph hierarchy.top.id children :: statements)
      exact all.of_iff (by simp [Hierarchy.restatedAll, or_and_right, exists_or])

end

theorem rootBody_settles (settles : model.Encodes encode fault fails)
    (wellFormed : model.WellFormed) :
    Settles fault (∃ subgraph ∈ model.restatedListed, OwnAttrs fails model subgraph)
      (rootBody encode model) := by
  have listed : ∀ subgraph ∈ model.restatedListed, ∃ key, model.graphs.get? key = some subgraph :=
    fun subgraph subgraph_mem => ⟨subgraph.key, wellFormed.get?_of_listed
      (model.restatedListed_perm.mem_iff.mp subgraph_mem)⟩
  rw [restatedListed] at listed ⊢
  rw [rootBody]
  cases hierarchy_eq : model.root.bind model.graphs.hierarchy? with
  | some hierarchy =>
      rw [hierarchy_eq] at listed
      exact body_settles settles hierarchy listed
  | none => exact (Settles.value []).of_iff (by simp)

/-- A tree is there unless one of the attributes in it has no form in a document. -/
theorem toTree_settles (settles : model.Encodes encode fault fails) (resolved : model.Resolved) :
    Settles fault (model.StatesAttrs fails) (model.toTree encode) := by
  have listed := rootBody_settles settles resolved.toWellFormed
  have nodes := Settles.mapM fun id (_ : id ∈ model.unlistedNodes) => nodeStmt_settles settles id
  have edges := Settles.mapM fun edge (edge_mem : edge ∈ model.unlistedEdges) =>
    edgeStmt_settles settles edge_mem
  have all := listed.bind fun statements => nodes.bind fun nodeStmts => edges.bind fun edgeStmts =>
    .value (Tree.graph model.kind model.id model.isStrict (statements ++ nodeStmts ++ edgeStmts))
  apply all.of_iff
  rw [resolved.statesAttrs_iff]
  simp

/-! ### The tree of a model with typed geometry -/

theorem attrsAt_mapAttrs (change : String → Value → Value) (model : Model) (place : Place) :
    (model.mapAttrs change).attrsAt place = (model.attrsAt place).mapValues change := by
  cases place with
  | node id => cases found : model.nodes.get? id <;> simp [attrsAt, mapAttrs, found, Node.mapAttrs]
  | edge number =>
      cases found : model.edges[number]? <;> simp [attrsAt, mapAttrs, found, Edge.mapAttrs]
  | graph key =>
      cases found : model.graphs.get? key <;> simp [attrsAt, mapAttrs, found, Subgraph.mapAttrs]

/-- A walk that does not stop holds every attribute in its typed form. -/
theorem exists_plain_of_completes {options : WalkOptions} {scale : Float} {tree : Tree}
    (completes : (Model.walk options (.typed (.float scale)) tree ∅).failure = none) :
    ∃ plain : Model, (Model.walk options (.typed (.float scale)) tree ∅).model =
      plain.mapAttrs (Geometry.typedForm (.typed (.float scale))) := by
  have wellFormed := wellFormed_empty.walkPlain options tree
  have retyped := wellFormed.retype_eq (Geometry.isTotal_of_float scale)
  rw [Model.walk] at completes ⊢
  cases stopped : (walkPlain options tree ∅).failure with
  | some failure => simp [retypeResult, stopped] at completes
  | none => exact ⟨(walkPlain options tree ∅).model, by simp only [retypeResult, stopped, retyped]⟩

/-- Whether the tree of a model states a size. -/
def StatesSize (model : Model) : Prop :=
  model.StatesAttrs Attributes.HoldsSize

/-- After a typed pass a tree can be regenerated unless it states a size under the scale zero. -/
theorem toTree_typed (options : WalkOptions) (scale : Float) (tree : Tree)
    (completes : (Model.walk options (.typed (.float scale)) tree ∅).failure = none) :
    let geometry := Geometry.typed (.float scale)
    let model := (Model.walk options geometry tree ∅).model
    Settles .floatDivisionByZero ((scale == 0.0) = true ∧ model.StatesSize)
      (model.toTree geometry.encode) := by
  intro geometry model
  have resolved : model.Resolved :=
    (intact_lastsInWalks.walk intact_empty options geometry tree).toResolved
  have typed : ∃ plain : Model, model = plain.mapAttrs geometry.typedForm :=
    exists_plain_of_completes completes
  obtain ⟨plain, model_eq⟩ := typed
  have encodes : model.Encodes geometry.encode .floatDivisionByZero
      fun attrs => (scale == 0.0) = true ∧ attrs.HoldsSize := by
    intro place
    rw [model_eq, attrsAt_mapAttrs]
    exact attrList_settles scale (plain.attrsAt place)
  apply (toTree_settles encodes resolved).of_iff
  grind [StatesSize, StatesAttrs]

end Model

end DotLang
