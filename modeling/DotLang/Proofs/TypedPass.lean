import DotLang.Proofs.EdgeIndex
import DotLang.Proofs.Operations
import DotLang.Proofs.Walk.Completion

/-!
# The typed pass replaces every attribute once

With a scale that is a double every attribute has a typed form, so the pass does
not stop. It visits a list of places, and a visit replaces the attributes at that
place (`setAttrsAt_attrsAt`). The places are all different (`nodup_places`) and
include every node, edge and subgraph (`mem_places`), the subgraphs because they
form a forest. Hence the pass is the same as changing all attributes at once
(`retype_eq`).
-/

namespace DotLang

deriving instance DecidableEq for Place

/-! ### Typed forms -/

namespace Geometry

/-- The typed form of an attribute; a value without one stands for itself. -/
def typedForm (geometry : Geometry) (name : String) (value : Value) : Value :=
  match geometry.parse name value with
  | .ok form => form
  | .error _ => value

/-- Whether every attribute has a typed form. -/
def IsTotal (geometry : Geometry) : Prop :=
  ∀ name value, geometry.parse name value = .ok (geometry.typedForm name value)

/-- Multiplying a size by a double always gives a double. -/
theorem isTotal_of_float (scale : Float) : (Geometry.typed (.float scale)).IsTotal := by
  intro name value
  have parsed : ∃ form, (Geometry.typed (.float scale)).parse name value = .ok form := by
    simp only [parse]
    split
    · split
      · exact ⟨_, rfl⟩
      · exact ⟨_, rfl⟩
    · split
      · exact ⟨_, rfl⟩
      · split
        · exact ⟨_, rfl⟩
        · exact ⟨_, rfl⟩
  rcases parsed with ⟨form, parsed⟩
  rw [typedForm, parsed]

end Geometry

namespace Attributes

variable {geometry : Geometry}

theorem retype_eq_insertAll (total : geometry.IsTotal) (entries : List (String × Value))
    (attrs : Attributes) :
    retype geometry entries attrs =
      (attrs.insertAll (entries.map fun (name, value) => (name, geometry.typedForm name value)),
        none) := by
  induction entries generalizing attrs with
  | nil => rfl
  | cons entry rest ih =>
      rcases entry with ⟨name, value⟩
      rw [retype, total name value]
      exact ih (attrs.insert name (geometry.typedForm name value))

/-- All values are replaced, and the keys keep their order. -/
theorem retype_entries (total : geometry.IsTotal) (attrs : Attributes) :
    retype geometry attrs.entries attrs = (attrs.mapValues geometry.typedForm, none) := by
  have sameKeys : attrs.keys = (attrs.mapValues geometry.typedForm).keys := by simp
  rw [retype_eq_insertAll total]
  exact congrArg (·, none) (OrderedMap.override_eq_of_keys_eq sameKeys)

end Attributes

/-! ### Changing attributes all over a model -/

/-- The node with its attributes changed. -/
def Node.mapAttrs (change : String → Value → Value) (node : Node) : Node :=
  { node with attrs := node.attrs.mapValues change }

/-- The edge with its attributes changed. -/
def Edge.mapAttrs (change : String → Value → Value) (edge : Edge) : Edge :=
  { edge with attrs := edge.attrs.mapValues change }

/-- The subgraph with its attributes changed. -/
def Subgraph.mapAttrs (change : String → Value → Value) (subgraph : Subgraph) : Subgraph :=
  { subgraph with attrs := subgraph.attrs.mapValues change }

namespace Model

variable {change : String → Value → Value} {geometry : Geometry}

/-- Changes every attribute of a model and nothing else. -/
def mapAttrs (change : String → Value → Value) (model : Model) : Model :=
  { model with
    nodes := model.nodes.mapValues fun _ node => node.mapAttrs change
    edges := model.edges.map fun edge => edge.mapAttrs change
    graphs := model.graphs.mapValues fun _ subgraph => subgraph.mapAttrs change }

/-- Changes the attributes at some places of a model. -/
def mapAttrsWhere (change : String → Value → Value) (within : Place → Bool) (model : Model) :
    Model :=
  { model with
    nodes := model.nodes.mapValues fun id node =>
      if within (.node id) then node.mapAttrs change else node
    edges := model.edges.mapIdx fun number edge =>
      if within (.edge number) then edge.mapAttrs change else edge
    graphs := model.graphs.mapValues fun key subgraph =>
      if within (.graph key) then subgraph.mapAttrs change else subgraph }

theorem mapAttrsWhere_nowhere (model : Model) :
    model.mapAttrsWhere change (fun _ => false) = model := by
  have edges_eq : (model.edges.mapIdx fun _ edge => edge) = model.edges := by
    apply List.ext_getElem?
    simp
  simp [mapAttrsWhere, edges_eq]

/-- Changes at different places add up. -/
theorem mapAttrsWhere_mapAttrsWhere {within within' : Place → Bool}
    (disjoint : ∀ place, within place = true → within' place = false) (model : Model) :
    (model.mapAttrsWhere change within).mapAttrsWhere change within' =
      model.mapAttrsWhere change fun place => within place || within' place := by
  have once {α : Type} (place : Place) (value : α) (changed : α → α) :
      (if within' place then changed (if within place then changed value else value)
        else if within place then changed value else value) =
      if within place || within' place then changed value else value := by
    by_cases first : within place = true
    · simp [first, disjoint place first]
    · simp [first]
  simp only [mapAttrsWhere, OrderedMap.mapValues_mapValues, List.mapIdx_mapIdx]
  congr 1
  · congr 1
    funext id node
    exact once (.node id) node (Node.mapAttrs change)
  · congr 1
    funext number edge
    exact once (.edge number) edge (Edge.mapAttrs change)
  · congr 1
    funext key subgraph
    exact once (.graph key) subgraph (Subgraph.mapAttrs change)

/-- Changing the attributes at all places is changing every attribute. -/
theorem mapAttrsWhere_everywhere {within : Place → Bool} {model : Model}
    (nodes : ∀ id ∈ model.nodes.keys, within (.node id) = true)
    (edges : ∀ number < model.edges.length, within (.edge number) = true)
    (graphs : ∀ key ∈ model.graphs.keys, within (.graph key) = true) :
    model.mapAttrsWhere change within = model.mapAttrs change := by
  rw [mapAttrsWhere, mapAttrs]
  congr 1
  · apply OrderedMap.mapValues_congr
    intro id node found
    rw [if_pos (nodes id (OrderedMap.mem_keys_of_get? found))]
  · apply List.ext_getElem?
    intro number
    rw [List.getElem?_mapIdx, List.getElem?_map]
    cases found : model.edges[number]? with
    | none => rfl
    | some edge =>
        have bounded := (List.getElem?_eq_some_iff.mp found).1
        simp [edges number bounded]
  · apply OrderedMap.mapValues_congr
    intro key subgraph found
    rw [if_pos (graphs key (OrderedMap.mem_keys_of_get? found))]

/-- Putting changed attributes back in their place. -/
theorem setAttrsAt_attrsAt (model : Model) (place : Place) :
    model.setAttrsAt ((model.attrsAt place).mapValues change) place =
      model.mapAttrsWhere change fun other => other = place := by
  have edges_eq : (model.edges.mapIdx fun _ edge => edge) = model.edges := by
    apply List.ext_getElem?
    simp
  cases place with
  | node id =>
      have nodes_eq : (model.nodes.modify id fun node =>
          { node with attrs := (model.attrsAt (.node id)).mapValues change }) =
            model.nodes.modify id (Node.mapAttrs change) := by
        apply OrderedMap.modify_congr
        intro node found
        simp [attrsAt, found, Node.mapAttrs]
      rw [setAttrsAt, nodes_eq]
      simp [mapAttrsWhere, OrderedMap.modify, edges_eq]
  | edge number =>
      have edges_eq : (model.edges.modify number fun edge =>
          { edge with attrs := (model.attrsAt (.edge number)).mapValues change }) =
            model.edges.mapIdx fun other edge =>
              if other = number then edge.mapAttrs change else edge := by
        apply List.ext_getElem?
        intro other
        rw [List.getElem?_modify, List.getElem?_mapIdx]
        by_cases same : other = number
        · subst same
          cases found : model.edges[other]? <;> simp [attrsAt, found, Edge.mapAttrs]
        · have differs : number ≠ other := Ne.symm same
          cases model.edges[other]? <;> simp [same, differs]
      simp [setAttrsAt, edges_eq, mapAttrsWhere]
  | graph key =>
      have graphs_eq : (model.graphs.modify key fun subgraph =>
          { subgraph with attrs := (model.attrsAt (.graph key)).mapValues change }) =
            model.graphs.modify key (Subgraph.mapAttrs change) := by
        apply OrderedMap.modify_congr
        intro subgraph found
        simp [attrsAt, found, Subgraph.mapAttrs]
      rw [setAttrsAt, graphs_eq]
      simp [mapAttrsWhere, OrderedMap.modify, edges_eq]

/-- At different places the pass replaces all attributes and does not stop. -/
theorem retypeAt_eq (total : geometry.IsTotal) {places : List Place} (nodup : places.Nodup)
    (model : Model) :
    retypeAt geometry places model =
      (model.mapAttrsWhere geometry.typedForm fun place => place ∈ places, none) := by
  induction places generalizing model with
  | nil => simp [retypeAt, mapAttrsWhere_nowhere]
  | cons place rest ih =>
      rw [List.nodup_cons] at nodup
      have disjoint : ∀ other, decide (other = place) = true → decide (other ∈ rest) = false := by
        intro other same
        rw [decide_eq_true_eq] at same
        simp [same, nodup.1]
      simp only [retypeAt, Attributes.retype_entries total]
      rw [setAttrsAt_attrsAt, ih nodup.2, mapAttrsWhere_mapAttrsWhere disjoint]
      simp

/-! ### The places of a model -/

namespace WellFormed

variable {model : Model}

/-- Every subgraph is a place of the typed pass, wherever it hangs in the forest. -/
theorem graphPlaces_perm (wellFormed : model.WellFormed) :
    (model.graphs.tops.flatMap fun top =>
        (model.graphs.descendants top).map fun subgraph => Place.graph subgraph.key).Perm
      (model.graphs.keys.map .graph) := by
  have mapped := wellFormed.nested.walk_tops_perm.map Place.graph
  rw [List.map_map, List.map_flatMap] at mapped
  exact mapped

theorem places_perm (wellFormed : model.WellFormed) :
    model.places.Perm (model.nodes.keys.map .node ++
      (List.range model.edges.length).map .edge ++ model.graphs.keys.map .graph) :=
  ((List.Perm.refl _).append (model.edgeOrder_perm.map Place.edge)).append
    wellFormed.graphPlaces_perm

/-- No place is visited twice. -/
theorem nodup_places (wellFormed : model.WellFormed) : model.places.Nodup := by
  rw [wellFormed.places_perm.nodup_iff, List.nodup_append', List.nodup_append']
  refine ⟨⟨?_, ?_, ?_⟩, ?_, ?_⟩
  · exact model.nodes.nodup_keys.map fun _ _ => Place.node.inj
  · exact List.nodup_range.map fun _ _ => Place.edge.inj
  · intro place node_mem edge_mem
    simp only [List.mem_map] at node_mem edge_mem
    rcases node_mem with ⟨id, _, rfl⟩
    simp at edge_mem
  · exact model.graphs.nodup_keys.map fun _ _ => Place.graph.inj
  · intro place entity_mem graph_mem
    simp only [List.mem_map] at graph_mem
    rcases graph_mem with ⟨key, _, rfl⟩
    simp at entity_mem

/-- The typed pass replaces every attribute by its typed form, and changes nothing else. -/
theorem retype_eq (wellFormed : model.WellFormed) (total : geometry.IsTotal) :
    model.retype geometry = (model.mapAttrs geometry.typedForm, none) := by
  have mem_places (place : Place) := wellFormed.places_perm.mem_iff (a := place)
  rw [retype, retypeAt_eq total wellFormed.nodup_places]
  rw [mapAttrsWhere_everywhere]
  all_goals intro entity entity_mem
  all_goals simp [mem_places, entity_mem]

end WellFormed

/-- A lenient walk with the typed pass leaves what it leaves without the pass, with every attribute
of every node, edge and subgraph in its typed form. -/
theorem walk_typed_eq {options : WalkOptions} (lenient : options.isStrict = false) (scale : Float)
    {tree : Tree} (named : tree.namesNodes) :
    let geometry := Geometry.typed (.float scale)
    let plain := Model.walk options .plain tree ∅
    (∀ name value, geometry.parse name value = .ok (geometry.typedForm name value)) ∧
      plain.failure = none ∧
      Model.walk options geometry tree ∅ =
        { plain with model := plain.model.mapAttrs geometry.typedForm } := by
  have total := Geometry.isTotal_of_float scale
  have completes := Model.walkPlain_completes lenient named ∅
  have wellFormed := wellFormed_empty.walkPlain options tree
  refine ⟨total, completes, ?_⟩
  rw [Model.walk, Model.walk]
  unfold retypeResult
  simp only [completes, wellFormed.retype_eq total, Option.map_none]

/-- A subgraph that is entered inside a graph and again outside of it is retyped once. -/
theorem walk_typed_eq_of_reentered :
    let tree := Tree.list [
      .graph "digraph" (some "g") false [
        .subgraph "a" [.attrStmt "graph" [⟨"bb", .text "0,0,1,1"⟩]],
        .nodeStmt (.nodeId { id := "n" }) [⟨"width", .text "0.75"⟩]],
      .subgraph "a" [.subgraph "b" []]]
    let plain := Model.walk {} .plain tree ∅
    let typed := Model.walk {} (.typed (.float 72.0)) tree ∅
    plain.model.graphs.keys = ["g", "a", "b"] ∧ typed.failure = none ∧
      typed.model = plain.model.mapAttrs (Geometry.typedForm (.typed (.float 72.0))) := by
  intro tree plain typed
  have lenient : WalkOptions.isStrict {} = false := rfl
  have named : tree.namesNodes = true := rfl
  have applied := walk_typed_eq lenient 72.0 named
  refine ⟨rfl, ?_, ?_⟩
  · exact (congrArg WalkResult.failure applied.2.2).trans applied.2.1
  · exact congrArg WalkResult.model applied.2.2

end Model

end DotLang
