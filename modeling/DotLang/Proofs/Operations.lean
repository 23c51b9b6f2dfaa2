import DotLang.Proofs.Walk.Consistency

/-!
# What can be done to a model

A model starts empty and changes by operations: a walk, with or without the typed
pass, and the changes that a caller makes by hand. `Model.Reachable` collects the
models that come up in this way, those in the middle of a walk included, since a
walk that stops leaves such a model behind.

All of them are well formed. What this means for the subgraphs is spelled out in
`Model.Forested`, the main result being `forested_of_reachable`.
-/

namespace DotLang

/-- What can be done to a model. -/
inductive Operation where
  /-- A tree is walked into it. -/
  | walk (options : WalkOptions) (geometry : Geometry) (tree : Tree)
  /-- A node takes the place of any node with its name. -/
  | putNode (node : Node)
  /-- An edge is added outside of all subgraphs. -/
  | addEdge (edge : Edge)
  /-- A node is listed as a member of a subgraph. -/
  | addMember (key node : String)
  /-- A subgraph is made the root. -/
  | setRoot (key : String) (isStrict : Bool)
  /-- All attributes get their typed form. -/
  | retype (geometry : Geometry)

/-- The model after an operation, also when a walk or a typed pass stopped on the way. -/
def Operation.apply (model : Model) : Operation → Model
  | .walk options geometry tree => (model.walk options geometry tree).model
  | .putNode node => model.putNode node
  | .addEdge edge => model.addEdges [edge]
  | .addMember key node => model.addMember key node
  | .setRoot key isStrict => model.setRoot key isStrict
  | .retype geometry => (model.retype geometry).1

namespace Model

/-- The models that operations lead to, and those that a walk passes through on its way. -/
inductive Reachable : Model → Prop where
  /-- A new model. -/
  | empty : Reachable ∅
  /-- An operation is carried out. -/
  | operate {model : Model} (operation : Operation) (reachable : Reachable model) :
      Reachable (operation.apply model)
  /-- A walk has taken some of its steps. -/
  | midway {model : Model} {options : WalkOptions} {state : WalkState}
      (reachable : Reachable model) (steps : Walk.Steps options { model } state) :
      Reachable state.model

/-- The subgraphs of a model form a forest that can be walked from its tops. -/
structure Forested (model : Model) : Prop where
  /-- Every subgraph stands under its own key. -/
  key_eq : ∀ {handle subgraph}, model.graphs.get? handle = some subgraph → subgraph.key = handle
  /-- A subgraph has a parent exactly when the parent has it as a child. -/
  parent_iff : ∀ {inner outer child parent}, model.graphs.get? inner = some child →
    model.graphs.get? outer = some parent →
    (child.parent = some outer ↔ inner ∈ parent.children)
  /-- Parents are listed. -/
  parent_listed : ∀ {handle subgraph parent}, model.graphs.get? handle = some subgraph →
    subgraph.parent = some parent → parent ∈ model.graphs.keys
  /-- Children are listed. -/
  children_listed : ∀ {handle subgraph}, model.graphs.get? handle = some subgraph →
    ∀ child ∈ subgraph.children, child ∈ model.graphs.keys
  /-- No child is listed twice. -/
  children_nodup : ∀ {handle subgraph}, model.graphs.get? handle = some subgraph →
    subgraph.children.Nodup
  /-- The root is listed. -/
  root_listed : ∀ {root}, model.root = some root → root ∈ model.graphs.keys
  /-- Parent chains are finite. -/
  parents_finite : WellFounded fun parent child => model.graphs.parent? child = some parent
  /-- Going down from a subgraph ends on its own, without the limit on the depth. -/
  hierarchy_eq : ∀ {handle subgraph}, model.graphs.get? handle = some subgraph →
    model.graphs.hierarchy? handle =
      some (.scope subgraph (subgraph.children.filterMap model.graphs.hierarchy?))
  /-- Going down from the subgraphs without parent meets every subgraph exactly once. -/
  met_once : (model.graphs.tops.flatMap model.graphs.descendants).Perm model.graphs.values

namespace WellFormed

variable {model : Model}

theorem forested (wellFormed : model.WellFormed) : model.Forested := by
  have nested := wellFormed.nested
  constructor
  case key_eq => exact nested.key_eq
  case parent_iff =>
    intro inner outer child parent found parentFound
    have parent_eq : model.graphs.parent? inner = child.parent := by
      simp [Forest.parent?, found]
    rw [← parent_eq]
    constructor
    · intro up
      rcases nested.child_of_parent up with ⟨above, aboveFound, child_mem⟩
      cases parentFound.symm.trans aboveFound
      exact child_mem
    · exact nested.parent_of_child parentFound
  case parent_listed =>
    intro handle subgraph parent found parent_eq
    have up : model.graphs.parent? handle = some parent := by
      simp [Forest.parent?, found, parent_eq]
    rcases nested.child_of_parent up with ⟨above, aboveFound, _⟩
    exact OrderedMap.mem_keys_of_get? aboveFound
  case children_listed =>
    intro handle subgraph found child child_mem
    rcases Forest.get?_of_parent? (nested.parent_of_child found child_mem) with ⟨inner, listed, _⟩
    exact OrderedMap.mem_keys_of_get? listed
  case children_nodup => exact nested.children_nodup
  case root_listed =>
    intro root root_eq
    rcases wellFormed.root_id root_eq with ⟨subgraph, found, _⟩
    exact OrderedMap.mem_keys_of_get? found
  case parents_finite => exact nested.wellFounded_parent
  case hierarchy_eq => exact nested.hierarchy?_eq
  case met_once => exact nested.walk_tops_perm_values

theorem walkPlain (wellFormed : model.WellFormed) (options : WalkOptions) (tree : Tree) :
    (model.walkPlain options tree).model.WellFormed := by
  rcases model.walkPlain_steps options tree with ⟨final, steps, model_eq⟩
  rw [model_eq]
  exact steps.wellFormed wellFormed

/-- Attributes can be put anywhere. -/
theorem setAttrsAt (wellFormed : model.WellFormed) (attrs : Attributes) (place : Place) :
    (model.setAttrsAt attrs place).WellFormed := by
  cases place with
  | node id =>
      refine ⟨wellFormed.nested, ?_, wellFormed.root_id⟩
      intro other node found
      exact OrderedMap.forall_get?_modify (fun id node => node.id = id) wellFormed.node_id
        (fun found => wellFormed.node_id found) found
  | edge number => exact ⟨wellFormed.nested, wellFormed.node_id, wellFormed.root_id⟩
  | graph key =>
      exact wellFormed.modify key (fun subgraph => { subgraph with attrs })
        fun _ => ⟨rfl, rfl, rfl, rfl⟩

end WellFormed

/-- What the steps of a walk keep, and attributes put anywhere. -/
structure LastsInWalks (invariant : Model → Prop) : Prop where
  step : ∀ {options : WalkOptions} {before later : WalkState}, invariant before.model →
    Walk.Step options before later → invariant later.model
  setAttrsAt : ∀ {model : Model} (attrs : Attributes) (place : Place), invariant model →
    invariant (model.setAttrsAt attrs place)

namespace LastsInWalks

variable {invariant : Model → Prop} {model : Model}

theorem steps (lasts : LastsInWalks invariant) {options : WalkOptions} {before later : WalkState}
    (holds : invariant before.model) (steps : Walk.Steps options before later) :
    invariant later.model :=
  steps.preserve (fun state => invariant state.model) lasts.step holds

theorem retypeAt (lasts : LastsInWalks invariant) (holds : invariant model) (geometry : Geometry)
    (places : List Place) : invariant (Model.retypeAt geometry places model).1 := by
  induction places generalizing model with
  | nil => exact holds
  | cons place rest ih =>
      rw [Model.retypeAt]
      split
      · exact ih (lasts.setAttrsAt _ place holds)
      · exact lasts.setAttrsAt _ place holds

theorem walk (lasts : LastsInWalks invariant) (holds : invariant model) (options : WalkOptions)
    (geometry : Geometry) (tree : Tree) :
    invariant (model.walk options geometry tree).model := by
  have walked : invariant (model.walkPlain options tree).model := by
    rcases model.walkPlain_steps options tree with ⟨final, steps, model_eq⟩
    rw [model_eq]
    exact lasts.steps holds steps
  rw [Model.walk]
  unfold Model.retypeResult
  split
  · exact lasts.retypeAt walked _ _
  · exact walked

end LastsInWalks

/-- What walks keep, and the changes that a caller makes by hand. -/
structure Lasting (invariant : Model → Prop) : Prop extends LastsInWalks invariant where
  putNode : ∀ {model : Model} (node : Node), invariant model → invariant (model.putNode node)
  addEdge : ∀ {model : Model} (edge : Edge), invariant model → invariant (model.addEdges [edge])
  addMember : ∀ {model : Model} (key node : String), invariant model →
    invariant (model.addMember key node)
  setRoot : ∀ {model : Model} (key : String) (isStrict : Bool), invariant model →
    invariant (model.setRoot key isStrict)

namespace Lasting

variable {invariant : Model → Prop} {model : Model}

theorem apply (lasting : Lasting invariant) (holds : invariant model) (operation : Operation) :
    invariant (operation.apply model) := by
  cases operation with
  | walk options geometry tree => exact lasting.walk holds options geometry tree
  | putNode node => exact lasting.putNode node holds
  | addEdge edge => exact lasting.addEdge edge holds
  | addMember key node => exact lasting.addMember key node holds
  | setRoot key isStrict => exact lasting.setRoot key isStrict holds
  | retype geometry => exact lasting.retypeAt holds geometry model.places

end Lasting

/-- What lasts and holds of a new model holds of all models that come up. -/
theorem Reachable.keeps {invariant : Model → Prop} (lasting : Lasting invariant)
    (empty : invariant ∅) {model : Model} (reachable : model.Reachable) : invariant model := by
  induction reachable with
  | empty => exact empty
  | operate operation _ ih => exact lasting.apply ih operation
  | midway _ steps ih => exact lasting.steps ih steps

theorem wellFormed_lasting : Lasting WellFormed where
  step wellFormed step := step.wellFormed wellFormed
  setAttrsAt attrs place wellFormed := wellFormed.setAttrsAt attrs place
  putNode node wellFormed := wellFormed.putNode node
  addEdge _ wellFormed := ⟨wellFormed.nested, wellFormed.node_id, wellFormed.root_id⟩
  addMember key node wellFormed :=
    wellFormed.modify key (fun subgraph => subgraph.addNode node)
      fun subgraph => subgraph.addNode_samePlace node
  setRoot key isStrict wellFormed := wellFormed.setRoot key isStrict

theorem Reachable.wellFormed {model : Model} (reachable : model.Reachable) :
    model.WellFormed :=
  reachable.keeps wellFormed_lasting wellFormed_empty

/-- Whatever is done to a model, and wherever a walk stops, its subgraphs form a forest. -/
theorem forested_of_reachable {model : Model} (reachable : model.Reachable) : model.Forested :=
  reachable.wellFormed.forested

/-- A strict walk enters a subgraph again from inside its own child and stops there. -/
theorem forested_of_stopped_walk :
    let tree := Tree.graph "digraph" none false
      [.subgraph "a" [.subgraph "b" [.subgraph "a" [.raw .null]]]]
    let result := Model.walk { isStrict := true } .plain tree ∅
    result.failure.isSome ∧ result.model.graphs.keys = ["__anon1", "a", "b"] ∧
      result.model.Forested :=
  ⟨rfl, rfl, forested_of_reachable
    (.operate (.walk { isStrict := true } .plain
      (.graph "digraph" none false
        [.subgraph "a" [.subgraph "b" [.subgraph "a" [.raw .null]]]])) .empty)⟩

end Model

end DotLang
