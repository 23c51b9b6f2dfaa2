import DotLang.Proofs.EdgeIndex
import DotLang.Proofs.Operations

/-!
# Walks only add

A walk never takes anything back. What a table of the model lists stays listed in
its place and new entries come behind it (`Model.Precedes`), and what is known
about a node or a subgraph stays known (`Model.KeptIn`). This holds of each single
step of a walk, so it makes no difference how far the walk gets: the model that a
stopped walk leaves behind is what it has added to (`keptIn_of_walk`).
-/

namespace DotLang

namespace OrderedMap

variable {κ α : Type} [DecidableEq κ]

theorem keys_prefix_insert (map : OrderedMap κ α) (key : κ) (value : α) :
    map.keys <+: (map.insert key value).keys := by
  rw [keys_insert]
  split
  · exact List.prefix_rfl
  · exact List.prefix_append _ _

theorem keys_prefix_override (target source : OrderedMap κ α) :
    target.keys <+: (target.override source).keys := by
  rw [keys_override]
  exact List.prefix_append _ _

theorem keys_prefix_fill (blank : α → Bool) (target source : OrderedMap κ α) :
    target.keys <+: (target.fill blank source).keys := by
  rw [keys_fill]
  exact List.prefix_append _ _

end OrderedMap

/-- What is known about a subgraph stays known: its names and its place stay as they are, and its
members, edges, children and attributes are listed first. -/
structure Subgraph.KeptIn (old new : Subgraph) : Prop where
  key : new.key = old.key
  id : new.id = old.id
  parent : new.parent = old.parent
  nodes : old.nodes <+: new.nodes
  edges : old.edges <+: new.edges
  children : old.children <+: new.children
  attrs : old.attrs.keys <+: new.attrs.keys

namespace Subgraph.KeptIn

theorem refl (subgraph : Subgraph) : subgraph.KeptIn subgraph :=
  ⟨rfl, rfl, rfl, List.prefix_rfl, List.prefix_rfl, List.prefix_rfl, List.prefix_rfl⟩

theorem trans {first second third : Subgraph} (early : first.KeptIn second)
    (late : second.KeptIn third) : first.KeptIn third where
  key := late.key.trans early.key
  id := late.id.trans early.id
  parent := late.parent.trans early.parent
  nodes := early.nodes.trans late.nodes
  edges := early.edges.trans late.edges
  children := early.children.trans late.children
  attrs := early.attrs.trans late.attrs

theorem addNode (subgraph : Subgraph) (node : String) :
    subgraph.KeptIn (subgraph.addNode node) := by
  rw [Subgraph.addNode]
  split
  · exact refl subgraph
  · exact { refl subgraph with nodes := List.prefix_append _ _ }

theorem addEdges (subgraph : Subgraph) (numbers : List Nat) :
    subgraph.KeptIn { subgraph with edges := subgraph.edges ++ numbers } :=
  { refl subgraph with edges := List.prefix_append _ _ }

theorem addChild (subgraph : Subgraph) (child : String) :
    subgraph.KeptIn { subgraph with children := subgraph.children ++ [child] } :=
  { refl subgraph with children := List.prefix_append _ _ }

theorem override (subgraph : Subgraph) (attrs : Attributes) :
    subgraph.KeptIn { subgraph with attrs := subgraph.attrs.override attrs } :=
  { refl subgraph with attrs := OrderedMap.keys_prefix_override _ _ }

theorem retitle (subgraph : Subgraph) (kind : String) : subgraph.KeptIn { subgraph with kind } :=
  { refl subgraph with }

end Subgraph.KeptIn

namespace Model

/-- The tables of the first model come first in those of the second. -/
structure Precedes (first second : Model) : Prop where
  nodes : first.nodes.keys <+: second.nodes.keys
  graphs : first.graphs.keys <+: second.graphs.keys
  edges : first.edges <+: second.edges
  diagnostics : first.diagnostics <+: second.diagnostics

namespace Precedes

variable {first second third : Model}

theorem refl (model : Model) : model.Precedes model :=
  ⟨List.prefix_rfl, List.prefix_rfl, List.prefix_rfl, List.prefix_rfl⟩

theorem trans (early : first.Precedes second) (late : second.Precedes third) :
    first.Precedes third where
  nodes := early.nodes.trans late.nodes
  graphs := early.graphs.trans late.graphs
  edges := early.edges.trans late.edges
  diagnostics := early.diagnostics.trans late.diagnostics

/-- Pairs of end points that occur later come later in the index. -/
theorem edgeIndex_keys (precedes : first.Precedes second) :
    first.edgeIndex.keys <+: second.edgeIndex.keys := by
  obtain ⟨created, edges_eq⟩ := precedes.edges
  rw [keys_edgeIndex, keys_edgeIndex, ← edges_eq, List.map_append, List.eraseDups_append]
  exact List.prefix_append _ _

theorem getEdges (precedes : first.Precedes second) (tail head : String) :
    first.getEdges tail head <+: second.getEdges tail head := by
  rw [getEdges_eq, getEdges_eq]
  exact precedes.edges.filter _

theorem putNode (model : Model) (node : Node) : model.Precedes (model.putNode node) :=
  { refl model with nodes := OrderedMap.keys_prefix_insert _ _ _ }

theorem plant (model : Model) (parent : Option String) (subgraph : Subgraph) :
    model.Precedes { model with graphs := Walk.plant model.graphs parent subgraph } :=
  { refl model with
    graphs := by
      rw [Walk.keys_plant]
      exact OrderedMap.keys_prefix_insert _ _ _ }

end Precedes

/-- All that the first model holds is kept in the second. -/
structure KeptIn (first second : Model) : Prop extends Precedes first second where
  /-- A node stays, with all its attributes listed first. -/
  node_attrs : ∀ {id old}, first.nodes.get? id = some old →
    ∃ new, second.nodes.get? id = some new ∧ old.attrs.keys <+: new.attrs.keys
  /-- A subgraph stays, with all that is known about it. -/
  subgraph : ∀ {key old}, first.graphs.get? key = some old →
    ∃ new, second.graphs.get? key = some new ∧ old.KeptIn new
  /-- The root stays the root. -/
  root_eq : ∀ {key}, first.root = some key → second.root = some key

namespace KeptIn

variable {first second third : Model}

theorem refl (model : Model) : model.KeptIn model where
  toPrecedes := .refl model
  node_attrs found := ⟨_, found, List.prefix_rfl⟩
  subgraph found := ⟨_, found, .refl _⟩
  root_eq root_eq := root_eq

theorem trans (early : first.KeptIn second) (late : second.KeptIn third) :
    first.KeptIn third where
  toPrecedes := early.toPrecedes.trans late.toPrecedes
  node_attrs := by
    intro id old found
    obtain ⟨middle, middleFound, attrs⟩ := early.node_attrs found
    obtain ⟨new, newFound, attrs'⟩ := late.node_attrs middleFound
    exact ⟨new, newFound, attrs.trans attrs'⟩
  subgraph := by
    intro key old found
    obtain ⟨middle, middleFound, kept⟩ := early.subgraph found
    obtain ⟨new, newFound, kept'⟩ := late.subgraph middleFound
    exact ⟨new, newFound, kept.trans kept'⟩
  root_eq root_eq := late.root_eq (early.root_eq root_eq)

/-- One subgraph is changed so that it keeps what is known about it. -/
theorem modify (model : Model) (key : String) {change : Subgraph → Subgraph}
    (keeps : ∀ old : Subgraph, old.KeptIn (change old)) :
    model.KeptIn { model with graphs := model.graphs.modify key change } where
  toPrecedes := { Precedes.refl model with
    graphs := by simp only [OrderedMap.keys_modify, List.prefix_rfl] }
  node_attrs found := ⟨_, found, List.prefix_rfl⟩
  subgraph := by
    intro other old found
    rw [OrderedMap.get?_modify, found]
    split
    · exact ⟨change old, rfl, keeps old⟩
    · exact ⟨old, rfl, .refl old⟩
  root_eq root_eq := root_eq

/-- A node is written with at least the attributes that it had. -/
theorem putNode (model : Model) {node : Node}
    (keeps : ∀ {old}, model.nodes.get? node.id = some old → old.attrs.keys <+: node.attrs.keys) :
    model.KeptIn (model.putNode node) where
  toPrecedes := .putNode model node
  node_attrs := by
    intro id old found
    rw [Model.putNode, OrderedMap.get?_insert]
    split
    · next same => exact ⟨node, rfl, keeps (same ▸ found)⟩
    · exact ⟨old, found, List.prefix_rfl⟩
  subgraph found := ⟨_, found, .refl _⟩
  root_eq root_eq := root_eq

theorem addEdges (model : Model) (edges : List Edge) : model.KeptIn (model.addEdges edges) where
  toPrecedes := { Precedes.refl model with edges := List.prefix_append _ _ }
  node_attrs found := ⟨_, found, List.prefix_rfl⟩
  subgraph found := ⟨_, found, .refl _⟩
  root_eq root_eq := root_eq

theorem addDiagnostic (model : Model) (diagnostic : String) :
    model.KeptIn { model with diagnostics := model.diagnostics ++ [diagnostic] } where
  toPrecedes := { Precedes.refl model with diagnostics := List.prefix_append _ _ }
  node_attrs found := ⟨_, found, List.prefix_rfl⟩
  subgraph found := ⟨_, found, .refl _⟩
  root_eq root_eq := root_eq

theorem setRoot (model : Model) (key : String) (isStrict : Bool) :
    model.KeptIn (model.setRoot key isStrict) := by
  rw [Model.setRoot]
  split
  · exact refl model
  · next sameRoot =>
      split
      · refine { refl model with root_eq := ?_ }
        intro root root_eq
        rw [Model.hasOtherRoot, root_eq] at sameRoot
        have same : root = key := by simpa using sameRoot
        rw [same]
      · exact refl model

/-- A subgraph is planted below a listed one or outside. -/
theorem plant {model : Model} (nested : model.graphs.Nested) {parent id : Option String}
    {key : String} (absent : key ∉ model.graphs.keys) (enclosed : Walk.Enclosed parent model) :
    model.KeptIn { model with graphs := Walk.plant model.graphs parent { key, id } } where
  toPrecedes := .plant model parent _
  node_attrs found := ⟨_, found, List.prefix_rfl⟩
  subgraph := by
    intro handle old found
    have differs : handle ≠ key := fun same => absent (same ▸ OrderedMap.mem_keys_of_get? found)
    rw [Walk.get?_plant nested absent enclosed, if_neg differs, found]
    split
    · exact ⟨_, rfl, .addChild old key⟩
    · exact ⟨old, rfl, .refl old⟩
  root_eq root_eq := root_eq

end KeptIn

end Model

namespace Walk

variable {options : WalkOptions} {before later : WalkState}

/-- A node keeps its attributes when it is mentioned, whatever is listed and whatever the
defaults. -/
theorem keptIn_after_mention (wellFormed : before.model.WellFormed) (id : String)
    (attrs defaults : Attributes) (parent : Option String) :
    before.model.KeptIn (after (mention id attrs defaults parent) before).model := by
  let node := (before.model.nodes.get? id).getD { id }
  have node_id : node.id = id := by
    cases found : before.model.nodes.get? id with
    | none => simp [node, found]
    | some old => simp [node, found, wellFormed.node_id found]
  have written : before.model.KeptIn (before.model.putNode
      { node with attrs := Attributes.fill (node.attrs.override attrs) defaults }) := by
    apply Model.KeptIn.putNode
    intro old found
    have node_eq : node = old := by
      have found' : before.model.nodes.get? id = some old := node_id ▸ found
      simp [node, found']
    rw [← node_eq]
    exact (OrderedMap.keys_prefix_override _ _).trans (OrderedMap.keys_prefix_fill _ _ _)
  cases parent with
  | none => exact written
  | some above => exact written.trans (.modify _ above fun old => .addNode old id)

/-- A step of a walk keeps all that is there. -/
theorem Step.keptIn (wellFormed : before.model.WellFormed) (step : Step options before later) :
    before.model.KeptIn later.model := by
  cases step with
  | skip tree =>
      rw [model_after_skip]
      split
      · exact .refl _
      · exact .addDiagnostic _ _
  | enter parent id enclosed =>
      rw [model_after_enter]
      dsimp only
      split
      · exact .refl _
      · next absent => exact .plant wellFormed.nested absent enclosed
  | promote key kind isStrict listed =>
      rw [model_after_promote, promoted]
      exact (Model.KeptIn.modify _ key fun old => .retitle old kind).trans (.setRoot _ key isStrict)
  | settle key attrs listed => exact .modify _ key fun old => .override old attrs
  | mention id attrs defaults parent enclosed =>
      exact keptIn_after_mention wellFormed id attrs defaults parent
  | createEdges parent edges enclosed known =>
      cases parent with
      | none => exact .addEdges _ edges
      | some above =>
          exact (Model.KeptIn.addEdges _ edges).trans (.modify _ above fun old => .addEdges old _)

/-- What a step keeps is kept by any number of steps. -/
theorem Steps.keptIn (wellFormed : before.model.WellFormed) (steps : Steps options before later) :
    before.model.KeptIn later.model := by
  have kept := steps.preserve
    (fun state => state.model.WellFormed ∧ before.model.KeptIn state.model)
    (fun ⟨wellFormed, kept⟩ step =>
      ⟨step.wellFormed wellFormed, kept.trans (step.keptIn wellFormed)⟩)
    ⟨wellFormed, .refl _⟩
  exact kept.2

end Walk

namespace Model

/-- Walking into a model that came up in any way keeps all that the model holds, whether the walk
goes through or stops. -/
theorem keptIn_of_walk {model : Model} (reachable : model.Reachable) (options : WalkOptions)
    (tree : Tree) :
    let walked := (model.walkPlain options tree).model
    model.KeptIn walked ∧ model.edgeIndex.keys <+: walked.edgeIndex.keys ∧
      ∀ tail head, model.getEdges tail head <+: walked.getEdges tail head := by
  intro walked
  obtain ⟨final, steps, model_eq⟩ := model.walkPlain_steps options tree
  have kept : model.KeptIn walked := by
    rw [show walked = final.model from model_eq]
    exact steps.keptIn reachable.wellFormed
  exact ⟨kept, kept.edgeIndex_keys, kept.getEdges⟩

/-- A strict walk into a model with a root. It enters two subgraphs of the model again, one of them
from inside the other, adds a parallel edge and another graph, and stops. -/
theorem keptIn_of_stopped_walk :
    let node (id : String) := Tree.nodeId { id }
    let early := Tree.graph "digraph" (some "g") false
      [.subgraph (some "s") [.edgeStmt [node "a", node "b"] [⟨"color", .text "red"⟩]],
        .subgraph (some "t") []]
    let late := Tree.graph "graph" (some "h") true
      [.subgraph (some "t") [.subgraph (some "s") [.attrStmt "edge" [⟨"color", .text "blue"⟩],
        .edgeStmt [node "a", node "b"] [], .nodeStmt (.nodeId { id := "c" }) [], .raw .null]]]
    let model := (walkPlain {} early ∅).model
    let result := model.walkPlain { isStrict := true } late
    model.Reachable ∧ result.failure.isSome ∧ result.model.graphs.keys = ["g", "s", "t", "h"] ∧
      result.model.root = some "g" ∧ (result.model.getEdges "a" "b").length = 2 ∧
      model.KeptIn result.model := by
  intro node early late model result
  have reachable : model.Reachable := .operate (.walk {} .plain early) .empty
  exact ⟨reachable, by decide, by decide, by decide, by decide,
    (keptIn_of_walk reachable { isStrict := true } late).1⟩

end Model

end DotLang
