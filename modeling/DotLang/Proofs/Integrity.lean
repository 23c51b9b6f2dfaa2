import DotLang.Proofs.EdgeIndex
import DotLang.Proofs.Operations

/-!
# Referential integrity

A model names nodes in two more places than its node table: at the ends of edges
and in the member lists of subgraphs. As long as it is only walked into, all of
these names refer to nodes (`referential_of_walked`), whatever the trees, and
also in the models that a walk leaves behind when it stops.

The invariant is `Model.Intact`: the model is resolved, and no subgraph lists a
member twice. The typed pass keeps it because it changes nothing but attributes.
-/

namespace DotLang

theorem Subgraph.nodup_addNode {subgraph : Subgraph} (nodup : subgraph.nodes.Nodup)
    (node : String) : (subgraph.addNode node).nodes.Nodup := by
  rw [addNode]
  split
  · exact nodup
  · next isNew =>
      rw [← List.concat_eq_append]
      exact nodup.concat isNew

namespace Model

/-- The models that walks lead to, one after the other, and those that a walk passes through on
its way. -/
inductive Walked : Model → Prop where
  /-- A new model. -/
  | empty : Walked ∅
  /-- A tree is walked into the model, whether the walk goes through or stops. -/
  | walk {model : Model} (options : WalkOptions) (geometry : Geometry) (tree : Tree)
      (walked : Walked model) : Walked (model.walk options geometry tree).model
  /-- A walk has taken some of its steps. -/
  | midway {model : Model} {options : WalkOptions} {state : WalkState}
      (walked : Walked model) (steps : Walk.Steps options { model } state) : Walked state.model

/-- All names in a model refer to its nodes, and all listed edges to its edges. -/
structure Referential (model : Model) : Prop where
  /-- Edges run between nodes. -/
  ends_listed : ∀ edge ∈ model.edges, edge.tail ∈ model.nodes.keys ∧ edge.head ∈ model.nodes.keys
  /-- No member is listed twice. -/
  members_nodup : ∀ {key subgraph}, model.graphs.get? key = some subgraph → subgraph.nodes.Nodup
  /-- Members are nodes. -/
  members_listed : ∀ {key subgraph}, model.graphs.get? key = some subgraph →
    ∀ node ∈ subgraph.nodes, node ∈ model.nodes.keys
  /-- A node stands under its own name. -/
  node_id : ∀ {id node}, model.nodes.get? id = some node → node.id = id
  /-- The edges of a subgraph are listed among all edges. -/
  edges_listed : ∀ {key subgraph}, model.graphs.get? key = some subgraph →
    ∀ number ∈ subgraph.edges, number ∈ model.edgeOrder ∧
      ∃ edge ∈ model.edgeList, model.edges[number]? = some edge
  /-- Transitive members are nodes. -/
  allNodes_listed : ∀ key, ∀ node ∈ model.graphs.allNodes key, node ∈ model.nodes.keys

/-- The model is resolved and no subgraph lists a member twice. -/
structure Intact (model : Model) : Prop extends Resolved model where
  members_nodup : ∀ {key subgraph}, model.graphs.get? key = some subgraph → subgraph.nodes.Nodup

theorem intact_empty : Intact ∅ where
  toResolved := resolved_empty
  members_nodup found := nomatch found

namespace Intact

variable {model first second : Model}

theorem referential (intact : model.Intact) : model.Referential where
  ends_listed := intact.ends
  members_nodup := intact.members_nodup
  members_listed := intact.members
  node_id := intact.node_id
  edges_listed := by
    intro key subgraph found number number_mem
    have bounded := intact.edges_lt found number number_mem
    have listed := (model.mem_edgeOrder_iff number).mpr bounded
    have edge_found := List.getElem?_eq_getElem bounded
    exact ⟨listed, _, List.mem_filterMap.mpr ⟨number, listed, edge_found⟩, edge_found⟩
  allNodes_listed := by
    intro key node node_mem
    rcases Forest.exists_member_of_mem_allNodes node_mem with ⟨_, subgraph, found, member⟩
    exact intact.members found node member

/-- What a model says about names and numbers of edges is all that counts. -/
theorem congr (intact : first.Intact) (wellFormed : second.WellFormed)
    (sameNodes : second.nodes.keys = first.nodes.keys)
    (sameEnds : second.edges.map Edge.key = first.edges.map Edge.key)
    (source : ∀ {key new}, second.graphs.get? key = some new →
      ∃ old, first.graphs.get? key = some old ∧ new.nodes = old.nodes ∧ new.edges = old.edges) :
    second.Intact := by
  have sameLength : second.edges.length = first.edges.length := by
    have mapped := congrArg List.length sameEnds
    rwa [List.length_map, List.length_map] at mapped
  have owns : second.OwnsEdges := by
    apply intact.ownsEdges.congr wellFormed sameLength
    intro key new found
    rcases source found with ⟨old, oldFound, _, edges_eq⟩
    exact ⟨old, oldFound, edges_eq⟩
  refine ⟨⟨wellFormed, ?members, ?ends, owns.edges_lt, owns.edges_nodup, owns.edges_disjoint⟩,
    ?members_nodup⟩
  case members =>
    intro key new found
    rcases source found with ⟨old, oldFound, nodes_eq, _⟩
    rw [nodes_eq, sameNodes]
    exact intact.members oldFound
  case ends =>
    intro edge edge_mem
    have key_mem := List.mem_map_of_mem (f := Edge.key) edge_mem
    rw [sameEnds, List.mem_map] at key_mem
    rcases key_mem with ⟨old, old_mem, key_eq⟩
    have ends : old.key.1 ∈ first.nodes.keys ∧ old.key.2 ∈ first.nodes.keys :=
      intact.ends old old_mem
    rw [key_eq] at ends
    rw [sameNodes]
    exact ends
  case members_nodup =>
    intro key new found
    rcases source found with ⟨old, oldFound, nodes_eq, _⟩
    exact nodes_eq ▸ intact.members_nodup oldFound

/-! ### The typed pass -/

theorem setAttrsAt (intact : model.Intact) (attrs : Attributes) (place : Place) :
    (model.setAttrsAt attrs place).Intact := by
  have wellFormed := intact.toWellFormed.setAttrsAt attrs place
  cases place with
  | node id =>
      exact intact.congr wellFormed (OrderedMap.keys_modify ..) rfl
        fun found => ⟨_, found, rfl, rfl⟩
  | edge number =>
      apply intact.congr wellFormed rfl _ fun found => ⟨_, found, rfl, rfl⟩
      apply List.ext_getElem?
      intro other
      simp only [Model.setAttrsAt, List.getElem?_map, List.getElem?_modify]
      cases model.edges[other]? with
      | none => rfl
      | some edge =>
          simp only [Option.map_eq_map, Option.map_some]
          split <;> rfl
  | graph key =>
      apply intact.congr wellFormed rfl rfl
      have graphs_eq : (model.setAttrsAt attrs (.graph key)).graphs =
          model.graphs.modify key fun subgraph => { subgraph with attrs } := rfl
      rw [graphs_eq]
      apply OrderedMap.forall_get?_modify fun key (new : Subgraph) =>
        ∃ old, model.graphs.get? key = some old ∧ new.nodes = old.nodes ∧ new.edges = old.edges
      · exact fun found => ⟨_, found, rfl, rfl⟩
      · exact fun found => ⟨_, found, rfl, rfl⟩

end Intact

end Model

namespace Walk

variable {options : WalkOptions} {before later : WalkState}

/-- A step changes the members of a subgraph only by adding one that is not listed yet. -/
theorem Step.members_nodup (wellFormed : before.model.WellFormed)
    (nodup : ∀ {key subgraph}, before.model.graphs.get? key = some subgraph →
      subgraph.nodes.Nodup)
    (step : Step options before later) {key : String} {subgraph : Subgraph}
    (found : later.model.graphs.get? key = some subgraph) : subgraph.nodes.Nodup := by
  rcases step.evolves wellFormed with ⟨created, owner, evolves⟩
  cases evolves.source found with
  | planted declared nodes_eq edges_eq =>
      rw [nodes_eq]
      exact List.nodup_nil
  | kept oldFound id_eq nodes edges =>
      rcases nodes with nodes_eq | ⟨node, _, nodes_eq⟩
      · exact nodes_eq ▸ nodup oldFound
      · exact nodes_eq ▸ Subgraph.nodup_addNode (nodup oldFound) node

theorem Step.intact (intact : before.model.Intact) (step : Step options before later) :
    later.model.Intact where
  toResolved := step.resolved intact.toResolved
  members_nodup := step.members_nodup intact.toWellFormed intact.members_nodup

end Walk

namespace Model

variable {model : Model}

theorem intact_lastsInWalks : LastsInWalks Intact where
  step intact step := step.intact intact
  setAttrsAt attrs place intact := intact.setAttrsAt attrs place

theorem Walked.intact (walked : model.Walked) : model.Intact := by
  induction walked with
  | empty => exact intact_empty
  | walk options geometry tree _ ih => exact intact_lastsInWalks.walk ih options geometry tree
  | midway _ steps ih => exact intact_lastsInWalks.steps ih steps

/-- However often a model is walked into, and wherever the walks stop, all names in it refer to its
nodes. -/
theorem referential_of_walked (walked : model.Walked) : model.Referential :=
  walked.intact.referential

/-- A lenient walk is followed by a strict one that enters a subgraph of the first again, makes it
an endpoint with two members, and stops before it creates the edge. -/
theorem referential_of_stopped_walk :
    let node (id : String) := Tree.nodeStmt (.nodeId { id }) []
    let early := Tree.graph "digraph" (some "g") false [.subgraph "s" [node "a", node "a"]]
    let late := Tree.subgraph "s"
      [.edgeStmt [.subgraph "s" [node "a", node "b"], .nodeId { id := "c" }] [],
        .edgeStmt [.nodeId { id := "d" }, .raw .null] []]
    let first := Model.walk {} .plain early ∅
    let second := first.model.walk { isStrict := true } .plain late
    second.failure.isSome ∧ second.model.nodes.keys = ["a", "b", "c", "d"] ∧
      second.model.edges.map Edge.key = [("a", "c"), ("b", "c")] ∧
      second.model.graphs.allNodes "s" = ["a", "b", "c", "d"] ∧ second.model.Referential :=
  ⟨rfl, rfl, rfl, rfl, referential_of_walked (.walk _ _ _ (.walk _ _ _ .empty))⟩

end Model

end DotLang
