import DotLang.Proofs.EmittedSubgraphs
import DotLang.Proofs.Operations

/-!
# Regenerating a model that was edited

A caller may change a model by hand between walks: replace a node, add an edge
between nodes that do not exist, list a name as a member that is no node, or make
any subgraph the root. The tree of such a model still states every edge once and
every node with the attributes that it has now (`regenerated_of_reachable`).

What carries this is `Model.Orderly`: an edge belongs to one subgraph at most,
and a subgraph with a declared id stands under that id.
-/

namespace DotLang

namespace Model

/-- Edges have one owner at most, and a declared subgraph stands under its id. -/
structure Orderly (model : Model) : Prop extends OwnsEdges model where
  declared : ∀ {key subgraph id}, model.graphs.get? key = some subgraph →
    subgraph.id = some id → key = id

namespace Orderly

variable {model first second : Model}

theorem congr (orderly : first.Orderly) (wellFormed : second.WellFormed)
    (sameLength : second.edges.length = first.edges.length)
    (source : ∀ {key new}, second.graphs.get? key = some new →
      ∃ old, first.graphs.get? key = some old ∧ new.id = old.id ∧ new.edges = old.edges) :
    second.Orderly := by
  constructor
  case toOwnsEdges =>
    apply orderly.toOwnsEdges.congr wellFormed sameLength
    intro key new found
    rcases source found with ⟨old, oldFound, _, edges_eq⟩
    exact ⟨old, oldFound, edges_eq⟩
  case declared =>
    intro key new id found id_eq
    rcases source found with ⟨old, oldFound, sameId, _⟩
    exact orderly.declared oldFound (sameId ▸ id_eq)

theorem setAttrsAt (orderly : model.Orderly) (attrs : Attributes) (place : Place) :
    (model.setAttrsAt attrs place).Orderly := by
  have wellFormed := orderly.toWellFormed.setAttrsAt attrs place
  cases place with
  | node id => exact orderly.congr wellFormed rfl fun found => ⟨_, found, rfl, rfl⟩
  | edge number =>
      apply orderly.congr wellFormed _ fun found => ⟨_, found, rfl, rfl⟩
      simp [Model.setAttrsAt]
  | graph key =>
      apply orderly.congr wellFormed rfl
      apply OrderedMap.forall_get?_modify fun key (new : Subgraph) =>
        ∃ old, model.graphs.get? key = some old ∧ new.id = old.id ∧ new.edges = old.edges
      · exact fun found => ⟨_, found, rfl, rfl⟩
      · exact fun found => ⟨_, found, rfl, rfl⟩

/-- An edge that is added by hand belongs to no subgraph. -/
theorem addEdge (orderly : model.Orderly) (edge : Edge) : (model.addEdges [edge]).Orderly where
  toOwnsEdges := by
    have source : ∀ {key new}, (model.addEdges [edge]).graphs.get? key = some new →
        Resolved.Inherits model (model.addEdges [edge]) [edge] none key new :=
      fun found => Resolved.inherits_of_found found rfl rfl
    have wellFormed := wellFormed_lasting.addEdge edge orderly.toWellFormed
    exact Resolved.ownsEdges_transfer orderly.toOwnsEdges wellFormed rfl source
  declared found id_eq := orderly.declared found id_eq

theorem addMember (orderly : model.Orderly) (key node : String) :
    (model.addMember key node).Orderly := by
  apply orderly.congr (wellFormed_lasting.addMember key node orderly.toWellFormed) rfl
  apply OrderedMap.forall_get?_modify fun key (new : Subgraph) =>
    ∃ old, model.graphs.get? key = some old ∧ new.id = old.id ∧ new.edges = old.edges
  · exact fun found => ⟨_, found, rfl, rfl⟩
  · exact fun {old} found =>
      ⟨old, found, (old.addNode_samePlace node).id, old.edges_addNode node⟩

theorem setRoot (orderly : model.Orderly) (key : String) (isStrict : Bool) :
    (model.setRoot key isStrict).Orderly := by
  apply orderly.congr (orderly.toWellFormed.setRoot key isStrict)
  · rw [edges_setRoot]
  · rw [graphs_setRoot]
    exact fun found => ⟨_, found, rfl, rfl⟩

end Orderly

theorem orderly_empty : Orderly ∅ where
  toOwnsEdges := ownsEdges_empty
  declared found := nomatch found

end Model

theorem Walk.Step.orderly {options : WalkOptions} {before later : WalkState}
    (orderly : before.model.Orderly) (step : Step options before later) :
    later.model.Orderly where
  toOwnsEdges := step.ownsEdges orderly.toOwnsEdges
  declared := by
    intro key new id found id_eq
    rcases step.evolves orderly.toWellFormed with ⟨created, owner, evolves⟩
    cases evolves.source found with
    | planted declared nodes_eq edges_eq => exact declared id id_eq
    | kept oldFound sameId nodes edges => exact orderly.declared oldFound (sameId ▸ id_eq)

theorem Model.orderly_lasting : Model.Lasting Model.Orderly where
  step orderly step := step.orderly orderly
  setAttrsAt attrs place orderly := orderly.setAttrsAt attrs place
  putNode node orderly := orderly.congr (orderly.toWellFormed.putNode node) rfl
    fun found => ⟨_, found, rfl, rfl⟩
  addEdge edge orderly := orderly.addEdge edge
  addMember key node orderly := orderly.addMember key node
  setRoot key isStrict orderly := orderly.setRoot key isStrict

/-! ### The statements in a tree -/

namespace Tree

mutual

/-- A tree and everything inside it, from left to right. -/
def parts : Tree → List Tree
  | .graph kind id isStrict children => .graph kind id isStrict children :: partsIn children
  | .subgraph id children => .subgraph id children :: partsIn children
  | .nodeStmt subject attrs => .nodeStmt subject attrs :: subject.parts
  | .edgeStmt endpoints attrs => .edgeStmt endpoints attrs :: partsIn endpoints
  | .list items => .list items :: partsIn items
  | tree => [tree]
termination_by structural tree => tree

def partsIn : List Tree → List Tree
  | [] => []
  | tree :: rest => tree.parts ++ partsIn rest
termination_by structural trees => trees

end

/-- The subject of a node statement, with the attributes that are listed. -/
def nodeStmt? : Tree → Option (Tree × List Attr)
  | .nodeStmt subject attrs => some (subject, attrs)
  | _ => none

/-- The endpoints of an edge statement, with the attributes that are listed. -/
def edgeStmt? : Tree → Option (List Tree × List Attr)
  | .edgeStmt endpoints attrs => some (endpoints, attrs)
  | _ => none

/-- The target of default attributes, with the attributes that are listed. -/
def attrStmt? : Tree → Option (String × List Attr)
  | .attrStmt target attrs => some (target, attrs)
  | _ => none

/-- The node statements in a tree, wherever they stand. -/
def nodeStmts (tree : Tree) : List (Tree × List Attr) :=
  tree.parts.filterMap nodeStmt?

/-- The edge statements in a tree, wherever they stand. -/
def edgeStmts (tree : Tree) : List (List Tree × List Attr) :=
  tree.parts.filterMap edgeStmt?

/-- The statements of default attributes in a tree, wherever they stand. -/
def attrStmts (tree : Tree) : List (String × List Attr) :=
  tree.parts.filterMap attrStmt?

theorem partsIn_append (first rest : List Tree) :
    partsIn (first ++ rest) = partsIn first ++ partsIn rest := by
  induction first with
  | nil => rfl
  | cons tree others ih => simp only [List.cons_append, partsIn, ih, List.append_assoc]

/-- Whether a choice of parts passes over the graphs, subgraphs and node references. -/
structure PicksStatements {α : Type} (pick : Tree → Option α) : Prop where
  graph : ∀ kind id isStrict children, pick (.graph kind id isStrict children) = none
  subgraph : ∀ id children, pick (.subgraph id children) = none
  nodeId : ∀ node, pick (.nodeId node) = none

end Tree

namespace Model

variable {α : Type} {pick : Tree → Option α}

/-- The statements about nodes, edges and attributes in the tree of a model, wherever they stand. -/
def restatedStmts (model : Model) : List Tree :=
  model.restatedListed.flatMap model.restatedOwn ++ model.unlistedNodes.map model.restatedNode ++
    model.unlistedEdges.map restatedEdge

theorem filterMap_partsIn_nodes (picks : Tree.PicksStatements pick) (model : Model)
    (ids : List String) : (Tree.partsIn (ids.map model.restatedNode)).filterMap pick =
      (ids.map model.restatedNode).filterMap pick := by
  induction ids with
  | nil => rfl
  | cons id rest ih =>
      simp [Tree.partsIn, restatedNode, Tree.parts, List.filterMap_cons, picks.nodeId] at ih ⊢
      rw [ih]

theorem filterMap_partsIn_edges (picks : Tree.PicksStatements pick) (edges : List Edge) :
    (Tree.partsIn (edges.map restatedEdge)).filterMap pick =
      (edges.map restatedEdge).filterMap pick := by
  induction edges with
  | nil => rfl
  | cons edge rest ih =>
      simp [Tree.partsIn, restatedEdge, Tree.parts, List.filterMap_cons, picks.nodeId] at ih ⊢
      rw [ih]

theorem filterMap_partsIn_own (picks : Tree.PicksStatements pick) (model : Model)
    (subgraph : Subgraph) : (Tree.partsIn (model.restatedOwn subgraph)).filterMap pick =
      (model.restatedOwn subgraph).filterMap pick := by
  have attrs : Tree.partsIn (restatedAttrs subgraph.attrs) = restatedAttrs subgraph.attrs := by
    rw [restatedAttrs]
    split <;> rfl
  simp only [restatedOwn, Tree.partsIn_append, List.filterMap_append, attrs,
    filterMap_partsIn_nodes picks, filterMap_partsIn_edges picks]

mutual

theorem filterMap_partsIn_body (picks : Tree.PicksStatements pick) (model : Model) :
    ∀ hierarchy : Hierarchy, (Tree.partsIn (model.restatedBody hierarchy)).filterMap pick =
      (hierarchy.restated.flatMap model.restatedOwn).filterMap pick
  | .scope top children => by
      rw [restatedBody, Tree.partsIn_append, List.filterMap_append, filterMap_partsIn_own picks,
        filterMap_partsIn_subgraphs picks model children, Hierarchy.restated, List.flatMap_append,
        List.flatMap_singleton, List.filterMap_append]

theorem filterMap_partsIn_subgraphs (picks : Tree.PicksStatements pick) (model : Model) :
    ∀ hierarchies : List Hierarchy,
      (Tree.partsIn (model.restatedSubgraphs hierarchies)).filterMap pick =
        ((Hierarchy.restatedAll hierarchies).flatMap model.restatedOwn).filterMap pick
  | [] => rfl
  | hierarchy :: rest => by
      rw [restatedSubgraphs, Tree.partsIn, Tree.parts, List.cons_append, List.filterMap_cons,
        picks.subgraph, List.filterMap_append, filterMap_partsIn_body picks model hierarchy,
        filterMap_partsIn_subgraphs picks model rest, Hierarchy.restatedAll, List.flatMap_append,
        List.filterMap_append]

end

/-- Nesting aside, a regenerated tree consists of the restated statements. -/
theorem filterMap_parts_restatement (picks : Tree.PicksStatements pick) (model : Model) :
    model.restatement.parts.filterMap pick = model.restatedStmts.filterMap pick := by
  have root_eq : (Tree.partsIn model.restatedRoot).filterMap pick =
      (model.restatedListed.flatMap model.restatedOwn).filterMap pick := by
    rw [restatedRoot, restatedListed]
    cases model.root.bind model.graphs.hierarchy? with
    | none => rfl
    | some hierarchy => exact filterMap_partsIn_body picks model hierarchy
  rw [restatement, Tree.parts, List.filterMap_cons, picks.graph, restatedStmts]
  simp only [Tree.partsIn_append, List.filterMap_append, root_eq, filterMap_partsIn_nodes picks,
    filterMap_partsIn_edges picks]

theorem edgesAt_flatMap (model : Model) (subgraphs : List Subgraph) :
    model.edgesAt (subgraphs.flatMap Subgraph.edges) =
      subgraphs.flatMap fun subgraph => model.edgesAt subgraph.edges := by
  simp [edgesAt, List.filterMap_flatMap]

/-- What a regenerated tree says about an edge. -/
def statedEdge (edge : Edge) : List Tree × List Attr :=
  ([.nodeId { id := edge.tail }, .nodeId { id := edge.head }], edge.attrs.listed)

/-- What a regenerated tree says about a node. -/
def statedNode (model : Model) (id : String) : Tree × List Attr :=
  (.nodeId { id }, (model.attrsAt (.node id)).listed)

theorem filterMap_restatedAttrs {pick : Tree → Option α}
    (none : ∀ attrs, pick (.attrStmt "graph" attrs) = none) (attrs : Attributes) :
    (restatedAttrs attrs).filterMap pick = [] := by
  rw [restatedAttrs]
  split
  · rfl
  · simp [none]

theorem edgeStmts_restatement (model : Model) :
    model.restatement.edgeStmts = model.restatedEdges.map statedEdge := by
  have picks : Tree.PicksStatements Tree.edgeStmt? :=
    ⟨fun _ _ _ _ => rfl, fun _ _ => rfl, fun _ => rfl⟩
  have nodes (ids : List String) : (ids.map model.restatedNode).filterMap Tree.edgeStmt? = [] := by
    simp [List.filterMap_map, restatedNode, Tree.edgeStmt?]
  have edges (edges : List Edge) :
      (edges.map restatedEdge).filterMap Tree.edgeStmt? = edges.map statedEdge := by
    rw [List.filterMap_map, ← List.filterMap_eq_map]
    rfl
  have own (subgraph : Subgraph) : (model.restatedOwn subgraph).filterMap Tree.edgeStmt? =
      (model.edgesAt subgraph.edges).map statedEdge := by
    rw [restatedOwn, List.filterMap_append, List.filterMap_append, nodes, edges,
      filterMap_restatedAttrs fun _ => rfl, List.nil_append, List.append_nil]
  rw [Tree.edgeStmts, filterMap_parts_restatement picks, restatedStmts, List.filterMap_append,
    List.filterMap_append, List.filterMap_flatMap, nodes, edges, List.append_nil, restatedEdges,
    edgesAt_flatMap, List.map_append, List.map_flatMap]
  simp only [own]

theorem nodeStmts_restatement (model : Model) :
    model.restatement.nodeStmts = model.restatedNodes.map model.statedNode := by
  have picks : Tree.PicksStatements Tree.nodeStmt? :=
    ⟨fun _ _ _ _ => rfl, fun _ _ => rfl, fun _ => rfl⟩
  have nodes (ids : List String) :
      (ids.map model.restatedNode).filterMap Tree.nodeStmt? = ids.map model.statedNode := by
    rw [List.filterMap_map, ← List.filterMap_eq_map]
    rfl
  have edges (edges : List Edge) : (edges.map restatedEdge).filterMap Tree.nodeStmt? = [] := by
    simp [List.filterMap_map, restatedEdge, Tree.nodeStmt?]
  have own (subgraph : Subgraph) : (model.restatedOwn subgraph).filterMap Tree.nodeStmt? =
      subgraph.nodes.map model.statedNode := by
    rw [restatedOwn, List.filterMap_append, List.filterMap_append, nodes, edges,
      filterMap_restatedAttrs fun _ => rfl, List.append_nil, List.append_nil]
  rw [Tree.nodeStmts, filterMap_parts_restatement picks, restatedStmts, List.filterMap_append,
    List.filterMap_append, List.filterMap_flatMap, nodes, edges, List.append_nil, restatedNodes,
    List.map_append, List.map_flatMap]
  simp only [own]

theorem attrStmts_restatement (model : Model) : ∀ stmt ∈ model.restatement.attrStmts,
    stmt.1 = "graph" := by
  have picks : Tree.PicksStatements Tree.attrStmt? :=
    ⟨fun _ _ _ _ => rfl, fun _ _ => rfl, fun _ => rfl⟩
  have nodes (ids : List String) : (ids.map model.restatedNode).filterMap Tree.attrStmt? = [] := by
    simp [List.filterMap_map, restatedNode, Tree.attrStmt?]
  have edges (edges : List Edge) : (edges.map restatedEdge).filterMap Tree.attrStmt? = [] := by
    simp [List.filterMap_map, restatedEdge, Tree.attrStmt?]
  intro stmt stmt_mem
  rw [Tree.attrStmts, filterMap_parts_restatement picks, restatedStmts, List.filterMap_append,
    List.filterMap_append, List.filterMap_flatMap, nodes, edges, List.append_nil, List.append_nil]
    at stmt_mem
  rcases List.mem_flatMap.mp stmt_mem with ⟨subgraph, _, own_mem⟩
  rw [restatedOwn, List.filterMap_append, List.filterMap_append, nodes, edges, List.nil_append,
    List.nil_append, restatedAttrs] at own_mem
  split at own_mem
  · simp at own_mem
  · rw [List.mem_singleton.mp own_mem]

/-! ### Every model that comes up -/

section

variable {model : Model}

theorem edgeList_perm (model : Model) : model.edgeList.Perm model.edges := by
  have all := model.edgeOrder_perm.filterMap fun number => model.edges[number]?
  exact all.trans (.of_eq model.edgesAt_range)

/-- Subgraphs with the same declared id stand under the same key. -/
theorem Orderly.pairwise_listed_id (orderly : model.Orderly) :
    model.listedSubgraphs.Pairwise fun left right =>
      ∀ id ∈ left.id, ∀ other ∈ right.id, id ≠ other := by
  have differ := List.pairwise_map.mp orderly.nodup_keys_listed
  apply differ.imp_of_mem
  rintro left right left_mem right_mem keys_ne id left_id _ right_id rfl
  have left_key := orderly.declared (orderly.get?_of_listed left_mem) left_id
  have right_key := orderly.declared (orderly.get?_of_listed right_mem) right_id
  exact keys_ne (left_key.trans right_key.symm)

theorem Orderly.nodup_subgraphIds (orderly : model.Orderly) :
    model.restatement.subgraphIds.reduceOption.Nodup := by
  have apart := orderly.pairwise_listed_id.sublist (List.tail_sublist _)
  rw [subgraphIds_restatement]
  change (List.filterMap (fun declared => declared) (List.map Subgraph.id _)).Nodup
  rw [List.filterMap_map]
  exact List.pairwise_filterMap.mpr apart

theorem Orderly.rootId_not_mem (orderly : model.Orderly) {root id : String} {subgraph : Subgraph}
    (root_eq : model.root = some root) (found : model.graphs.get? root = some subgraph)
    (declared : subgraph.id = some id) : some id ∉ model.restatement.subgraphIds := by
  have listed_eq : model.listedSubgraphs = subgraph :: model.listedSubgraphs.tail := by
    simp only [listedSubgraphs, root_eq, orderly.nested.descendants_eq found, List.tail_cons]
  have apart := orderly.pairwise_listed_id
  rw [listed_eq, List.pairwise_cons] at apart
  rw [subgraphIds_restatement, List.mem_map]
  rintro ⟨inner, inner_mem, inner_id⟩
  exact apart.1 inner inner_mem id declared id inner_id rfl

end

/-- However a model was put together and edited, its tree states every edge once, every node at
least once and with its current attributes, no default attributes of nodes or edges, and no
declared subgraph twice or beside its own root. -/
theorem regenerated_of_reachable {model : Model} (reachable : model.Reachable) :
    ∃ regenerated children, model.toTree Geometry.plain.encode = .ok regenerated ∧
      regenerated = .graph model.kind model.id model.isStrict children ∧
      regenerated.edgeStmts.Perm (model.edgeList.map statedEdge) ∧
      (∀ id ∈ model.nodes.keys, model.statedNode id ∈ regenerated.nodeStmts) ∧
      (∀ stmt ∈ regenerated.nodeStmts, ∃ id, stmt = model.statedNode id) ∧
      (∀ stmt ∈ regenerated.attrStmts, stmt.1 = "graph") ∧
      regenerated.subgraphIds.reduceOption.Nodup ∧
      ∀ root subgraph id, model.root = some root → model.graphs.get? root = some subgraph →
        subgraph.id = some id → some id ∉ regenerated.subgraphIds := by
  have orderly : model.Orderly := reachable.keeps orderly_lasting orderly_empty
  refine ⟨model.restatement, _, model.toTree_plain, rfl, ?edges, ?nodes, ?onlyNodes,
    model.attrStmts_restatement, orderly.nodup_subgraphIds, ?root⟩
  case edges =>
    rw [edgeStmts_restatement]
    exact (orderly.restatedEdges_perm.trans model.edgeList_perm.symm).map statedEdge
  case nodes =>
    intro id id_mem
    rw [nodeStmts_restatement]
    exact List.mem_map_of_mem (model.mem_restatedNodes id_mem)
  case onlyNodes =>
    intro stmt stmt_mem
    rw [nodeStmts_restatement] at stmt_mem
    rcases List.mem_map.mp stmt_mem with ⟨id, _, rfl⟩
    exact ⟨id, rfl⟩
  case root =>
    intro root subgraph id root_eq found declared
    exact orderly.rootId_not_mem root_eq found declared

/-- An edge between nodes that do not exist, a member that is no node, a node that is replaced and a
subgraph that becomes the root. -/
theorem regenerated_of_edited_model :
    let tree := Tree.subgraph "s"
      [.subgraph "t" [.nodeStmt (.nodeId { id := "a" }) [⟨"color", .text "red"⟩]]]
    let operations : List Operation := [.walk {} .plain tree, .addEdge { tail := "a", head := "b" },
      .addMember "t" "c", .putNode { id := "a" }, .setRoot "s" true]
    let model := operations.foldl Operation.apply ∅
    model.nodes.keys = ["a"] ∧ model.graphs.keys = ["s", "t"] ∧ model.root = some "s" ∧
      ∃ regenerated children, model.toTree Geometry.plain.encode = .ok regenerated ∧
        regenerated = .graph "subgraph" (some "s") true children ∧
        regenerated.nodeStmts =
          [(.nodeId { id := "a" }, []), (.nodeId { id := "c" }, [])] ∧
        regenerated.edgeStmts.Perm [([.nodeId { id := "a" }, .nodeId { id := "b" }], [])] ∧
        regenerated.subgraphIds.reduceOption.Nodup := by
  intro tree operations model
  have reachable : model.Reachable :=
    .operate (.setRoot "s" true) (.operate (.putNode { id := "a" }) (.operate (.addMember "t" "c")
      (.operate (.addEdge { tail := "a", head := "b" }) (.operate (.walk {} .plain tree) .empty))))
  rcases regenerated_of_reachable reachable with
    ⟨regenerated, children, tree_eq, graph_eq, edges, _, _, _, nodup, _⟩
  have restated : regenerated = model.restatement :=
    Except.ok.inj (tree_eq.symm.trans model.toTree_plain)
  have stated : model.restatedNodes = ["a", "c"] := rfl
  have replaced : model.attrsAt (.node "a") = ∅ := rfl
  have unknown : model.attrsAt (.node "c") = ∅ := rfl
  refine ⟨rfl, rfl, rfl, regenerated, children, tree_eq, graph_eq, ?_, edges, nodup⟩
  rw [restated, nodeStmts_restatement, stated]
  simp only [List.map_cons, List.map_nil, statedNode, replaced, unknown]
  rfl

end Model

end DotLang
