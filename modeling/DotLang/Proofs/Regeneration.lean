import DotLang.Conversion
import DotLang.Proofs.EdgeIndex
import DotLang.Proofs.Results
import DotLang.Proofs.Walk.Consistency

/-!
# What a regenerated tree states

Without typed geometry nothing can fail when a tree is regenerated, so the tree
of a model is given by plain functions (`toTree_plain`). The tree states every
node of the model, and it states every edge exactly once (`restatedEdges_perm`):
the subgraphs below the root own different edges, and what they do not own is
listed behind them.
-/

namespace DotLang

namespace Attributes

/-- The attributes as a list in a statement. -/
def listed (attrs : Attributes) : List Attr :=
  attrs.entries.map fun (name, value) => ⟨name, value⟩

@[simp]
theorem ofAttrs_listed (attrs : Attributes) : ofAttrs attrs.listed = attrs := by
  rw [ofAttrs, listed, List.map_map]
  exact (congrArg OrderedMap.ofList (List.map_id _)).trans (OrderedMap.ofList_entries attrs)

end Attributes

namespace Hierarchy

theorem walk_eq_cons (hierarchy : Hierarchy) :
    hierarchy.walk = hierarchy.top :: hierarchy.walk.tail := by
  cases hierarchy with
  | scope top children =>
      rw [walk, List.tail_cons]
      rfl

theorem top_mem_walk (hierarchy : Hierarchy) : hierarchy.top ∈ hierarchy.walk := by
  rw [walk_eq_cons]
  exact List.mem_cons_self

mutual

/-- The subgraphs of a hierarchy in the order in which they are restated, children first. -/
def restated : Hierarchy → List Subgraph
  | .scope top children => restatedAll children ++ [top]

/-- The subgraphs of neighbouring hierarchies in the order in which they are restated. -/
def restatedAll : List Hierarchy → List Subgraph
  | [] => []
  | first :: rest => first.restated ++ restatedAll rest

end

mutual

theorem restated_perm : ∀ hierarchy : Hierarchy, hierarchy.restated.Perm hierarchy.walk
  | .scope top children => by
      rw [restated, walk]
      exact List.perm_append_comm.trans ((restatedAll_perm children).cons top)

theorem restatedAll_perm : ∀ hierarchies : List Hierarchy,
    (restatedAll hierarchies).Perm (walkAll hierarchies)
  | [] => .refl _
  | first :: rest => by
      rw [restatedAll, walkAll]
      exact (restated_perm first).append (restatedAll_perm rest)

end

end Hierarchy

namespace Model

/-! ### The regenerated tree without typed geometry -/

/-- The statement of a node with its attributes. -/
def restatedNode (model : Model) (id : String) : Tree :=
  .nodeStmt (.nodeId { id }) (model.attrsAt (.node id)).listed

/-- The statement of an edge with its attributes. -/
def restatedEdge (edge : Edge) : Tree :=
  .edgeStmt [.nodeId { id := edge.tail }, .nodeId { id := edge.head }] edge.attrs.listed

/-- The statement of the attributes of a subgraph. -/
def restatedAttrs (attrs : Attributes) : List Tree :=
  if attrs.isEmpty then [] else [.attrStmt "graph" attrs.listed]

/-- The statements of a subgraph about its nodes, its edges and itself. -/
def restatedOwn (model : Model) (subgraph : Subgraph) : List Tree :=
  subgraph.nodes.map model.restatedNode ++ (model.edgesAt subgraph.edges).map restatedEdge ++
    restatedAttrs subgraph.attrs

mutual

/-- The statements in the body of a subgraph. -/
def restatedBody (model : Model) : Hierarchy → List Tree
  | .scope top children => model.restatedSubgraphs children ++ model.restatedOwn top
termination_by structural hierarchy => hierarchy

/-- The statements of neighbouring subgraphs. -/
def restatedSubgraphs (model : Model) : List Hierarchy → List Tree
  | [] => []
  | hierarchy :: rest =>
      .subgraph hierarchy.top.id (model.restatedBody hierarchy) :: model.restatedSubgraphs rest
termination_by structural hierarchies => hierarchies

end

/-- The statements in the body of the root. -/
def restatedRoot (model : Model) : List Tree :=
  match model.root.bind model.graphs.hierarchy? with
  | some hierarchy => model.restatedBody hierarchy
  | none => []

/-- The tree that describes a model without typed geometry. -/
def restatement (model : Model) : Tree :=
  .graph model.kind model.id model.isStrict
    (model.restatedRoot ++ model.unlistedNodes.map model.restatedNode ++
      model.unlistedEdges.map restatedEdge)

theorem attrList_plain (attrs : Attributes) :
    attrList Geometry.plain.encode attrs = .ok attrs.listed :=
  List.mapM_pure

theorem nodeStmt_plain (model : Model) (id : String) :
    nodeStmt Geometry.plain.encode model id = .ok (model.restatedNode id) := by
  simp only [nodeStmt, attrList_plain]
  rfl

theorem edgeStmt_plain (edge : Edge) :
    edgeStmt Geometry.plain.encode edge = .ok (restatedEdge edge) := by
  simp only [edgeStmt, attrList_plain]
  rfl

theorem nodeStmts_plain (model : Model) (ids : List String) :
    ids.mapM (nodeStmt Geometry.plain.encode model) = .ok (ids.map model.restatedNode) :=
  mapM_of_total model.nodeStmt_plain ids

theorem edgeStmts_plain (edges : List Edge) :
    edges.mapM (edgeStmt Geometry.plain.encode) = .ok (edges.map restatedEdge) :=
  mapM_of_total edgeStmt_plain edges

theorem ownStmts_plain (model : Model) (subgraph : Subgraph) :
    ownStmts Geometry.plain.encode model subgraph = .ok (model.restatedOwn subgraph) := by
  simp only [ownStmts, nodeStmts_plain, edgeStmts_plain, graphAttrStmts, attrList_plain]
  rw [restatedOwn, restatedAttrs]
  split <;> rfl

mutual

theorem body_plain (model : Model) : ∀ hierarchy : Hierarchy,
    body Geometry.plain.encode model hierarchy = .ok (model.restatedBody hierarchy)
  | .scope top children => by
      simp only [body, subgraphStmts_plain model children, ownStmts_plain]
      rfl

theorem subgraphStmts_plain (model : Model) : ∀ hierarchies : List Hierarchy,
    subgraphStmts Geometry.plain.encode model hierarchies =
      .ok (model.restatedSubgraphs hierarchies)
  | [] => rfl
  | hierarchy :: rest => by
      simp only [subgraphStmts, body_plain model hierarchy, subgraphStmts_plain model rest]
      rfl

end

/-- Without typed geometry a tree can always be regenerated. -/
theorem toTree_plain (model : Model) :
    model.toTree Geometry.plain.encode = .ok model.restatement := by
  have root_eq : rootBody Geometry.plain.encode model = .ok model.restatedRoot := by
    rw [rootBody, restatedRoot]
    cases model.root.bind model.graphs.hierarchy? with
    | none => rfl
    | some hierarchy => exact model.body_plain hierarchy
  simp only [toTree, root_eq, nodeStmts_plain, edgeStmts_plain]
  rfl

/-! ### Everything is stated -/

/-- The root and the subgraphs below it in the order in which they are restated. -/
def restatedListed (model : Model) : List Subgraph :=
  match model.root.bind model.graphs.hierarchy? with
  | some hierarchy => hierarchy.restated
  | none => []

/-- The names of the nodes in the order in which they are restated, some more than once. -/
def restatedNodes (model : Model) : List String :=
  model.restatedListed.flatMap Subgraph.nodes ++ model.unlistedNodes

/-- The edges in the order in which they are restated. -/
def restatedEdges (model : Model) : List Edge :=
  model.edgesAt (model.restatedListed.flatMap Subgraph.edges) ++ model.unlistedEdges

theorem restatedListed_perm (model : Model) :
    model.restatedListed.Perm model.listedSubgraphs := by
  rw [restatedListed, listedSubgraphs]
  cases model.root with
  | none => exact .refl _
  | some root =>
      simp only [Option.bind_some, Forest.descendants]
      cases model.graphs.hierarchy? root with
      | none => exact .refl _
      | some hierarchy => exact hierarchy.restated_perm

theorem edgesAt_range (model : Model) :
    model.edgesAt (List.range model.edges.length) = model.edges := by
  have looked : (model.edges.zipIdx.map Prod.snd).filterMap (fun number => model.edges[number]?) =
      model.edges.zipIdx.map Prod.fst := by
    rw [List.filterMap_map, ← List.filterMap_eq_map]
    apply List.filterMap_congr
    intro entry entry_mem
    exact List.mem_zipIdx_iff_getElem?.mp entry_mem
  rw [List.zipIdx_map_snd, List.zipIdx_map_fst, ← List.range_eq_range'] at looked
  exact looked

namespace WellFormed

variable {model : Model}

theorem get?_of_listed (wellFormed : model.WellFormed) {subgraph : Subgraph}
    (subgraph_mem : subgraph ∈ model.listedSubgraphs) :
    model.graphs.get? subgraph.key = some subgraph := by
  rw [listedSubgraphs] at subgraph_mem
  cases root_eq : model.root with
  | none => simp [root_eq] at subgraph_mem
  | some root =>
      rcases wellFormed.root_id root_eq with ⟨top, topFound, _⟩
      simp only [root_eq] at subgraph_mem
      exact ((wellFormed.nested.mem_descendants_iff topFound subgraph).mp subgraph_mem).1

theorem nodup_keys_listed (wellFormed : model.WellFormed) :
    (model.listedSubgraphs.map Subgraph.key).Nodup := by
  rw [listedSubgraphs]
  cases root_eq : model.root with
  | none => exact List.nodup_nil
  | some root =>
      rcases wellFormed.root_id root_eq with ⟨top, topFound, _⟩
      exact wellFormed.nested.nodup_keys_descendants topFound

end WellFormed

namespace OwnsEdges

variable {model : Model}

/-- The listed subgraphs list no edge twice. -/
theorem nodup_listedNumbers (owns : model.OwnsEdges) :
    (model.listedSubgraphs.flatMap Subgraph.edges).Nodup := by
  rw [List.nodup_flatMap]
  constructor
  · intro subgraph subgraph_mem
    exact owns.edges_nodup (owns.get?_of_listed subgraph_mem)
  · have differ := List.pairwise_map.mp owns.nodup_keys_listed
    apply differ.imp_of_mem
    intro left right left_mem right_mem differs number number_mem number_mem'
    exact differs (owns.edges_disjoint (owns.get?_of_listed left_mem)
      (owns.get?_of_listed right_mem) number number_mem number_mem')

/-- Every edge is restated once. -/
theorem restatedEdges_perm (owns : model.OwnsEdges) :
    model.restatedEdges.Perm model.edges := by
  let listed := model.listedSubgraphs.flatMap Subgraph.edges
  have numbers : (listed ++ model.edgeOrder.filter fun number => number ∉ listed).Perm
      (List.range model.edges.length) := by
    apply (List.perm_ext_iff_of_nodup _ List.nodup_range).mpr
    · intro number
      simp only [List.mem_append, List.mem_filter, decide_eq_true_eq, List.mem_range,
        mem_edgeOrder_iff]
      constructor
      · rintro (number_mem | ⟨bounded, _⟩)
        · rcases List.mem_flatMap.mp number_mem with ⟨subgraph, subgraph_mem, number_mem⟩
          exact owns.edges_lt (owns.get?_of_listed subgraph_mem) number number_mem
        · exact bounded
      · intro bounded
        by_cases number_mem : number ∈ listed
        · exact Or.inl number_mem
        · exact Or.inr ⟨bounded, number_mem⟩
    · apply owns.nodup_listedNumbers.append (model.nodup_edgeOrder.filter _)
      intro number number_mem number_mem'
      simp only [List.mem_filter, decide_eq_true_eq] at number_mem'
      exact number_mem'.2 number_mem
  have reordered : (model.restatedListed.flatMap Subgraph.edges).Perm listed :=
    model.restatedListed_perm.flatMap_right Subgraph.edges
  have stated : model.restatedEdges.Perm (model.edgesAt listed ++ model.unlistedEdges) :=
    (reordered.filterMap _).append_right _
  have together : model.edgesAt listed ++ model.unlistedEdges =
      model.edgesAt (listed ++ model.edgeOrder.filter fun number => number ∉ listed) := by
    rw [edgesAt, edgesAt, List.filterMap_append]
    rfl
  have all := numbers.filterMap fun number => model.edges[number]?
  rw [together] at stated
  exact stated.trans (all.trans (.of_eq model.edgesAt_range))

end OwnsEdges

/-- All nodes are restated. -/
theorem mem_restatedNodes (model : Model) {id : String} (id_mem : id ∈ model.nodes.keys) :
    id ∈ model.restatedNodes := by
  have reordered := (model.restatedListed_perm.flatMap_right Subgraph.nodes).mem_iff (a := id)
  rw [restatedNodes, List.mem_append, reordered, unlistedNodes, List.mem_filter,
    decide_eq_true_eq]
  by_cases listed : id ∈ model.listedSubgraphs.flatMap Subgraph.nodes
  · exact Or.inl listed
  · exact Or.inr ⟨id_mem, listed⟩

namespace Resolved

variable {model : Model}

/-- All nodes are restated, and nothing else. -/
theorem mem_restatedNodes_iff (resolved : model.Resolved) (id : String) :
    id ∈ model.restatedNodes ↔ id ∈ model.nodes.keys := by
  refine ⟨?_, model.mem_restatedNodes⟩
  have reordered := (model.restatedListed_perm.flatMap_right Subgraph.nodes).mem_iff (a := id)
  rw [restatedNodes, List.mem_append, reordered, unlistedNodes, List.mem_filter]
  rintro (id_mem | ⟨id_mem, _⟩)
  · rcases List.mem_flatMap.mp id_mem with ⟨subgraph, subgraph_mem, id_mem⟩
    exact resolved.members (resolved.get?_of_listed subgraph_mem) id id_mem
  · exact id_mem

end Resolved

end Model

end DotLang
