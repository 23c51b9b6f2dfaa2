import DotLang.Proofs.Regeneration

/-!
# Which subgraphs a regenerated tree has

A regenerated tree has one subgraph statement for each subgraph below the root,
and no others (`subgraphIds_restatement`). Nodes and edges that belong to none of
these are listed behind them, but subgraphs elsewhere in the forest are not: what
was walked outside of any graph, or in a further graph at the top level, loses
its nesting, its attributes and its name.
-/

namespace DotLang

namespace Tree

mutual

/-- The declared ids of the subgraph statements in a tree, from left to right. -/
def subgraphIds : Tree → List (Option String)
  | .graph _ _ _ children => subgraphIdsIn children
  | .subgraph id children => id :: subgraphIdsIn children
  | .nodeStmt subject _ => subject.subgraphIds
  | .edgeStmt endpoints _ => subgraphIdsIn endpoints
  | .list items => subgraphIdsIn items
  | _ => []
termination_by structural tree => tree

/-- The declared ids of the subgraph statements in several trees. -/
def subgraphIdsIn : List Tree → List (Option String)
  | [] => []
  | tree :: rest => tree.subgraphIds ++ subgraphIdsIn rest
termination_by structural trees => trees

end

theorem subgraphIdsIn_append (first rest : List Tree) :
    subgraphIdsIn (first ++ rest) = subgraphIdsIn first ++ subgraphIdsIn rest := by
  induction first with
  | nil => rfl
  | cons tree others ih => simp only [List.cons_append, subgraphIdsIn, ih, List.append_assoc]

theorem subgraphIdsIn_eq_nil {trees : List Tree}
    (none : ∀ tree ∈ trees, tree.subgraphIds = []) : subgraphIdsIn trees = [] := by
  induction trees with
  | nil => rfl
  | cons tree rest ih =>
      rw [subgraphIdsIn, none tree List.mem_cons_self, List.nil_append]
      exact ih fun other other_mem => none other (List.mem_cons_of_mem tree other_mem)

end Tree

namespace Model

variable (model : Model)

theorem subgraphIdsIn_restatedNodes (ids : List String) :
    Tree.subgraphIdsIn (ids.map model.restatedNode) = [] := by
  apply Tree.subgraphIdsIn_eq_nil
  intro tree tree_mem
  rcases List.mem_map.mp tree_mem with ⟨id, _, rfl⟩
  rfl

theorem subgraphIdsIn_restatedEdges (edges : List Edge) :
    Tree.subgraphIdsIn (edges.map restatedEdge) = [] := by
  apply Tree.subgraphIdsIn_eq_nil
  intro tree tree_mem
  rcases List.mem_map.mp tree_mem with ⟨edge, _, rfl⟩
  rfl

theorem subgraphIdsIn_restatedOwn (subgraph : Subgraph) :
    Tree.subgraphIdsIn (model.restatedOwn subgraph) = [] := by
  rw [restatedOwn, Tree.subgraphIdsIn_append, Tree.subgraphIdsIn_append,
    subgraphIdsIn_restatedNodes, subgraphIdsIn_restatedEdges, restatedAttrs]
  split <;> rfl

mutual

/-- The body of a subgraph has one statement for each subgraph below it. -/
theorem subgraphIdsIn_restatedBody : ∀ hierarchy : Hierarchy,
    Tree.subgraphIdsIn (model.restatedBody hierarchy) = hierarchy.walk.tail.map Subgraph.id
  | .scope top children => by
      rw [restatedBody, Tree.subgraphIdsIn_append, subgraphIdsIn_restatedOwn, List.append_nil,
        Hierarchy.walk, List.tail_cons]
      exact subgraphIdsIn_restatedSubgraphs children

theorem subgraphIdsIn_restatedSubgraphs : ∀ hierarchies : List Hierarchy,
    Tree.subgraphIdsIn (model.restatedSubgraphs hierarchies) =
      (Hierarchy.walkAll hierarchies).map Subgraph.id
  | [] => rfl
  | .scope top children :: rest => by
      rw [restatedSubgraphs, Tree.subgraphIdsIn, Tree.subgraphIds,
        subgraphIdsIn_restatedBody (.scope top children), subgraphIdsIn_restatedSubgraphs rest,
        Hierarchy.walkAll, List.map_append]
      rfl

end

theorem subgraphIds_restatement :
    model.restatement.subgraphIds = model.listedSubgraphs.tail.map Subgraph.id := by
  rw [restatement, Tree.subgraphIds, Tree.subgraphIdsIn_append, Tree.subgraphIdsIn_append,
    subgraphIdsIn_restatedNodes, subgraphIdsIn_restatedEdges, List.append_nil, List.append_nil,
    restatedRoot, listedSubgraphs]
  cases model.root with
  | none => rfl
  | some root =>
      simp only [Option.bind_some, Forest.descendants]
      cases model.graphs.hierarchy? root with
      | none => rfl
      | some hierarchy => exact model.subgraphIdsIn_restatedBody hierarchy

variable {model}

/-- Behind the root, the listed subgraphs are those inside the root. -/
theorem WellFormed.mem_tail_listed_iff (wellFormed : model.WellFormed) {key : String}
    {subgraph : Subgraph} (found : model.graphs.get? key = some subgraph) :
    subgraph ∈ model.listedSubgraphs.tail ↔
      ∃ root, model.root = some root ∧ root ≠ key ∧ model.graphs.Encloses root key := by
  have nested := wellFormed.nested
  have key_eq := nested.key_eq found
  rw [listedSubgraphs]
  cases root_eq : model.root with
  | none => simp
  | some root =>
      rcases wellFormed.root_id root_eq with ⟨top, topFound, _⟩
      have mem_iff := nested.mem_descendants_iff topFound subgraph
      have nodup := nested.nodup_keys_descendants topFound
      have top_key := nested.key_eq topFound
      rw [nested.descendants_eq topFound] at mem_iff nodup
      rw [key_eq, List.mem_cons] at mem_iff
      rw [List.map_cons, List.nodup_cons, top_key] at nodup
      simp only [nested.descendants_eq topFound, List.tail_cons, Option.some_inj]
      constructor
      · intro below
        refine ⟨root, rfl, ?_, (mem_iff.mp (Or.inr below)).2⟩
        -- No key is listed twice, and the root comes first.
        rintro rfl
        exact nodup.1 (key_eq ▸ List.mem_map_of_mem below)
      · rintro ⟨_, rfl, differs, encloses⟩
        refine (mem_iff.mpr ⟨found, encloses⟩).resolve_left ?_
        rintro rfl
        exact differs (top_key.symm.trans key_eq)

/-- The tree regenerated after a walk has a subgraph statement with the declared id for every
subgraph inside the root, one for each, and no other subgraph statement. -/
theorem subgraphIds_regenerated (options : WalkOptions) (tree : Tree) :
    let model := (Model.walk options .plain tree ∅).model
    ∃ regenerated, model.toTree Geometry.plain.encode = .ok regenerated ∧
      regenerated.subgraphIds = model.listedSubgraphs.tail.map Subgraph.id ∧
      (model.listedSubgraphs.tail.map Subgraph.key).Nodup ∧
      ∀ key subgraph, model.graphs.get? key = some subgraph →
        (subgraph ∈ model.listedSubgraphs.tail ↔
          ∃ root, model.root = some root ∧ root ≠ key ∧ model.graphs.Encloses root key) := by
  intro model
  have wellFormed : model.WellFormed := (Model.resolved_walkPlain options tree).toWellFormed
  refine ⟨model.restatement, model.toTree_plain, model.subgraphIds_restatement, ?_, ?_⟩
  · exact wellFormed.nodup_keys_listed.sublist ((List.tail_sublist _).map _)
  · exact fun key subgraph found => wellFormed.mem_tail_listed_iff found

/-- A subgraph outside of any graph is not regenerated, although its member is. -/
theorem subgraphIds_regenerated_of_rootless :
    let tree := Tree.subgraph "s" [.nodeStmt (.nodeId { id := "a" }) [],
      .attrStmt "graph" [⟨"rank", .text "same"⟩]]
    let walked := Model.walk {} .plain tree ∅
    walked.failure.isNone = true ∧ walked.model.graphs.keys = ["s"] ∧ walked.model.root = none ∧
      ∃ regenerated, walked.model.toTree Geometry.plain.encode = .ok regenerated ∧
        regenerated.subgraphIds = [] ∧
        regenerated.same (.graph "digraph" none false [.nodeStmt (.nodeId { id := "a" }) []]) := by
  intro tree walked
  exact ⟨rfl, rfl, rfl, _, walked.model.toTree_plain, rfl, by decide⟩

end Model

end DotLang
