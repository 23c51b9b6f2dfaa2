import DotLang.Proofs.Regeneration
import DotLang.Proofs.Results

/-!
# The shape of regenerated trees

Whatever a model holds and however its attributes are encoded, a tree that is
regenerated from it is a graph of a few kinds of statements (`toTree_restated`):
subgraphs, statements about a plain node, edges between two plain nodes, and
attributes of the graph itself. All names and attribute lists in the tree come
from the model, so what is true of them there is true in the tree.
-/

namespace DotLang

/-- What is said of the names and of the attribute lists in a tree. -/
structure Wording where
  name : String → Prop
  attrs : List Attr → Prop

/-- A statement as it stands in a regenerated tree. -/
inductive Tree.Restated (wording : Wording) : Tree → Prop where
  | subgraph {id : Option String} {children : List Tree} (named : ∀ name ∈ id, wording.name name)
      (inside : ∀ child ∈ children, Restated wording child) :
      Restated wording (.subgraph id children)
  | nodeStmt {id : String} {attrs : List Attr} (named : wording.name id)
      (listed : wording.attrs attrs) : Restated wording (.nodeStmt (.nodeId { id }) attrs)
  | edgeStmt {tail head : String} {attrs : List Attr} (tail_named : wording.name tail)
      (head_named : wording.name head) (listed : wording.attrs attrs) :
      Restated wording (.edgeStmt [.nodeId { id := tail }, .nodeId { id := head }] attrs)
  | attrStmt {attrs : List Attr} (filled : attrs ≠ []) (listed : wording.attrs attrs) :
      Restated wording (.attrStmt "graph" attrs)

namespace Tree

variable {wording : Wording}

theorem linesOfItems_restated {children : List Tree} (indent : String) (level : Int)
    (directed : Bool)
    (each : ∀ child ∈ children, ∃ lines, child.lines indent level directed = .ok lines) :
    ∃ lines, linesOfItems indent level directed children = .ok lines := by
  induction children with
  | nil => exact ⟨[], rfl⟩
  | cons child rest ih =>
      rw [List.forall_mem_cons] at each
      rcases each.1 with ⟨first, first_eq⟩
      rcases ih each.2 with ⟨others, others_eq⟩
      exact ⟨first ++ others, by simp only [linesOfItems, first_eq, others_eq]; rfl⟩

/-- Restated statements have a text. -/
theorem lines_restated {tree : Tree} (restated : tree.Restated wording) (indent : String)
    (level : Int) (directed : Bool) : ∃ lines, tree.lines indent level directed = .ok lines := by
  induction restated generalizing level with
  | subgraph named inside ih =>
      rcases linesOfItems_restated indent (level + 1) directed
        fun child child_mem => ih child child_mem (level + 1) with ⟨body, body_eq⟩
      exact ⟨_, by simp only [lines, body_eq]; rfl⟩
  | nodeStmt named listed => exact ⟨_, rfl⟩
  | edgeStmt tail_named head_named listed => exact ⟨_, rfl⟩
  | attrStmt filled listed => exact ⟨_, rfl⟩

theorem toText_restated {kind : String} {id : Option String} {isStrict : Bool}
    {children : List Tree} (restated : ∀ child ∈ children, child.Restated wording)
    (indent : String) (level : Int) (directed : Bool) :
    ∃ text, toText indent level directed (.graph kind id isStrict children) = .ok text := by
  rcases linesOfItems_restated indent (level + 1) (kind == "digraph")
    fun child child_mem => lines_restated (restated child child_mem) indent (level + 1)
      (kind == "digraph") with ⟨body, body_eq⟩
  exact ⟨_, by simp only [toText, lines, body_eq]; rfl⟩

end Tree

namespace Model

/-- What is said of names and attribute lists is true of those in a model. -/
structure Worded (wording : Wording) (encode : Encoder) (model : Model) : Prop where
  id : ∀ name ∈ model.id, wording.name name
  nodes : ∀ name ∈ model.nodes.keys, wording.name name
  ends : ∀ edge ∈ model.edges, wording.name edge.tail ∧ wording.name edge.head
  declared : ∀ {key subgraph}, model.graphs.get? key = some subgraph →
    ∀ name ∈ subgraph.id, wording.name name
  members : ∀ {key subgraph}, model.graphs.get? key = some subgraph →
    ∀ name ∈ subgraph.nodes, wording.name name
  attrs : ∀ place listed, attrList encode (model.attrsAt place) = .ok listed →
    wording.attrs listed

variable {wording : Wording} {encode : Encoder} {model : Model}

theorem nodeStmts_restated (worded : model.Worded wording encode) {ids : List String}
    (named : ∀ id ∈ ids, wording.name id) {trees : List Tree}
    (made : ids.mapM (nodeStmt encode model) = .ok trees) :
    ∀ tree ∈ trees, tree.Restated wording := by
  intro tree tree_mem
  rcases exists_of_mem_mapM made tree_mem with ⟨id, id_mem, tree_eq⟩
  rcases exists_of_bind_eq_ok tree_eq with ⟨attrs, attrs_eq, tree_eq⟩
  cases tree_eq
  exact .nodeStmt (named id id_mem) (worded.attrs (.node id) attrs attrs_eq)

theorem edgeStmts_restated (worded : model.Worded wording encode) {numbers : List Nat}
    {trees : List Tree} (made : (model.edgesAt numbers).mapM (edgeStmt encode) = .ok trees) :
    ∀ tree ∈ trees, tree.Restated wording := by
  intro tree tree_mem
  rcases exists_of_mem_mapM made tree_mem with ⟨edge, edge_mem, tree_eq⟩
  rcases exists_of_bind_eq_ok tree_eq with ⟨attrs, attrs_eq, tree_eq⟩
  rcases List.mem_filterMap.mp edge_mem with ⟨number, _, edge_found⟩
  have ends := worded.ends edge (List.mem_of_getElem? edge_found)
  have attrs_at : model.attrsAt (.edge number) = edge.attrs := by simp [attrsAt, edge_found]
  cases tree_eq
  exact .edgeStmt ends.1 ends.2 (worded.attrs (.edge number) attrs (attrs_at ▸ attrs_eq))

theorem ownStmts_restated (worded : model.Worded wording encode) {key : String}
    {subgraph : Subgraph} (found : model.graphs.get? key = some subgraph) {trees : List Tree}
    (made : ownStmts encode model subgraph = .ok trees) :
    ∀ tree ∈ trees, tree.Restated wording := by
  rcases exists_of_bind_eq_ok made with ⟨nodes, nodes_eq, made⟩
  rcases exists_of_bind_eq_ok made with ⟨edges, edges_eq, made⟩
  rcases exists_of_bind_eq_ok made with ⟨attrs, attrs_eq, made⟩
  cases made
  have nodes_restated := nodeStmts_restated worded (worded.members found) nodes_eq
  have edges_restated := edgeStmts_restated worded edges_eq
  have attrs_restated : ∀ tree ∈ attrs, tree.Restated wording := by
    rw [graphAttrStmts] at attrs_eq
    split at attrs_eq
    · cases attrs_eq
      exact List.forall_mem_nil _
    · next filled =>
        rcases exists_of_bind_eq_ok attrs_eq with ⟨listed, listed_eq, attrs_eq⟩
        cases attrs_eq
        have attrs_at : model.attrsAt (.graph key) = subgraph.attrs := by simp [attrsAt, found]
        have listed_restated := worded.attrs (.graph key) listed (attrs_at ▸ listed_eq)
        refine List.forall_mem_singleton.mpr (.attrStmt ?_ listed_restated)
        rintro rfl
        have noEntries : subgraph.attrs.entries = [] :=
          List.eq_nil_of_length_eq_zero (length_of_mapM listed_eq).symm
        exact filled (List.isEmpty_iff.mpr noEntries)
  intro tree tree_mem
  rw [List.mem_append, List.mem_append] at tree_mem
  rcases tree_mem with (tree_mem | tree_mem) | tree_mem
  · exact nodes_restated tree tree_mem
  · exact edges_restated tree tree_mem
  · exact attrs_restated tree tree_mem

mutual

theorem body_restated (worded : model.Worded wording encode) : ∀ (hierarchy : Hierarchy)
    {trees : List Tree},
    (∀ subgraph ∈ hierarchy.walk, ∃ key, model.graphs.get? key = some subgraph) →
    body encode model hierarchy = .ok trees → ∀ tree ∈ trees, tree.Restated wording
  | .scope top children, trees, listed, made => by
      rcases exists_of_bind_eq_ok made with ⟨subgraphs, subgraphs_eq, made⟩
      rcases exists_of_bind_eq_ok made with ⟨own, own_eq, made⟩
      cases made
      rw [Hierarchy.walk, List.forall_mem_cons] at listed
      rcases listed with ⟨⟨key, found⟩, below⟩
      have subgraphs_restated := subgraphStmts_restated worded children below subgraphs_eq
      have own_restated := ownStmts_restated worded found own_eq
      exact List.forall_mem_append.mpr ⟨subgraphs_restated, own_restated⟩

theorem subgraphStmts_restated (worded : model.Worded wording encode) :
    ∀ (hierarchies : List Hierarchy) {trees : List Tree},
    (∀ subgraph ∈ Hierarchy.walkAll hierarchies, ∃ key, model.graphs.get? key = some subgraph) →
    subgraphStmts encode model hierarchies = .ok trees → ∀ tree ∈ trees, tree.Restated wording
  | [], _, _, made => by
      cases made
      exact List.forall_mem_nil _
  | hierarchy :: rest, trees, listed, made => by
      rcases exists_of_bind_eq_ok made with ⟨children, children_eq, made⟩
      rcases exists_of_bind_eq_ok made with ⟨others, others_eq, made⟩
      cases made
      rw [Hierarchy.walkAll, List.forall_mem_append] at listed
      rcases listed.1 hierarchy.top hierarchy.top_mem_walk with ⟨key, found⟩
      have inside := body_restated worded hierarchy listed.1 children_eq
      have others_restated := subgraphStmts_restated worded rest listed.2 others_eq
      exact List.forall_mem_cons.mpr ⟨.subgraph (worded.declared found) inside, others_restated⟩

end

theorem rootBody_restated (worded : model.Worded wording encode) {trees : List Tree}
    (made : rootBody encode model = .ok trees) : ∀ tree ∈ trees, tree.Restated wording := by
  rw [rootBody] at made
  split at made
  · next hierarchy hierarchy_eq =>
      apply body_restated worded hierarchy _ made
      intro subgraph subgraph_mem
      rcases Option.bind_eq_some_iff.mp hierarchy_eq with ⟨root, _, below⟩
      rcases Option.map_eq_some_iff.mp below with ⟨top, found, rfl⟩
      rcases Forest.mem_walk_hierarchyTo subgraph_mem with rfl | listed
      · exact ⟨root, found⟩
      · exact listed
  · cases made
    exact List.forall_mem_nil _

/-- A regenerated tree is a graph of restated statements. -/
theorem toTree_restated (worded : model.Worded wording encode) {tree : Tree}
    (made : model.toTree encode = .ok tree) :
    ∃ children, tree = .graph model.kind model.id model.isStrict children ∧
      ∀ child ∈ children, child.Restated wording := by
  rcases exists_of_bind_eq_ok made with ⟨listed, listed_eq, made⟩
  rcases exists_of_bind_eq_ok made with ⟨nodes, nodes_eq, made⟩
  rcases exists_of_bind_eq_ok made with ⟨edges, edges_eq, made⟩
  cases made
  have listed_restated := rootBody_restated worded listed_eq
  have unlisted_named : ∀ id ∈ model.unlistedNodes, wording.name id :=
    fun id id_mem => worded.nodes id (List.mem_of_mem_filter id_mem)
  have nodes_restated := nodeStmts_restated worded unlisted_named nodes_eq
  have edges_restated := edgeStmts_restated worded edges_eq
  refine ⟨_, rfl, ?_⟩
  intro child child_mem
  rw [List.mem_append, List.mem_append] at child_mem
  rcases child_mem with (child_mem | child_mem) | child_mem
  · exact listed_restated child child_mem
  · exact nodes_restated child child_mem
  · exact edges_restated child child_mem

/-- A regenerated tree has a text. -/
theorem exists_text_of_toTree {tree : Tree} (made : model.toTree encode = .ok tree)
    (indent : String) (level : Int) (directed : Bool) :
    ∃ text, tree.toText indent level directed = .ok text := by
  let anything : Wording := ⟨fun _ => True, fun _ => True⟩
  have worded : model.Worded anything encode := by constructor <;> simp [anything]
  rcases toTree_restated worded made with ⟨children, rfl, restated⟩
  exact Tree.toText_restated restated indent level directed

end Model

end DotLang
