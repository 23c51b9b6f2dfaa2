import DotLang.Proofs.Operations

/-!
# Endpoints of edges as mentions of nodes

An edge statement mentions those of its endpoints that are no nodes yet, as if a
node statement without attributes stood before it for each of them. Endpoints
that are nodes already are left alone: they neither receive the defaults in
effect nor join the enclosing subgraph (`run_edgeStmt_eq_newEndpoints`).

A node is noted if a further mention would change nothing. Mentions make nodes
noted and keep them so, which is why an endpoint may occur several times.
-/

namespace DotLang

/-- The members of the subgraph with a key. -/
def Model.membersOf (model : Model) (key : String) : List String :=
  ((model.graphs.get? key).map Subgraph.nodes).getD []

namespace Walk

variable {options : WalkOptions} {defaults : Attributes} {parent : Option String}
  {state : WalkState} {id other : String}

/-- The state after a mention without attributes. -/
def mentioned (defaults : Attributes) (parent : Option String) (state : WalkState) (id : String) :
    WalkState :=
  after (mention id ∅ defaults parent) state

/-- The state after a node reference is resolved as an endpoint. -/
def resolved (defaults : Attributes) (parent : Option String) (state : WalkState) (id : String) :
    WalkState :=
  if id ∈ state.model.nodes.keys then state else mentioned defaults parent state id

/-- A node has the defaults and is a member of the enclosing subgraph. -/
structure Noted (defaults : Attributes) (parent : Option String) (model : Model) (id : String) :
    Prop where
  filled : ∃ node, model.nodes.get? id = some node ∧
    Attributes.fill node.attrs defaults = node.attrs
  member : ∀ above ∈ parent, ∀ {subgraph}, model.graphs.get? above = some subgraph →
    id ∈ subgraph.nodes

/-! ### What a mention changes -/

theorem wellFormed_mentioned (wellFormed : state.model.WellFormed) (id : String) :
    (mentioned defaults parent state id).model.WellFormed :=
  wellFormed_after_mention wellFormed id ∅ defaults parent

/-- A mention without attributes fills the node in and leaves the others alone. -/
theorem get?_nodes_mentioned (wellFormed : state.model.WellFormed) (id other : String) :
    (mentioned defaults parent state id).model.nodes.get? other =
      if other = id then
        some { id, attrs := Attributes.fill (state.model.attrsAt (.node id)) defaults }
      else state.model.nodes.get? other := by
  rw [mentioned, nodes_after_mention, Model.attrsAt]
  cases found : state.model.nodes.get? id with
  | none => simp [OrderedMap.get?_insert]
  | some node => simp [OrderedMap.get?_insert, wellFormed.node_id found]

theorem mem_keys_nodes_mentioned (wellFormed : state.model.WellFormed) (id other : String) :
    other ∈ (mentioned defaults parent state id).model.nodes.keys ↔
      other = id ∨ other ∈ state.model.nodes.keys := by
  rw [OrderedMap.mem_keys_iff, OrderedMap.mem_keys_iff, get?_nodes_mentioned wellFormed]
  by_cases same : other = id <;> simp [same]

theorem get?_graphs_mentioned (id key : String) :
    (mentioned defaults parent state id).model.graphs.get? key =
      if some key = parent then
        (state.model.graphs.get? key).map fun subgraph => subgraph.addNode id
      else state.model.graphs.get? key := by
  rw [mentioned, graphs_after_mention]
  cases parent with
  | none => simp
  | some above => simp [OrderedMap.get?_modify]

/-- A mention makes a node a member of the enclosing subgraph and changes no other membership. -/
theorem mem_membersOf_mentioned (id key other : String) :
    other ∈ (mentioned defaults parent state id).model.membersOf key ↔
      (some key = parent ∧ key ∈ state.model.graphs.keys ∧ other = id) ∨
        other ∈ state.model.membersOf key := by
  rw [Model.membersOf, Model.membersOf, get?_graphs_mentioned, OrderedMap.mem_keys_iff]
  by_cases isParent : some key = parent
  · cases state.model.graphs.get? key <;> simp [isParent, Subgraph.mem_nodes_addNode]
  · simp [isParent]

/-! ### Noted nodes -/

/-- A mention of a noted node changes nothing. -/
theorem mentioned_eq_self (wellFormed : state.model.WellFormed)
    (noted : Noted defaults parent state.model id) :
    mentioned defaults parent state id = state := by
  rcases noted.filled with ⟨node, found, filled⟩
  have id_eq := wellFormed.node_id found
  have sameNodes : state.model.nodes.insert id
      { id, attrs := Attributes.fill node.attrs defaults } = state.model.nodes := by
    apply OrderedMap.insert_eq_self
    rw [found, filled, ← id_eq]
  have nodes_eq : (mentioned defaults parent state id).model.nodes = state.model.nodes := by
    rw [mentioned, nodes_after_mention, found]
    simpa [id_eq] using sameNodes
  have graphs_eq : (mentioned defaults parent state id).model.graphs = state.model.graphs := by
    rw [mentioned, graphs_after_mention]
    cases parent with
    | none => rfl
    | some above =>
        apply OrderedMap.modify_eq_self
        intro subgraph aboveFound
        rw [Subgraph.addNode, if_pos (noted.member above rfl aboveFound)]
  calc
    mentioned defaults parent state id = { state with model := { state.model with
        nodes := (mentioned defaults parent state id).model.nodes
        graphs := (mentioned defaults parent state id).model.graphs } } := by
      cases parent <;> rfl
    _ = state := by rw [nodes_eq, graphs_eq]

theorem noted_mentioned (wellFormed : state.model.WellFormed) (id : String) :
    Noted defaults parent (mentioned defaults parent state id).model id := by
  constructor
  · let filled := Attributes.fill (state.model.attrsAt (.node id)) defaults
    have found : (mentioned defaults parent state id).model.nodes.get? id =
        some { id, attrs := filled } := by
      rw [get?_nodes_mentioned wellFormed, if_pos rfl]
    exact ⟨_, found, OrderedMap.fill_fill_self _ _ _⟩
  · intro above isParent subgraph found
    rw [get?_graphs_mentioned, if_pos isParent.symm, Option.map_eq_some_iff] at found
    rcases found with ⟨old, _, rfl⟩
    exact Subgraph.mem_nodes_addNode.mpr (Or.inl rfl)

/-- A noted node stays noted. -/
theorem Noted.mentioned (noted : Noted defaults parent state.model id)
    (wellFormed : state.model.WellFormed) (other : String) :
    Noted defaults parent (mentioned defaults parent state other).model id := by
  by_cases same : other = id
  · rw [same, mentioned_eq_self wellFormed noted]
    exact noted
  · constructor
    · rw [get?_nodes_mentioned wellFormed, if_neg (Ne.symm same)]
      exact noted.filled
    · intro above isParent subgraph found
      rw [get?_graphs_mentioned, if_pos isParent.symm, Option.map_eq_some_iff] at found
      rcases found with ⟨old, oldFound, rfl⟩
      exact Subgraph.mem_nodes_addNode.mpr (Or.inr (noted.member above isParent oldFound))

/-! ### Many mentions -/

theorem foldl_mentioned_known (wellFormed : state.model.WellFormed) (ids : List String) :
    ∀ other ∈ state.model.nodes.keys ++ ids,
      other ∈ (ids.foldl (mentioned defaults parent) state).model.nodes.keys := by
  induction ids generalizing state with
  | nil => simp
  | cons id rest ih =>
      intro other other_mem
      refine ih (wellFormed_mentioned wellFormed id) other ?_
      simp only [List.mem_append, List.mem_cons, mem_keys_nodes_mentioned wellFormed] at other_mem ⊢
      tauto

theorem foldl_mentioned_noted (wellFormed : state.model.WellFormed) {ids : List String}
    (noted : id ∈ ids ∨ Noted defaults parent state.model id) :
    Noted defaults parent (ids.foldl (mentioned defaults parent) state).model id := by
  induction ids generalizing state with
  | nil => exact noted.resolve_left List.not_mem_nil
  | cons first rest ih =>
      refine ih (wellFormed_mentioned wellFormed first) ?_
      rcases noted with id_mem | noted
      · rcases List.mem_cons.mp id_mem with rfl | id_mem
        · exact Or.inr (noted_mentioned wellFormed id)
        · exact Or.inl id_mem
      · exact Or.inr (noted.mentioned wellFormed first)

theorem foldl_mentioned_member {above : String} (isParent : above ∈ parent)
    (listed : above ∈ state.model.graphs.keys) {ids : List String}
    (member : id ∈ ids ∨ id ∈ state.model.membersOf above) :
    id ∈ (ids.foldl (mentioned defaults parent) state).model.membersOf above := by
  induction ids generalizing state with
  | nil => exact member.resolve_left List.not_mem_nil
  | cons first rest ih =>
      have listed' : above ∈ (mentioned defaults parent state first).model.graphs.keys := by
        rw [mentioned, graphs_after_mention]
        cases parent <;> simpa using listed
      apply ih listed'
      rw [mem_membersOf_mentioned]
      rcases member with id_mem | member
      · rcases List.mem_cons.mp id_mem with rfl | id_mem
        · exact Or.inr (Or.inl ⟨isParent.symm, listed, rfl⟩)
        · exact Or.inl id_mem
      · exact Or.inr (Or.inr member)

/-- Known endpoints are resolved by doing nothing. -/
theorem foldl_resolved_eq_self {ids : List String}
    (known : ∀ id ∈ ids, id ∈ state.model.nodes.keys) :
    ids.foldl (resolved defaults parent) state = state := by
  induction ids with
  | nil => rfl
  | cons id rest ih =>
      rw [List.foldl_cons, resolved, if_pos (known id List.mem_cons_self)]
      exact ih fun other other_mem => known other (List.mem_cons_of_mem id other_mem)

/-- Resolving endpoints is mentioning them, but for some that are nodes already, provided that the
other nodes among them are noted. -/
theorem foldl_resolved_eq (wellFormed : state.model.WellFormed) (skipped : String → Bool)
    {ids : List String} (known : ∀ id ∈ ids, skipped id = true → id ∈ state.model.nodes.keys)
    (noted : ∀ id ∈ ids, skipped id = false → id ∈ state.model.nodes.keys →
      Noted defaults parent state.model id) :
    ids.foldl (resolved defaults parent) state =
      (ids.filter fun id => !skipped id).foldl (mentioned defaults parent) state := by
  induction ids generalizing state with
  | nil => rfl
  | cons id rest ih =>
      have known' : ∀ other ∈ rest, skipped other = true → other ∈ state.model.nodes.keys :=
        fun other other_mem => known other (List.mem_cons_of_mem id other_mem)
      have noted' : ∀ other ∈ rest, skipped other = false → other ∈ state.model.nodes.keys →
          Noted defaults parent state.model other :=
        fun other other_mem => noted other (List.mem_cons_of_mem id other_mem)
      by_cases isSkipped : skipped id = true
      · rw [List.foldl_cons, resolved, if_pos (known id List.mem_cons_self isSkipped),
          List.filter_cons_of_neg (by simp [isSkipped])]
        exact ih wellFormed known' noted'
      · have isMentioned : skipped id = false := by simpa using isSkipped
        rw [List.filter_cons_of_pos (by simp [isMentioned]), List.foldl_cons, List.foldl_cons]
        by_cases isKnown : id ∈ state.model.nodes.keys
        · rw [resolved, if_pos isKnown,
            mentioned_eq_self wellFormed (noted id List.mem_cons_self isMentioned isKnown)]
          exact ih wellFormed known' noted'
        · rw [resolved, if_neg isKnown]
          apply ih (wellFormed_mentioned wellFormed id)
          · intro other other_mem isSkipped
            rw [mem_keys_nodes_mentioned wellFormed]
            exact Or.inr (known' other other_mem isSkipped)
          · intro other other_mem notSkipped isNode
            rw [mem_keys_nodes_mentioned wellFormed] at isNode
            rcases isNode with rfl | isNode
            · exact noted_mentioned wellFormed other
            · exact (noted' other other_mem notSkipped isNode).mentioned wellFormed id

/-- Resolving endpoints leaves known nodes alone, their attributes as well as their membership. -/
theorem foldl_resolved_of_known (wellFormed : state.model.WellFormed) (ids : List String)
    (known : id ∈ state.model.nodes.keys) :
    (ids.foldl (resolved defaults parent) state).model.nodes.get? id =
        state.model.nodes.get? id ∧
      ∀ key, id ∈ (ids.foldl (resolved defaults parent) state).model.membersOf key ↔
        id ∈ state.model.membersOf key := by
  induction ids generalizing state with
  | nil => simp
  | cons first rest ih =>
      rw [List.foldl_cons, resolved]
      split
      · exact ih wellFormed known
      · next isNew =>
          have differs : id ≠ first := fun same => isNew (same ▸ known)
          have known' : id ∈ (mentioned defaults parent state first).model.nodes.keys :=
            (mem_keys_nodes_mentioned wellFormed first id).mpr (Or.inr known)
          have later := ih (wellFormed_mentioned wellFormed first) known'
          rw [get?_nodes_mentioned wellFormed, if_neg differs] at later
          refine ⟨later.1, fun key => (later.2 key).trans ?_⟩
          simp [mem_membersOf_mentioned, differs]

/-- A new endpoint becomes a node with the defaults for nodes. -/
theorem foldl_resolved_of_new (wellFormed : state.model.WellFormed) {ids : List String}
    (id_mem : id ∈ ids) (isNew : id ∉ state.model.nodes.keys) :
    (ids.foldl (resolved defaults parent) state).model.nodes.get? id =
      some { id, attrs := defaults } := by
  induction ids generalizing state with
  | nil => exact absurd id_mem List.not_mem_nil
  | cons first rest ih =>
      rw [List.foldl_cons, resolved]
      by_cases same : id = first
      · subst same
        rw [if_neg isNew]
        have isNode : id ∈ (mentioned defaults parent state id).model.nodes.keys :=
          (mem_keys_nodes_mentioned wellFormed id id).mpr (Or.inl rfl)
        rw [(foldl_resolved_of_known (wellFormed_mentioned wellFormed id) rest isNode).1,
          get?_nodes_mentioned wellFormed, if_pos rfl, Model.attrsAt,
          (state.model.nodes.get?_eq_none_iff id).mpr isNew]
        simp [Attributes.fill]
      · have id_mem' := (List.mem_cons.mp id_mem).resolve_left same
        split
        · exact ih wellFormed id_mem' isNew
        · apply ih (wellFormed_mentioned wellFormed first) id_mem'
          rw [mem_keys_nodes_mentioned wellFormed]
          exact not_or.mpr ⟨same, isNew⟩

/-- The new ones among the endpoints are mentioned. -/
theorem foldl_resolved_eq_new (wellFormed : state.model.WellFormed) (ids : List String) :
    ids.foldl (resolved defaults parent) state =
      (ids.filter (· ∉ state.model.nodes.keys)).foldl (mentioned defaults parent) state := by
  rw [foldl_resolved_eq wellFormed fun id => decide (id ∈ state.model.nodes.keys)]
  · simp
  · simp
  · simp only [decide_eq_false_iff_not]
    exact fun id _ isNew known => absurd known isNew

/-- Resolving endpoints comes to the same as mentioning all of them exactly if those that are nodes
already are noted. -/
theorem foldl_resolved_same_iff (wellFormed : state.model.WellFormed)
    (enclosed : Enclosed parent state.model) (ids : List String) :
    ((ids.foldl (resolved defaults parent) state).model.nodes =
          (ids.foldl (mentioned defaults parent) state).model.nodes ∧
        ∀ above ∈ parent, (ids.foldl (resolved defaults parent) state).model.membersOf above =
          (ids.foldl (mentioned defaults parent) state).model.membersOf above) ↔
      ∀ id ∈ ids, id ∈ state.model.nodes.keys → Noted defaults parent state.model id := by
  constructor
  · rintro ⟨sameNodes, sameMembers⟩ id id_mem known
    have kept := @foldl_resolved_of_known defaults parent state id wellFormed ids known
    have noted : Noted defaults parent (ids.foldl (mentioned defaults parent) state).model id :=
      foldl_mentioned_noted wellFormed (Or.inl id_mem)
    constructor
    · rw [← kept.1, sameNodes]
      exact noted.filled
    · intro above isParent subgraph found
      have member : id ∈ (ids.foldl (resolved defaults parent) state).model.membersOf above := by
        rw [sameMembers above isParent]
        exact foldl_mentioned_member isParent (enclosed above isParent) (Or.inl id_mem)
      rw [kept.2, Model.membersOf, found] at member
      exact member
  · intro noted
    have same : ids.foldl (resolved defaults parent) state =
        ids.foldl (mentioned defaults parent) state := by
      rw [foldl_resolved_eq wellFormed fun _ => false]
      · simp
      · simp
      · exact fun id id_mem _ known => noted id id_mem known
    rw [same]
    exact ⟨rfl, fun _ _ => rfl⟩

/-! ### Edge statements -/

/-- The edges of a statement whose endpoints are node references. -/
def chainEdges (scope : Scope) (nodes : List NodeId) (attrs : List Attr) : List Edge :=
  edgesAlong (Attributes.ofAttrs attrs) scope.edge
    (nodes.map fun node => { nodes := [node.id], reference := some node })

theorem run_endpoints (scope : Scope) (nodes : List NodeId) :
    (endpoints options parent scope (nodes.map .nodeId)).run state =
      .ok (nodes.map fun node => { nodes := [node.id], reference := some node })
        ((nodes.map NodeId.id).foldl (resolved scope.node parent) state) := by
  induction nodes generalizing state with
  | nil => rfl
  | cons node rest ih =>
      simp only [List.map_cons, endpoints, endpoint, EStateM.run_bind, run_resolveNode, ih]
      rfl

/-- Node statements without attributes are mentions. -/
theorem run_mentions (scope : Scope) (ids : List String) (rest : List Tree) :
    (statements options parent scope
        (ids.map (fun id => .nodeStmt (.nodeId { id }) []) ++ rest)).run state =
      (statements options parent scope rest).run
        (ids.foldl (mentioned scope.node parent) state) := by
  induction ids generalizing state with
  | nil => rfl
  | cons id others ih =>
      rw [List.map_cons, List.cons_append, statements, EStateM.run_bind]
      exact ih

theorem run_edgeStmt (scope : Scope) (nodes : List NodeId) (attrs : List Attr) :
    (statement options parent scope (.edgeStmt (nodes.map .nodeId) attrs)).run state =
      .ok scope (after (createEdges parent (chainEdges scope nodes attrs))
        ((nodes.map NodeId.id).foldl (resolved scope.node parent) state)) := by
  rw [statement, EStateM.run_bind, run_endpoints]
  rfl

/-- Mentions before an edge statement that cover its new endpoints are all that resolving does. -/
theorem run_mentions_edgeStmt (wellFormed : state.model.WellFormed) (scope : Scope)
    (nodes : List NodeId) (attrs : List Attr) {ids : List String}
    (covered : ∀ node ∈ nodes, node.id ∈ state.model.nodes.keys ++ ids) :
    (statements options parent scope (ids.map (fun id => .nodeStmt (.nodeId { id }) []) ++
        [.edgeStmt (nodes.map .nodeId) attrs])).run state =
      .ok scope (after (createEdges parent (chainEdges scope nodes attrs))
        (ids.foldl (mentioned scope.node parent) state)) := by
  have known : ∀ id ∈ nodes.map NodeId.id,
      id ∈ (ids.foldl (mentioned scope.node parent) state).model.nodes.keys := by
    intro id id_mem
    rcases List.mem_map.mp id_mem with ⟨node, node_mem, rfl⟩
    exact foldl_mentioned_known wellFormed ids node.id (covered node node_mem)
  rw [run_mentions, statements, EStateM.run_bind, run_edgeStmt, foldl_resolved_eq_self known]
  rfl

theorem nodes_after_createEdges (parent : Option String) (edges : List Edge) (state : WalkState) :
    (after (createEdges parent edges) state).model.nodes = state.model.nodes := by
  cases parent <;> rfl

theorem membersOf_after_createEdges (parent : Option String) (edges : List Edge)
    (state : WalkState) (key : String) :
    (after (createEdges parent edges) state).model.membersOf key = state.model.membersOf key := by
  cases parent with
  | none => rfl
  | some above =>
      rw [Model.membersOf, Model.membersOf]
      let numbers := List.range' state.model.edges.length edges.length
      have graphs_eq : (after (createEdges (some above) edges) state).model.graphs =
          state.model.graphs.modify above fun subgraph =>
            { subgraph with edges := subgraph.edges ++ numbers } := rfl
      rw [graphs_eq, OrderedMap.get?_modify]
      split <;> simp [Function.comp_def]

/-- An edge statement does to the nodes, the members and everything else what node statements
without attributes for its new endpoints and then the edge statement would do. So a new endpoint
gets the defaults and joins the enclosing subgraph, and a known one is left alone. Node statements
for all endpoints would come to the same exactly if the known ones are noted already. -/
theorem run_edgeStmt_eq_newEndpoints (options : WalkOptions) (parent : Option String)
    (scope : Scope) (state : WalkState) (nodes : List NodeId) (attrs : List Attr)
    (reachable : state.model.Reachable) (enclosed : Enclosed parent state.model) :
    let edgeStmt := Tree.edgeStmt (nodes.map .nodeId) attrs
    let mentions (ids : List String) := ids.map fun id => Tree.nodeStmt (.nodeId { id }) []
    let ids := nodes.map NodeId.id
    let newIds := ids.filter (· ∉ state.model.nodes.keys)
    let final := after (statement options parent scope edgeStmt) state
    let stated := after (statements options parent scope (mentions ids ++ [edgeStmt])) state
    (statement options parent scope edgeStmt).run state =
        (statements options parent scope (mentions newIds ++ [edgeStmt])).run state ∧
      (∀ id ∈ newIds, final.model.nodes.get? id = some { id, attrs := scope.node } ∧
        ∀ above ∈ parent, id ∈ final.model.membersOf above) ∧
      (∀ id ∈ state.model.nodes.keys,
        final.model.nodes.get? id = state.model.nodes.get? id ∧
          ∀ above, id ∈ final.model.membersOf above ↔ id ∈ state.model.membersOf above) ∧
      ((final.model.nodes = stated.model.nodes ∧
          ∀ above ∈ parent, final.model.membersOf above = stated.model.membersOf above) ↔
        ∀ id ∈ ids, id ∈ state.model.nodes.keys → Noted scope.node parent state.model id) := by
  intro edgeStmt mentions ids newIds final stated
  have wellFormed := reachable.wellFormed
  have resolved_eq : ids.foldl (resolved scope.node parent) state =
      newIds.foldl (mentioned scope.node parent) state := foldl_resolved_eq_new wellFormed ids
  let edges := chainEdges scope nodes attrs
  have final_eq : final =
      after (createEdges parent edges) (ids.foldl (resolved scope.node parent) state) := by
    simp only [final, edgeStmt]
    rw [after, run_edgeStmt]
  have stated_eq : stated =
      after (createEdges parent edges) (ids.foldl (mentioned scope.node parent) state) := by
    simp only [stated, mentions, edgeStmt]
    rw [after, run_mentions_edgeStmt wellFormed scope nodes attrs]
    intro node node_mem
    exact List.mem_append_right _ (List.mem_map_of_mem node_mem)
  refine ⟨?_, ?_, ?_, ?_⟩
  · have covered : ∀ node ∈ nodes, node.id ∈ state.model.nodes.keys ++ newIds := by
      intro node node_mem
      have id_mem : node.id ∈ ids := List.mem_map_of_mem node_mem
      by_cases known : node.id ∈ state.model.nodes.keys <;> simp [newIds, known, id_mem]
    simp only [mentions, edgeStmt]
    rw [run_mentions_edgeStmt wellFormed scope nodes attrs covered, run_edgeStmt, resolved_eq]
  · intro id id_mem
    have isNew : id ∈ ids ∧ id ∉ state.model.nodes.keys := by simpa [newIds] using id_mem
    rw [final_eq, nodes_after_createEdges]
    refine ⟨foldl_resolved_of_new wellFormed isNew.1 isNew.2, ?_⟩
    intro above isParent
    rw [membersOf_after_createEdges, resolved_eq]
    exact foldl_mentioned_member isParent (enclosed above isParent) (Or.inl id_mem)
  · intro id known
    rw [final_eq, nodes_after_createEdges]
    simp only [membersOf_after_createEdges]
    exact foldl_resolved_of_known wellFormed ids known
  · simp only [final_eq, stated_eq, nodes_after_createEdges, membersOf_after_createEdges]
    exact foldl_resolved_same_iff wellFormed enclosed ids

/-- An edge from a node outside the enclosing subgraph to a new node. -/
theorem run_edgeStmt_of_known_and_new :
    let document := Tree.graph "digraph" (some "g") false
      [.nodeStmt (.nodeId { id := "a" }) [], .subgraph (some "s") []]
    let state : WalkState := { model := (Model.walk {} .plain document ∅).model }
    let scope : Scope := { node := OrderedMap.ofList [("color", .text "red")] }
    let edgeStmt := Tree.edgeStmt [.nodeId { id := "a" }, .nodeId { id := "b" }] []
    let nodeStmt := Tree.nodeStmt (.nodeId { id := "b" }) []
    let final := after (statement {} (some "s") scope edgeStmt) state
    (statement {} (some "s") scope edgeStmt).run state =
        (statements {} (some "s") scope [nodeStmt, edgeStmt]).run state ∧
      final.model.membersOf "s" = ["b"] := by
  intro document state scope edgeStmt nodeStmt final
  have reachable : state.model.Reachable := .operate (.walk {} .plain document) .empty
  have enclosed : Enclosed (some "s") state.model := enclosed_some (by decide)
  have applied := run_edgeStmt_eq_newEndpoints {} (some "s") scope state
    [{ id := "a" }, { id := "b" }] [] reachable enclosed
  exact ⟨applied.1, rfl⟩

/-- Node statements for all endpoints come to something else: the edge alone neither gives the
defaults to the known endpoint nor makes it a member. -/
theorem run_edgeStmt_ne_allEndpoints :
    let document := Tree.graph "digraph" (some "g") false
      [.nodeStmt (.nodeId { id := "a" }) [], .subgraph (some "s") []]
    let state : WalkState := { model := (Model.walk {} .plain document ∅).model }
    let scope : Scope := { node := OrderedMap.ofList [("color", .text "red")] }
    let edgeStmt := Tree.edgeStmt [.nodeId { id := "a" }, .nodeId { id := "b" }] []
    let nodeStmts :=
      [Tree.nodeStmt (.nodeId { id := "a" }) [], Tree.nodeStmt (.nodeId { id := "b" }) []]
    let final := after (statement {} (some "s") scope edgeStmt) state
    let stated := after (statements {} (some "s") scope (nodeStmts ++ [edgeStmt])) state
    final.model.nodes ≠ stated.model.nodes ∧
      final.model.membersOf "s" = ["b"] ∧ stated.model.membersOf "s" = ["a", "b"] := by
  refine ⟨?_, rfl, rfl⟩
  intro same
  have sameKeys := congrArg (fun nodes => (nodes.get? "a").map fun node => node.attrs.keys) same
  exact absurd sameKeys (by decide)

end Walk

end DotLang
