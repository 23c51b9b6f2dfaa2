import DotLang.Proofs.Regeneration
import DotLang.Proofs.Walk.Completion
import DotLang.Proofs.Walk.Endpoints
import DotLang.Proofs.Walk.Naming

/-!
# Walking a regenerated tree

Walking the regenerated tree of a model builds a second model with the same
content. On the way the second model is a draft of the first (`Drafts`): its
nodes are nodes of the first, and those that only occurred as endpoints so far
have no attributes yet. Every part of the tree extends the draft by the nodes and
edges that it states and by nothing else (`Extends`), and it does not touch the
attributes of the root, because the root is not entered again: generated keys are
free, and no subgraph below the root is called like it (`Named.id_below_ne`).

The main result is `rewalk_eq`.
-/

namespace DotLang

namespace Model

/-- What a model says about the document as a whole. -/
def heading (model : Model) : Option String × Option String × String × Bool × List String :=
  (model.root, model.id, model.kind, model.isStrict, model.diagnostics)

/-- The attributes of the root. -/
def rootAttrs (model : Model) : Attributes :=
  ((model.root.bind model.graphs.get?).map Subgraph.attrs).getD ∅

/-- The second model has nodes of the first only, as they are there or still without attributes,
and the subgraph `root`. -/
structure Drafts (model : Model) (root : String) (draft : Model) : Prop where
  nodes : ∀ {id node}, draft.nodes.get? id = some node →
    id ∈ model.nodes.keys ∧ (model.nodes.get? id = some node ∨ node = { id })
  listed : root ∈ draft.graphs.keys

/-- A draft is extended by the given nodes and edges. -/
structure Extends (model : Model) (root : String) (nodes : List String) (edges : List Edge)
    (before later : Model) : Prop where
  drafts : model.Drafts root later
  /-- The given nodes are complete. -/
  stated : ∀ id ∈ nodes, ∃ node, model.nodes.get? id = some node ∧
    later.nodes.get? id = some node
  /-- A complete node stays complete. -/
  kept : ∀ {id node}, model.nodes.get? id = some node → before.nodes.get? id = some node →
    later.nodes.get? id = some node
  edges_eq : later.edges = before.edges ++ edges
  heading_eq : later.heading = before.heading
  attrs_eq : later.attrsAt (.graph root) = before.attrsAt (.graph root)

variable {model before later : Model} {root : String} {nodes : List String} {edges : List Edge}

theorem Extends.refl (drafts : model.Drafts root before) :
    model.Extends root [] [] before before where
  drafts := drafts
  stated _ id_mem := nomatch id_mem
  kept _ found := found
  edges_eq := (List.append_nil _).symm
  heading_eq := rfl
  attrs_eq := rfl

theorem Extends.trans {final : Model} {nodes' : List String} {edges' : List Edge}
    (early : model.Extends root nodes edges before later)
    (late : model.Extends root nodes' edges' later final) :
    model.Extends root (nodes ++ nodes') (edges ++ edges') before final where
  drafts := late.drafts
  stated := by
    intro id id_mem
    rcases List.mem_append.mp id_mem with id_mem | id_mem
    · rcases early.stated id id_mem with ⟨node, isNode, found⟩
      exact ⟨node, isNode, late.kept isNode found⟩
    · exact late.stated id id_mem
  kept isNode found := late.kept isNode (early.kept isNode found)
  edges_eq := by rw [late.edges_eq, early.edges_eq, List.append_assoc]
  heading_eq := late.heading_eq.trans early.heading_eq
  attrs_eq := late.attrs_eq.trans early.attrs_eq

namespace Drafts

/-- The subgraphs change, but the attributes of the root do not. -/
theorem extends_graphs (drafts : model.Drafts root before) (graphs : Forest)
    (listed : root ∈ graphs.keys)
    (attrs_eq : (graphs.get? root).map Subgraph.attrs =
      (before.graphs.get? root).map Subgraph.attrs) :
    model.Extends root [] [] before { before with graphs } where
  drafts := ⟨drafts.nodes, listed⟩
  stated _ id_mem := nomatch id_mem
  kept _ found := found
  edges_eq := (List.append_nil _).symm
  heading_eq := rfl
  attrs_eq := congrArg (fun attrs => attrs.getD ∅) attrs_eq

theorem extends_modify (drafts : model.Drafts root before) (key : String)
    (change : Subgraph → Subgraph)
    (keeps : key = root → ∀ subgraph, (change subgraph).attrs = subgraph.attrs) :
    model.Extends root [] [] before { before with graphs := before.graphs.modify key change } := by
  apply drafts.extends_graphs
  · simpa only [OrderedMap.keys_modify] using drafts.listed
  · rw [OrderedMap.get?_modify]
    split
    · next same =>
        rw [Option.map_map]
        exact congrArg (fun attrs => (before.graphs.get? root).map attrs)
          (funext (keeps same.symm))
    · rfl

theorem extends_addMember (drafts : model.Drafts root before) (key node : String) :
    model.Extends root [] [] before (before.addMember key node) := by
  apply drafts.extends_modify key fun subgraph => subgraph.addNode node
  intro _ subgraph
  rw [Subgraph.addNode]
  split <;> rfl

/-- A node is written as it is in the model, or without attributes if it is new. -/
theorem extends_insert (drafts : model.Drafts root before) {id : String} {node : Node}
    (known : id ∈ model.nodes.keys)
    (right : model.nodes.get? id = some node ∨ node = { id } ∧ id ∉ before.nodes.keys) :
    model.Extends root [] [] before { before with nodes := before.nodes.insert id node } where
  drafts := by
    refine ⟨?_, drafts.listed⟩
    intro other node' found
    rw [OrderedMap.get?_insert] at found
    split at found
    · next same =>
        cases found
        rw [same]
        exact ⟨known, right.imp_right And.left⟩
    · exact drafts.nodes found
  stated _ id_mem := nomatch id_mem
  kept := by
    intro other node' isNode found
    rw [OrderedMap.get?_insert]
    split
    · next same =>
        rw [same] at isNode found
        rcases right with isSame | ⟨_, isNew⟩
        · exact isSame.symm.trans isNode
        · exact absurd (OrderedMap.mem_keys_of_get? found) isNew
    · exact found
  edges_eq := (List.append_nil _).symm
  heading_eq := rfl
  attrs_eq := rfl

/-- A node statement completes its node. -/
theorem extends_stated (drafts : model.Drafts root before) {id : String} {node : Node}
    (isNode : model.nodes.get? id = some node) :
    model.Extends root [id] [] before { before with nodes := before.nodes.insert id node } :=
  { drafts.extends_insert (OrderedMap.mem_keys_of_get? isNode) (Or.inl isNode) with
    stated := by
      intro other other_mem
      rw [List.mem_singleton.mp other_mem]
      exact ⟨node, isNode, by rw [OrderedMap.get?_insert, if_pos rfl]⟩ }

theorem extends_addEdges (drafts : model.Drafts root before) (edges : List Edge) :
    model.Extends root [] edges before (before.addEdges edges) where
  drafts := ⟨drafts.nodes, drafts.listed⟩
  stated _ id_mem := nomatch id_mem
  kept _ found := found
  edges_eq := rfl
  heading_eq := rfl
  attrs_eq := rfl

end Drafts

end Model

namespace Walk

variable {α β : Type} {options : WalkOptions} {parent : Option String} {model : Model}
  {root : String} {state : WalkState}

/-- From every draft a walk goes through and extends the draft by the given nodes and edges. -/
def Redraws (model : Model) (root : String) (walk : Walk α) (result : α) (nodes : List String)
    (edges : List Edge) : Prop :=
  ∀ state, model.Drafts root state.model →
    ∃ final, walk.run state = .ok result final ∧
      model.Extends root nodes edges state.model final.model

namespace Redraws

theorem pure (result : α) : Redraws model root (Pure.pure result) result [] [] :=
  fun state drafts => ⟨state, rfl, .refl drafts⟩

theorem bind {walk : Walk α} {next : α → Walk β} {result : α} {result' : β}
    {nodes nodes' : List String} {edges edges' : List Edge}
    (first : Redraws model root walk result nodes edges)
    (second : Redraws model root (next result) result' nodes' edges') :
    Redraws model root (walk >>= next) result' (nodes ++ nodes') (edges ++ edges') := by
  intro state drafts
  rcases first state drafts with ⟨middle, run, early⟩
  rcases second middle early.drafts with ⟨final, run', late⟩
  refine ⟨final, ?_, early.trans late⟩
  rw [EStateM.run_bind, run]
  exact run'

end Redraws

/-! ### Single statements -/

/-- Mentioning a node writes it and then lists it as a member. -/
theorem extends_mention {nodes : List String} {id : String} {node : Node} {attrs : Attributes}
    (id_eq : node.id = id)
    (node_eq : node = { (state.model.nodes.get? id).getD { id } with
      attrs := Attributes.fill (((state.model.nodes.get? id).getD { id }).attrs.override attrs) ∅ })
    (written : model.Extends root nodes [] state.model
      { state.model with nodes := state.model.nodes.insert id node }) :
    model.Extends root nodes [] state.model (after (mention id attrs ∅ parent) state).model := by
  have put : { state.model with nodes := state.model.nodes.insert id node } =
      state.model.putNode node := by
    rw [Model.putNode, id_eq]
  rw [put, node_eq] at written
  cases parent with
  | none => exact written
  | some above =>
      have joined := written.trans (written.drafts.extends_addMember above id)
      rw [List.append_nil, List.append_nil] at joined
      exact joined

theorem redraws_node (wellFormed : model.WellFormed) {id : String}
    (known : id ∈ model.nodes.keys) {scope : Scope} (noDefaults : scope.node = ∅) :
    Redraws model root (statement options parent scope (model.restatedNode id)) scope [id] [] := by
  intro state drafts
  rcases (OrderedMap.mem_keys_iff _ _).mp known with ⟨node, isNode⟩
  have id_eq := wellFormed.node_id isNode
  refine ⟨after (mention id node.attrs ∅ parent) state, ?_, ?_⟩
  · rw [Model.restatedNode, Model.attrsAt, isNode, statement]
    simp only [Tree.name?, Attributes.ofAttrs_listed, noDefaults]
    rfl
  · apply extends_mention id_eq _ (drafts.extends_stated isNode)
    rcases node with ⟨nodeId, attrs⟩
    cases id_eq
    cases found : state.model.nodes.get? nodeId with
    | none => simp [Attributes.fill]
    | some old =>
        rcases (drafts.nodes found).2 with isSame | rfl
        · rw [isNode, Option.some_inj] at isSame
          subst isSame
          simp [Attributes.fill]
        · simp [Attributes.fill]

/-- A node that is new as an endpoint is written without attributes. -/
theorem extends_resolved (drafts : model.Drafts root state.model) {id : String}
    (known : id ∈ model.nodes.keys) (parent : Option String) :
    model.Extends root [] [] state.model (resolved ∅ parent state id).model := by
  rw [resolved]
  split
  · exact .refl drafts
  · next isNew =>
      have missing := (state.model.nodes.get?_eq_none_iff id).mpr isNew
      have written := drafts.extends_insert known (Or.inr ⟨rfl, isNew⟩)
      refine extends_mention rfl ?_ written
      rw [missing]
      rfl

theorem extends_createEdges (drafts : model.Drafts root state.model) (parent : Option String)
    (edges : List Edge) :
    model.Extends root [] edges state.model (after (createEdges parent edges) state).model := by
  have created := drafts.extends_addEdges edges
  cases parent with
  | none => exact created
  | some above =>
      let numbers := List.range' state.model.edges.length edges.length
      have owned := created.trans (created.drafts.extends_modify above
        (fun subgraph => { subgraph with edges := subgraph.edges ++ numbers }) fun _ _ => rfl)
      rw [List.append_nil, List.append_nil] at owned
      exact owned

theorem redraws_edge {edge : Edge}
    (ends : edge.tail ∈ model.nodes.keys ∧ edge.head ∈ model.nodes.keys) {scope : Scope}
    (noNodeDefaults : scope.node = ∅) (noEdgeDefaults : scope.edge = ∅) :
    Redraws model root (statement options parent scope (Model.restatedEdge edge)) scope []
      [edge] := by
  intro state drafts
  let nodes : List NodeId := [{ id := edge.tail }, { id := edge.head }]
  have run := @run_edgeStmt options parent state scope nodes edge.attrs.listed
  have edges_eq : chainEdges scope nodes edge.attrs.listed = [edge] := by
    rw [chainEdges, noEdgeDefaults, Attributes.ofAttrs_listed]
    rfl
  rw [edges_eq, noNodeDefaults] at run
  have first := extends_resolved drafts ends.1 parent
  have second := extends_resolved first.drafts ends.2 parent
  have created := extends_createEdges second.drafts parent [edge]
  exact ⟨_, run, (first.trans second).trans created⟩

/-- The statement of the attributes of a subgraph only changes the scope. -/
theorem statements_restatedAttrs (options : WalkOptions) (parent : Option String)
    (attrs : Attributes) :
    statements options parent ∅ (Model.restatedAttrs attrs) = pure { graph := attrs } := by
  rw [Model.restatedAttrs]
  split
  · next isEmpty =>
      rw [(OrderedMap.isEmpty_iff attrs).mp isEmpty]
      rfl
  · have set_eq : (∅ : Scope).set? "graph" (Attributes.ofAttrs attrs.listed) =
        some { graph := attrs } := by
      have written : (∅ : Scope).set? "graph" attrs = some { graph := .override ∅ attrs } := rfl
      rw [Attributes.ofAttrs_listed, written, OrderedMap.empty_override]
    rw [statements, statement, set_eq]
    rfl

theorem extends_enter (drafts : model.Drafts root state.model) (options : WalkOptions)
    (parent id : Option String) :
    model.Extends root [] [] state.model (after (enter options parent id) state).model := by
  rw [model_after_enter]
  dsimp only
  split
  · exact .refl drafts
  · next absent =>
      apply drafts.extends_graphs
      · rw [keys_plant, OrderedMap.mem_keys_insert]
        exact Or.inr drafts.listed
      · rcases (OrderedMap.mem_keys_iff _ _).mp drafts.listed with ⟨subgraph, found⟩
        let new : Subgraph := { key := entryKey options id state, id }
        rcases get?_plant_of_found parent new absent found with ⟨children, newFound⟩
        rw [newFound, found]
        rfl

/-- A subgraph is entered, its body is walked, and its attributes are settled. -/
theorem run_subgraph {key : String} {id : Option String} {children : List Tree}
    {scope inner : Scope} {walked : WalkState} (key_eq : entryKey options id state = key)
    (body : (statements options (some key) scope children).run
      (after (enter options parent id) state) = .ok inner walked) :
    (statement options parent scope (.subgraph id children)).run state =
      .ok scope (after (settle key inner.graph) walked) := by
  rw [statement, EStateM.run_bind, run_enter, key_eq]
  dsimp only
  rw [EStateM.run_bind, body]
  rfl

/-- A subgraph that is not called like the root leaves the root alone. -/
theorem redraws_subgraph {id : Option String} {children : List Tree} {inner : Scope}
    {nodes : List String} {edges : List Edge} (differs : id ≠ some root)
    (body : ∀ key,
      Redraws model root (statements options (some key) ∅ children) inner nodes edges) :
    Redraws model root (statement options parent ∅ (.subgraph id children)) ∅ nodes edges := by
  intro state drafts
  have key_ne : entryKey options id state ≠ root := by
    intro same
    cases id with
    | none =>
        have free := entryKey_none_free options state
        rw [same] at free
        exact free drafts.listed
    | some id => exact differs (congrArg some same)
  generalize key_eq : entryKey options id state = key at key_ne
  have entered := extends_enter drafts options parent id
  rcases body key _ entered.drafts with ⟨walked, run, extended⟩
  have settled := extended.drafts.extends_modify key
    (fun subgraph => { subgraph with attrs := subgraph.attrs.override inner.graph })
    fun same => absurd same key_ne
  refine ⟨after (settle key inner.graph) walked, run_subgraph key_eq run, ?_⟩
  have all := (entered.trans extended).trans settled
  rw [List.nil_append, List.nil_append, List.append_nil, List.append_nil] at all
  exact all

/-! ### Sequences of statements -/

theorem statements_append (scope : Scope) (first rest : List Tree) :
    statements options parent scope (first ++ rest) =
      statements options parent scope first >>= fun changed =>
        statements options parent changed rest := by
  induction first generalizing scope with
  | nil => simp only [List.nil_append, statements, pure_bind]
  | cons tree others ih => simp only [List.cons_append, statements, ih, bind_assoc]

theorem Redraws.append {scope middle final : Scope} {first rest : List Tree}
    {nodes nodes' : List String} {edges edges' : List Edge}
    (early : Redraws model root (statements options parent scope first) middle nodes edges)
    (late : Redraws model root (statements options parent middle rest) final nodes' edges') :
    Redraws model root (statements options parent scope (first ++ rest)) final
      (nodes ++ nodes') (edges ++ edges') := by
  rw [statements_append]
  exact early.bind late

theorem redraws_nodes (wellFormed : model.WellFormed) {scope : Scope} (noDefaults : scope.node = ∅)
    {ids : List String} (known : ∀ id ∈ ids, id ∈ model.nodes.keys) :
    Redraws model root (statements options parent scope (ids.map model.restatedNode)) scope ids
      [] := by
  induction ids with
  | nil => exact .pure scope
  | cons id rest ih =>
      have here : Redraws model root (statement options parent scope (model.restatedNode id)) scope
          [id] [] := redraws_node wellFormed (known id List.mem_cons_self) noDefaults
      rw [List.map_cons, statements]
      exact here.bind (ih fun other other_mem => known other (List.mem_cons_of_mem id other_mem))

theorem redraws_edges {scope : Scope} (noNodeDefaults : scope.node = ∅)
    (noEdgeDefaults : scope.edge = ∅) {edges : List Edge}
    (ends : ∀ edge ∈ edges, edge.tail ∈ model.nodes.keys ∧ edge.head ∈ model.nodes.keys) :
    Redraws model root (statements options parent scope (edges.map Model.restatedEdge)) scope []
      edges := by
  induction edges with
  | nil => exact .pure scope
  | cons edge rest ih =>
      have here : Redraws model root (statement options parent scope (Model.restatedEdge edge))
          scope [] [edge] :=
        redraws_edge (ends edge List.mem_cons_self) noNodeDefaults noEdgeDefaults
      rw [List.map_cons, statements]
      exact here.bind (ih fun other other_mem => ends other (List.mem_cons_of_mem edge other_mem))

theorem ends_of_mem_edgesAt (resolved : model.Resolved) {numbers : List Nat} {edge : Edge}
    (edge_mem : edge ∈ model.edgesAt numbers) :
    edge.tail ∈ model.nodes.keys ∧ edge.head ∈ model.nodes.keys := by
  rcases List.mem_filterMap.mp edge_mem with ⟨number, _, found⟩
  exact resolved.ends edge (List.mem_of_getElem? found)

theorem redraws_own (resolved : model.Resolved) {subgraph : Subgraph}
    (members : ∀ node ∈ subgraph.nodes, node ∈ model.nodes.keys) :
    Redraws model root (statements options parent ∅ (model.restatedOwn subgraph))
      { graph := subgraph.attrs } subgraph.nodes (model.edgesAt subgraph.edges) := by
  have nodes : Redraws model root
      (statements options parent ∅ (subgraph.nodes.map model.restatedNode)) ∅ subgraph.nodes [] :=
    redraws_nodes resolved.toWellFormed rfl members
  have edges : Redraws model root
      (statements options parent ∅ ((model.edgesAt subgraph.edges).map Model.restatedEdge)) ∅ []
      (model.edgesAt subgraph.edges) :=
    redraws_edges rfl rfl fun edge edge_mem => ends_of_mem_edgesAt resolved edge_mem
  have attrs : Redraws model root
      (statements options parent ∅ (Model.restatedAttrs subgraph.attrs))
      { graph := subgraph.attrs } [] [] := by
    rw [statements_restatedAttrs]
    exact .pure _
  have all := (nodes.append edges).append attrs
  rw [List.append_nil, List.append_nil, List.nil_append, List.append_nil] at all
  exact all

mutual

/-- The body of a subgraph states the members and edges of all subgraphs in the hierarchy. -/
theorem redraws_body (resolved : model.Resolved) : ∀ (hierarchy : Hierarchy),
    (∀ subgraph ∈ hierarchy.walk, ∀ node ∈ subgraph.nodes, node ∈ model.nodes.keys) →
    (∀ subgraph ∈ hierarchy.walk.tail, subgraph.id ≠ some root) → ∀ parent : Option String,
    Redraws model root (statements options parent ∅ (model.restatedBody hierarchy))
      { graph := hierarchy.top.attrs } (hierarchy.restated.flatMap Subgraph.nodes)
      (model.edgesAt (hierarchy.restated.flatMap Subgraph.edges))
  | .scope top children, members, differ, parent => by
      rw [Hierarchy.walk] at members differ
      have below := redraws_subgraphs resolved children
        (fun subgraph subgraph_mem => members subgraph (List.mem_cons_of_mem top subgraph_mem))
        differ parent
      simp only [Model.restatedBody, Hierarchy.restated, Hierarchy.top, List.flatMap_append,
        List.flatMap_singleton, Model.edgesAt, List.filterMap_append]
      exact below.append (redraws_own resolved (members top List.mem_cons_self))

theorem redraws_subgraphs (resolved : model.Resolved) : ∀ (hierarchies : List Hierarchy),
    (∀ subgraph ∈ Hierarchy.walkAll hierarchies, ∀ node ∈ subgraph.nodes,
      node ∈ model.nodes.keys) →
    (∀ subgraph ∈ Hierarchy.walkAll hierarchies, subgraph.id ≠ some root) →
    ∀ parent : Option String,
    Redraws model root (statements options parent ∅ (model.restatedSubgraphs hierarchies)) ∅
      ((Hierarchy.restatedAll hierarchies).flatMap Subgraph.nodes)
      (model.edgesAt ((Hierarchy.restatedAll hierarchies).flatMap Subgraph.edges))
  | [], _, _, _ => .pure ∅
  | hierarchy :: rest, members, differ, parent => by
      rw [Hierarchy.walkAll] at members differ
      have topDiffers := differ hierarchy.top (List.mem_append_left _ hierarchy.top_mem_walk)
      have body (key : String) := redraws_body resolved hierarchy
        (fun subgraph subgraph_mem => members subgraph (List.mem_append_left _ subgraph_mem))
        (fun subgraph subgraph_mem =>
          differ subgraph (List.mem_append_left _ (List.mem_of_mem_tail subgraph_mem)))
        (some key)
      have later := redraws_subgraphs resolved rest
        (fun subgraph subgraph_mem => members subgraph (List.mem_append_right _ subgraph_mem))
        (fun subgraph subgraph_mem => differ subgraph (List.mem_append_right _ subgraph_mem)) parent
      simp only [Model.restatedSubgraphs, Hierarchy.restatedAll, List.flatMap_append,
        Model.edgesAt, List.filterMap_append, statements]
      exact (redraws_subgraph topDiffers body).bind later

end

/-! ### The whole tree -/

theorem redraws_listed (resolved : model.Resolved)
    (named : Named options { state with model }) (parent : Option String) :
    Redraws model (entryKey options model.id { model := ∅ })
      (statements options parent ∅ model.restatedRoot) { graph := model.rootAttrs }
      (model.restatedListed.flatMap Subgraph.nodes)
      (model.edgesAt (model.restatedListed.flatMap Subgraph.edges)) := by
  rw [Model.restatedRoot, Model.restatedListed, Model.rootAttrs]
  cases root_eq : model.root with
  | none => exact .pure ∅
  | some root =>
      rcases resolved.root_id root_eq with ⟨top, topFound, id_eq⟩
      have nested := resolved.nested
      have hierarchy_eq := nested.hierarchy?_eq topFound
      let hierarchy := Hierarchy.scope top (top.children.filterMap model.graphs.hierarchy?)
      have walk_eq : hierarchy.walk = model.graphs.descendants root := by
        rw [Forest.descendants, hierarchy_eq]
      have listed {subgraph : Subgraph} (subgraph_mem : subgraph ∈ hierarchy.walk) :=
        (nested.mem_descendants_iff topFound subgraph).mp (walk_eq ▸ subgraph_mem)
      have nodup := nested.nodup_keys_descendants topFound
      rw [← walk_eq, Hierarchy.walk, List.map_cons, List.nodup_cons] at nodup
      simp only [Option.bind_some, hierarchy_eq, topFound]
      apply redraws_body resolved hierarchy
      · intro subgraph subgraph_mem
        exact resolved.members (listed subgraph_mem).1
      · intro subgraph subgraph_mem
        rcases listed (List.mem_of_mem_tail subgraph_mem) with ⟨found, encloses⟩
        rw [id_eq]
        apply named.id_below_ne nested topFound found encloses
        -- The hierarchy lists no key twice, and the root comes first.
        intro same
        apply nodup.1
        rw [nested.key_eq topFound, same]
        exact List.mem_map_of_mem subgraph_mem

theorem redraws_restatement (resolved : model.Resolved)
    (named : Named options { state with model }) (parent : Option String) :
    Redraws model (entryKey options model.id { model := ∅ })
      (statements options parent ∅ (model.restatedRoot ++
        model.unlistedNodes.map model.restatedNode ++
          model.unlistedEdges.map Model.restatedEdge))
      { graph := model.rootAttrs } model.restatedNodes model.restatedEdges := by
  have listed := redraws_listed resolved named parent
  have unlistedNodes : Redraws model (entryKey options model.id { model := ∅ })
      (statements options parent { graph := model.rootAttrs }
        (model.unlistedNodes.map model.restatedNode)) { graph := model.rootAttrs }
      model.unlistedNodes [] :=
    redraws_nodes resolved.toWellFormed rfl fun id id_mem => List.mem_of_mem_filter id_mem
  have unlistedEdges : Redraws model (entryKey options model.id { model := ∅ })
      (statements options parent { graph := model.rootAttrs }
        (model.unlistedEdges.map Model.restatedEdge)) { graph := model.rootAttrs }
      [] model.unlistedEdges :=
    redraws_edges rfl rfl fun edge edge_mem => ends_of_mem_edgesAt resolved edge_mem
  have all := (listed.append unlistedNodes).append unlistedEdges
  rw [List.append_nil, List.append_nil] at all
  exact all

/-- The draft with which a walk of the regenerated tree begins: there is the root and nothing
else. -/
theorem promoted_entered (key kind : String) (id : Option String) (isStrict : Bool) :
    let graphs := OrderedMap.modify (plant ∅ none { key, id }) key
      fun subgraph => { subgraph with kind }
    promoted key kind isStrict { graphs := plant ∅ none { key, id } } =
      { graphs, root := some key, id, kind, isStrict } := by
  intro graphs
  have found : graphs.get? key = some { key, id, kind } := by
    rw [OrderedMap.get?_modify, if_pos rfl, plant, OrderedMap.get?_insert, if_pos rfl]
    rfl
  change Model.setRoot { graphs } key isStrict = _
  rw [Model.setRoot, if_neg (by simp [Model.hasOtherRoot])]
  simp only [found, Bool.false_or]

theorem model_of_entered {key : String} {id : Option String}
    (key_eq : entryKey options id { model := ∅ } = key) :
    (after (enter options none id) { model := ∅ }).model =
      { graphs := plant ∅ none { key, id } } := by
  rw [model_after_enter, key_eq]
  exact if_neg List.not_mem_nil

theorem model_of_promoted (kind : String) {key : String} {id : Option String} (isStrict : Bool)
    (key_eq : entryKey options id { model := ∅ } = key) :
    (after (promote key kind isStrict) (after (enter options none id) { model := ∅ })).model =
      { graphs := (plant ∅ none { key, id }).modify key fun subgraph => { subgraph with kind },
        root := some key, id, kind, isStrict } := by
  rw [model_after_promote, model_of_entered key_eq]
  exact promoted_entered key kind id isStrict

theorem steps_promoted (kind : String) {key : String} {id : Option String} (isStrict : Bool)
    (key_eq : entryKey options id { model := ∅ } = key) :
    Steps options { model := ∅ }
      (after (promote key kind isStrict) (after (enter options none id) { model := ∅ })) := by
  have outside : Enclosed none (∅ : Model) := fun _ handle_mem => nomatch handle_mem
  have entering : Step options { model := ∅ } (after (enter options none id) { model := ∅ }) :=
    .enter none id outside
  apply Relation.ReflTransGen.tail (.single entering)
  apply Step.promote key kind isStrict
  rw [model_of_entered key_eq]
  exact List.mem_cons_self

/-- A graph at the top level is entered and promoted, its body is walked, and its attributes are
settled. -/
theorem run_graph {kind key : String} {id : Option String} {isStrict : Bool}
    {children : List Tree} {scope inner : Scope} {walked : WalkState}
    (key_eq : entryKey options id state = key)
    (body : (statements options (some key) scope children).run
      (after (promote key kind isStrict) (after (enter options none id) state)) =
        .ok inner walked) :
    (statement options none scope (.graph kind id isStrict children)).run state =
      .ok scope (after (settle key inner.graph) walked) := by
  rw [statement, EStateM.run_bind, run_enter, key_eq]
  dsimp only
  rw [if_pos Option.isNone_none, EStateM.run_bind, run_promote]
  dsimp only
  rw [EStateM.run_bind, body]
  rfl

/-- Walking the regenerated tree goes through and extends the draft that has the root only. -/
theorem run_restatement (resolved : model.Resolved) (named : Named options { state with model }) :
    ∃ final key subgraph,
      (document options model.restatement).run { model := ∅ } = .ok ∅ final ∧
      model.Drafts key final.model ∧
      (∀ id ∈ model.nodes.keys, final.model.nodes.get? id = model.nodes.get? id) ∧
      final.model.edges = model.restatedEdges ∧
      final.model.heading = (some key, model.id, model.kind, model.isStrict, []) ∧
      final.model.graphs.get? key = some subgraph ∧ subgraph.attrs = model.rootAttrs := by
  generalize key_eq : entryKey options model.id { model := ∅ } = key
  let entered := after (enter options none model.id) { model := ∅ }
  let first := after (promote key model.kind model.isStrict) entered
  have first_eq : first.model = _ := model_of_promoted model.kind model.isStrict key_eq
  have start : first.model.graphs.get? key = some { key, id := model.id, kind := model.kind } := by
    rw [first_eq]
    simp only [OrderedMap.get?_modify, ↓reduceIte, plant, OrderedMap.get?_insert, Option.map_some]
  have drafts : model.Drafts key first.model := by
    refine ⟨?_, OrderedMap.mem_keys_of_get? start⟩
    intro id node found
    rw [first_eq] at found
    cases found
  have redrawn := redraws_restatement resolved named (some key)
  rw [key_eq] at redrawn
  rcases redrawn first drafts with ⟨walked, run, extended⟩
  rcases (OrderedMap.mem_keys_iff _ _).mp extended.drafts.listed with ⟨subgraph, found⟩
  have settled := OrderedMap.get?_modify walked.model.graphs key
    (fun subgraph => { subgraph with attrs := subgraph.attrs.override model.rootAttrs }) key
  rw [if_pos rfl, found, Option.map_some] at settled
  refine ⟨after (settle key model.rootAttrs) walked, key, _, ?_, ?_, ?_, ?_, ?_, settled, ?_⟩
  · exact run_graph key_eq run
  · refine ⟨extended.drafts.nodes, ?_⟩
    exact OrderedMap.mem_keys_of_get? settled
  · intro id id_mem
    rcases extended.stated id ((resolved.mem_restatedNodes_iff id).mpr id_mem) with
      ⟨node, isNode, written⟩
    exact written.trans isNode.symm
  · have edges_eq := extended.edges_eq
    rw [first_eq] at edges_eq
    exact edges_eq
  · have heading_eq := extended.heading_eq
    rw [first_eq] at heading_eq
    exact heading_eq
  · have attrs_eq := extended.attrs_eq
    rw [Model.attrsAt, Model.attrsAt, found, start] at attrs_eq
    have empty : subgraph.attrs = ∅ := attrs_eq
    dsimp only
    rw [empty, OrderedMap.empty_override]

end Walk

namespace Model

theorem Drafts.get?_nodes_eq {model draft : Model} {root : String}
    (drafts : model.Drafts root draft)
    (complete : ∀ id ∈ model.nodes.keys, draft.nodes.get? id = model.nodes.get? id)
    (id : String) : draft.nodes.get? id = model.nodes.get? id := by
  by_cases known : id ∈ model.nodes.keys
  · exact complete id known
  · rw [(model.nodes.get?_eq_none_iff id).mpr known]
    cases found : draft.nodes.get? id with
    | none => rfl
    | some node => exact absurd (drafts.nodes found).1 known

/-- Models whose edges are the same up to order agree on the edges between any two nodes. -/
theorem getEdges_perm {first second : Model} (sameEdges : second.edges.Perm first.edges)
    (tail head : String) :
    ((second.getEdges tail head).map Edge.attrs).Perm
      ((first.getEdges tail head).map Edge.attrs) := by
  rw [getEdges_eq, getEdges_eq]
  exact (sameEdges.filter _).map Edge.attrs

/-- A lenient walk of a tree goes through, a tree can be regenerated from the model, and walking
that tree builds a second model with the same content: the same nodes with the same attributes, the
same edges up to their order, the same heading and the same attributes of the root. Nothing in the
regenerated tree is skipped. -/
theorem rewalk_eq {options : WalkOptions} (lenient : options.isStrict = false) {tree : Tree}
    (namesNodes : tree.namesNodes) :
    let first := Model.walk options .plain tree ∅
    first.failure = none ∧
      ∃ regenerated, first.model.toTree Geometry.plain.encode = .ok regenerated ∧
        let second := Model.walk options .plain regenerated ∅
        second.failure = none ∧
          (∀ id, second.model.nodes.get? id = first.model.nodes.get? id) ∧
          (∀ tail head, ((second.model.getEdges tail head).map Edge.attrs).Perm
            ((first.model.getEdges tail head).map Edge.attrs)) ∧
          second.model.id = first.model.id ∧
          second.model.kind = first.model.kind ∧
          second.model.isStrict = first.model.isStrict ∧
          (∀ root top, first.model.root = some root → first.model.graphs.get? root = some top →
            ∃ root' top', second.model.root = some root' ∧
              second.model.graphs.get? root' = some top' ∧ top'.attrs = top.attrs) ∧
          second.model.diagnostics = [] := by
  intro first
  rcases Model.walkPlain_steps options tree ∅ with ⟨state, steps, model_eq⟩
  have resolved := steps.resolved resolved_empty
  have named := steps.named Walk.named_empty wellFormed_empty
  rcases Walk.run_restatement resolved named with
    ⟨final, key, top', run, drafts, complete, edges_eq, heading_eq, found, attrs_eq⟩
  have first_eq : first.model = state.model := model_eq
  have second_eq : Model.walk options .plain state.model.restatement ∅ =
      ⟨final.model, final.events, none⟩ := by
    change walkPlain options state.model.restatement ∅ = _
    rw [walkPlain, run]
  refine ⟨walkPlain_completes lenient namesNodes ∅, state.model.restatement, ?_, ?_⟩
  · rw [first_eq]
    exact state.model.toTree_plain
  · rw [first_eq, second_eq]
    simp only [heading, Prod.mk.injEq] at heading_eq
    rcases heading_eq with ⟨root_eq, id_eq, kind_eq, isStrict_eq, diagnostics_eq⟩
    refine ⟨rfl, drafts.get?_nodes_eq complete, ?_, id_eq, kind_eq, isStrict_eq, ?_,
      diagnostics_eq⟩
    · apply getEdges_perm
      rw [edges_eq]
      exact resolved.ownsEdges.restatedEdges_perm
    · intro root top isRoot topFound
      refine ⟨key, top', root_eq, found, ?_⟩
      rw [attrs_eq, rootAttrs, isRoot, Option.bind_some, topFound]
      rfl

/-- An edge outside of any graph to a subgraph without id, whose generated key a subgraph of the
root then declares. -/
theorem rewalk_eq_of_generated_key :
    let tree := Tree.list [
      .edgeStmt [.nodeId { id := "a", port := "p" },
        .subgraph none [.nodeStmt (.nodeId { id := "b" }) [⟨"label", .null⟩]]] [],
      .graph "digraph" none true [
        .subgraph "__anon1" [.nodeStmt (.nodeId { id := "c" }) []],
        .attrStmt "graph" [⟨"rank", .text "same"⟩],
        .edgeStmt [.nodeId { id := "c" }, .nodeId { id := "b" }] []]]
    let first := Model.walk {} .plain tree ∅
    first.model.graphs.keys = ["__anon1", "__anon2"] ∧ first.model.root = "__anon2" ∧
      ∃ regenerated, first.model.toTree Geometry.plain.encode = .ok regenerated ∧
        let second := Model.walk {} .plain regenerated ∅
        second.failure = none ∧ second.model.diagnostics = [] ∧
          ∀ id, second.model.nodes.get? id = first.model.nodes.get? id := by
  intro tree first
  have lenient : WalkOptions.isStrict {} = false := rfl
  have namesNodes : tree.namesNodes = true := rfl
  rcases rewalk_eq lenient namesNodes with
    ⟨_, regenerated, regenerated_eq, completes, sameNodes, _, _, _, _, _, noDiagnostics⟩
  exact ⟨rfl, rfl, regenerated, regenerated_eq, completes, noDiagnostics, sameNodes⟩

end Model

end DotLang
