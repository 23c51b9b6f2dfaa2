import DotLang.Proofs.Walk.Consistency

/-!
# What attributes cannot influence

A veil hides the attributes of some nodes and subgraphs and of all edges. Each
operation of a walk acts on what the veil leaves to see without looking behind
it: two states that look the same still do so after the same operation. In
particular the attributes of a mention count only for the node that is mentioned,
and the attributes that are settled only for their subgraph.
-/

namespace DotLang

/-- Which nodes and subgraphs have hidden attributes. -/
structure Veil where
  node : String → Bool
  scope : String → Bool

def Edge.bare (edge : Edge) : Edge :=
  { edge with attrs := ∅ }

/-- A model without the attributes of its nodes, edges and subgraphs. -/
def Model.bare (model : Model) : Model :=
  { model with
    nodes := model.nodes.mapValues fun _ node => { node with attrs := ∅ }
    edges := model.edges.map Edge.bare
    graphs := model.graphs.mapValues fun _ subgraph => { subgraph with attrs := ∅ } }

namespace Veil

def showNode (veil : Veil) (id : String) (node : Node) : Node :=
  if veil.node id then { node with attrs := ∅ } else node

def showScope (veil : Veil) (key : String) (subgraph : Subgraph) : Subgraph :=
  if veil.scope key then { subgraph with attrs := ∅ } else subgraph

def showGraphs (veil : Veil) (graphs : Forest) : Forest :=
  graphs.mapValues veil.showScope

/-- What the veil leaves to see of a model. -/
def showModel (veil : Veil) (model : Model) : Model :=
  { model with
    nodes := model.nodes.mapValues veil.showNode
    edges := model.edges.map Edge.bare
    graphs := veil.showGraphs model.graphs }

def showState (veil : Veil) (state : WalkState) : WalkState :=
  { state with model := veil.showModel state.model }

variable (veil : Veil)

@[simp]
theorem id_showNode (id : String) (node : Node) : (veil.showNode id node).id = node.id := by
  rw [showNode]
  split <;> rfl

@[simp]
theorem key_showScope (key : String) (subgraph : Subgraph) :
    (veil.showScope key subgraph).key = subgraph.key := by
  rw [showScope]
  split <;> rfl

@[simp]
theorem children_showScope (key : String) (subgraph : Subgraph) :
    (veil.showScope key subgraph).children = subgraph.children := by
  rw [showScope]
  split <;> rfl

@[simp]
theorem nodes_showScope (key : String) (subgraph : Subgraph) :
    (veil.showScope key subgraph).nodes = subgraph.nodes := by
  rw [showScope]
  split <;> rfl

@[simp]
theorem id_showScope (key : String) (subgraph : Subgraph) :
    (veil.showScope key subgraph).id = subgraph.id := by
  rw [showScope]
  split <;> rfl

@[simp]
theorem kind_showScope (key : String) (subgraph : Subgraph) :
    (veil.showScope key subgraph).kind = subgraph.kind := by
  rw [showScope]
  split <;> rfl

/-- A change that does not touch the attributes shows as itself. -/
theorem showScope_change {change : Subgraph → Subgraph} (key : String)
    (keeps : ∀ subgraph attrs,
      change { subgraph with attrs } = { change subgraph with attrs := attrs })
    (subgraph : Subgraph) :
    veil.showScope key (change subgraph) = change (veil.showScope key subgraph) := by
  rw [showScope, showScope]
  split
  · exact (keeps subgraph ∅).symm
  · rfl

@[simp]
theorem get?_showGraphs (graphs : Forest) (handle : String) :
    (veil.showGraphs graphs).get? handle = (graphs.get? handle).map (veil.showScope handle) :=
  OrderedMap.get?_mapValues _ _ _

theorem showGraphs_modify (graphs : Forest) (key : String) {change : Subgraph → Subgraph}
    (keeps : ∀ subgraph attrs,
      change { subgraph with attrs } = { change subgraph with attrs := attrs }) :
    veil.showGraphs (graphs.modify key change) = (veil.showGraphs graphs).modify key change :=
  OrderedMap.mapValues_modify (veil.showScope_change key keeps)

@[simp]
theorem keyOf?_showGraphs (graphs : Forest) (handle : String) :
    (veil.showGraphs graphs).keyOf? handle = graphs.keyOf? handle := by
  rw [Forest.keyOf?, Forest.keyOf?, get?_showGraphs, Option.map_map]
  exact congrArg (Option.map · _) (funext (veil.key_showScope handle))

theorem showGraphs_plant (graphs : Forest) (parent : Option String) (key : String)
    (id : Option String) :
    veil.showGraphs (Walk.plant graphs parent { key, id }) =
      Walk.plant (veil.showGraphs graphs) parent { key, id } := by
  have bare : veil.showScope key { key, id } = { key, id } := by
    rw [showScope]
    split <;> rfl
  have inserted : veil.showGraphs (graphs.insert key { key, id }) =
      (veil.showGraphs graphs).insert key { key, id } := by
    rw [showGraphs, OrderedMap.mapValues_insert, bare]
    rfl
  cases parent with
  | none => exact inserted
  | some above =>
      have enlisted (children : List String) :
          (veil.showGraphs (graphs.insert key { key, id })).enlist children key =
            Forest.enlist (graphs.insert key { key, id }) children key := by
        simp only [Forest.enlist, keyOf?_showGraphs]
      simp only [Walk.plant, Forest.adopt]
      rw [showGraphs_modify _ _ _ fun _ _ => rfl, showGraphs_modify _ _ _ fun _ _ => rfl,
        ← inserted]
      simp only [enlisted]

@[simp]
theorem size_showGraphs (graphs : Forest) : (veil.showGraphs graphs).size = graphs.size :=
  List.length_map _

theorem allNodes_hierarchyTo (graphs : Forest) (depth : Nat) (key : String) (top : Subgraph) :
    ((veil.showGraphs graphs).hierarchyTo depth (veil.showScope key top)).allNodes =
      (graphs.hierarchyTo depth top).allNodes := by
  induction depth generalizing key top with
  | zero => simp only [Forest.hierarchyTo, Hierarchy.allNodes, nodes_showScope]
  | succ depth ih =>
      simp only [Forest.hierarchyTo, Hierarchy.allNodes, nodes_showScope, children_showScope,
        get?_showGraphs, Option.map_map]
      congr 2
      induction top.children with
      | nil => rfl
      | cons child rest below =>
          cases found : graphs.get? child with
          | none => simpa [List.filterMap_cons, found] using below
          | some inner => simp [found, Hierarchy.allNodesOf, ih, below]

@[simp]
theorem allNodes_showGraphs (graphs : Forest) (handle : String) :
    (veil.showGraphs graphs).allNodes handle = graphs.allNodes handle := by
  rw [Forest.allNodes, Forest.allNodes, Forest.hierarchy?, Forest.hierarchy?, get?_showGraphs,
    size_showGraphs]
  cases graphs.get? handle with
  | none => rfl
  | some top => exact veil.allNodes_hierarchyTo graphs graphs.size handle top

/-- Whether a veil hides all that another one hides. -/
structure Covers (veil inner : Veil) : Prop where
  node : ∀ id, inner.node id = true → veil.node id = true
  scope : ∀ key, inner.scope key = true → veil.scope key = true

theorem Covers.showState {veil inner : Veil} (covers : veil.Covers inner) (state : WalkState) :
    veil.showState (inner.showState state) = veil.showState state := by
  have nodes (id : String) (node : Node) :
      veil.showNode id (inner.showNode id node) = veil.showNode id node := by
    by_cases hidden : inner.node id = true
    · simp only [showNode, hidden, covers.node id hidden, if_true]
    · simp only [showNode, hidden, if_false, Bool.false_eq_true]
  have scopes (key : String) (subgraph : Subgraph) :
      veil.showScope key (inner.showScope key subgraph) = veil.showScope key subgraph := by
    by_cases hidden : inner.scope key = true
    · simp only [showScope, hidden, covers.scope key hidden, if_true]
    · simp only [showScope, hidden, if_false, Bool.false_eq_true]
  simp only [Veil.showState, showModel, showGraphs, OrderedMap.mapValues_mapValues, nodes, scopes,
    List.map_map]
  rfl

/-! ### Operations of a walk -/

variable {options : WalkOptions}

theorem entryNumber_showState (id : Option String) (state : WalkState) :
    Walk.entryNumber options id (veil.showState state) = Walk.entryNumber options id state := by
  have contains_eq (key : String) :
      (veil.showGraphs state.model.graphs).contains key = state.model.graphs.contains key := by
    rw [OrderedMap.contains, OrderedMap.contains, get?_showGraphs, Option.isSome_map]
  cases id with
  | some id => rfl
  | none =>
      change nextAnonymousNumber _ (veil.showGraphs state.model.graphs) _ = _
      simp only [nextAnonymousNumber, contains_eq, size_showGraphs]
      rfl

theorem entryKey_showState (id : Option String) (state : WalkState) :
    Walk.entryKey options id (veil.showState state) = Walk.entryKey options id state := by
  rw [Walk.entryKey, entryNumber_showState, Walk.entryKey]

theorem showState_after_enter (parent id : Option String) (state : WalkState) :
    veil.showState (Walk.after (Walk.enter options parent id) state) =
      Walk.after (Walk.enter options parent id) (veil.showState state) := by
  have contains_eq (key : String) : (veil.showState state).model.graphs.contains key =
      state.model.graphs.contains key := by
    change (veil.showGraphs state.model.graphs).contains key = _
    rw [OrderedMap.contains, OrderedMap.contains, get?_showGraphs, Option.isSome_map]
  simp only [Walk.after, Walk.run_enter_eq, entryKey_showState, entryNumber_showState, contains_eq]
  split
  · rfl
  · simp only [showState, showModel, showGraphs_plant]

theorem showModel_setRoot (model : Model) (key : String) (isStrict : Bool) :
    veil.showModel (model.setRoot key isStrict) = (veil.showModel model).setRoot key isStrict := by
  have sameRoot : (veil.showModel model).hasOtherRoot key = model.hasOtherRoot key := rfl
  have found_eq : (veil.showModel model).graphs.get? key =
      (model.graphs.get? key).map (veil.showScope key) :=
    veil.get?_showGraphs model.graphs key
  rw [Model.setRoot, Model.setRoot, sameRoot, found_eq]
  split
  · rfl
  · cases model.graphs.get? key with
    | none => rfl
    | some subgraph => simp only [Option.map_some, showModel, id_showScope, kind_showScope]

theorem showState_after_promote (key kind : String) (isStrict : Bool) (state : WalkState) :
    veil.showState (Walk.after (Walk.promote key kind isStrict) state) =
      Walk.after (Walk.promote key kind isStrict) (veil.showState state) := by
  have retitled : veil.showGraphs (state.model.graphs.modify key fun subgraph =>
      { subgraph with kind }) =
      (veil.showGraphs state.model.graphs).modify key fun subgraph => { subgraph with kind } :=
    veil.showGraphs_modify _ key fun _ _ => rfl
  have promoted_eq : veil.showModel (Walk.promoted key kind isStrict state.model) =
      Walk.promoted key kind isStrict (veil.showModel state.model) := by
    rw [Walk.promoted, showModel_setRoot, Walk.promoted]
    congr 1
    exact congrArg (fun graphs => { veil.showModel state.model with graphs }) retitled
  simp only [Walk.after, Walk.run_promote_eq, showState, promoted_eq]
  rfl

/-- What is settled behind the veil does not show. -/
theorem showState_after_settle_of_hidden {key : String} (hidden : veil.scope key = true)
    (attrs : Attributes) (state : WalkState) :
    veil.showState (Walk.after (Walk.settle key attrs) state) = veil.showState state := by
  have graphs_eq : veil.showGraphs (state.model.graphs.modify key fun subgraph =>
      { subgraph with attrs := subgraph.attrs.override attrs }) =
      veil.showGraphs state.model.graphs := by
    have same (subgraph : Subgraph) : veil.showScope key
        { subgraph with attrs := subgraph.attrs.override attrs } =
        veil.showScope key subgraph := by
      rw [showScope, if_pos hidden, showScope, if_pos hidden]
    calc
      _ = (veil.showGraphs state.model.graphs).modify key fun subgraph => subgraph :=
        OrderedMap.mapValues_modify same
      _ = _ := OrderedMap.modify_eq_self fun _ => rfl
  exact congrArg (fun graphs => { veil.showState state with
    model := { veil.showModel state.model with graphs } }) graphs_eq

theorem showState_after_settle_of_shown {key : String} (shown : veil.scope key = false)
    (attrs : Attributes) (state : WalkState) :
    veil.showState (Walk.after (Walk.settle key attrs) state) =
      Walk.after (Walk.settle key attrs) (veil.showState state) := by
  have graphs_eq : veil.showGraphs (state.model.graphs.modify key fun subgraph =>
      { subgraph with attrs := subgraph.attrs.override attrs }) =
      (veil.showGraphs state.model.graphs).modify key fun subgraph =>
        { subgraph with attrs := subgraph.attrs.override attrs } := by
    apply OrderedMap.mapValues_modify
    intro subgraph
    simp only [showScope, shown, Bool.false_eq_true, if_false]
  exact congrArg (fun graphs => { veil.showState state with
    model := { veil.showModel state.model with graphs } }) graphs_eq

theorem showModel_putNode (model : Model) (node : Node) :
    veil.showModel (model.putNode node) =
      (veil.showModel model).putNode (veil.showNode node.id node) := by
  simp only [Model.putNode, showModel, OrderedMap.mapValues_insert, id_showNode]

theorem showModel_addMember (model : Model) (key node : String) :
    veil.showModel (model.addMember key node) = (veil.showModel model).addMember key node := by
  have keeps (subgraph : Subgraph) (attrs : Attributes) :
      Subgraph.addNode { subgraph with attrs } node =
        { subgraph.addNode node with attrs := attrs } := by
    rw [Subgraph.addNode, Subgraph.addNode]
    split <;> rfl
  have graphs_eq : veil.showGraphs (model.graphs.modify key fun subgraph => subgraph.addNode node) =
      (veil.showGraphs model.graphs).modify key fun subgraph => subgraph.addNode node :=
    veil.showGraphs_modify model.graphs key keeps
  exact congrArg (fun graphs => { veil.showModel model with graphs }) graphs_eq

/-- The attributes of a mention count for the node that is mentioned only. -/
theorem showState_after_mention (id : String) (attrs defaults : Attributes)
    (parent : Option String) {state : WalkState} (wellFormed : state.model.WellFormed) :
    veil.showState (Walk.after (Walk.mention id attrs defaults parent) state) =
      Walk.after (Walk.mention id (if veil.node id then ∅ else attrs)
        (if veil.node id then ∅ else defaults) parent) (veil.showState state) := by
  let node := (state.model.nodes.get? id).getD { id }
  have id_eq : node.id = id := by
    cases found : state.model.nodes.get? id with
    | none => simp only [node, found, Option.getD_none]
    | some old => simpa only [node, found, Option.getD_some] using wellFormed.node_id found
  have node_eq : ((veil.showState state).model.nodes.get? id).getD { id } =
      veil.showNode id node := by
    change ((state.model.nodes.mapValues veil.showNode).get? id).getD { id } = _
    rw [OrderedMap.get?_mapValues]
    cases found : state.model.nodes.get? id with
    | none => simp only [node, found, showNode, Option.map_none, Option.getD_none, ite_self]
    | some old => simp only [node, found, Option.map_some, Option.getD_some]
  let shown := ((veil.showState state).model.nodes.get? id).getD { id }
  have put_eq : veil.showModel (state.model.putNode
      { node with attrs := Attributes.fill (node.attrs.override attrs) defaults }) =
      (veil.showModel state.model).putNode { shown with
        attrs := Attributes.fill (shown.attrs.override (if veil.node id then ∅ else attrs))
          (if veil.node id then ∅ else defaults) } := by
    have shown_eq : shown = veil.showNode id node := node_eq
    rw [showModel_putNode, shown_eq, showNode, showNode]
    by_cases hidden : veil.node id = true
    · simp only [id_eq, if_pos hidden]
      rfl
    · simp only [id_eq, if_neg hidden]
  cases parent with
  | none => exact congrArg (fun model => { veil.showState state with model }) put_eq
  | some key =>
      have added := veil.showModel_addMember (state.model.putNode
        { node with attrs := Attributes.fill (node.attrs.override attrs) defaults }) key id
      rw [put_eq] at added
      exact congrArg (fun model => { veil.showState state with model }) added

theorem showState_after_mention_eq {id : String} {attrs defaults attrs' defaults' : Attributes}
    (same : veil.node id ∨ attrs = attrs' ∧ defaults = defaults') (parent : Option String)
    {state state' : WalkState} (wellFormed : state.model.WellFormed)
    (wellFormed' : state'.model.WellFormed)
    (looks : veil.showState state' = veil.showState state) :
    veil.showState (Walk.after (Walk.mention id attrs' defaults' parent) state') =
      veil.showState (Walk.after (Walk.mention id attrs defaults parent) state) := by
  rw [veil.showState_after_mention id attrs' defaults' parent wellFormed', looks,
    veil.showState_after_mention id attrs defaults parent wellFormed]
  rcases same with hidden | ⟨rfl, rfl⟩
  · rw [if_pos hidden, if_pos hidden, if_pos hidden, if_pos hidden]
  · rfl

theorem showState_after_createEdges (parent : Option String) (edges : List Edge)
    (state : WalkState) :
    veil.showState (Walk.after (Walk.createEdges parent edges) state) =
      Walk.after (Walk.createEdges parent (edges.map Edge.bare))
        (veil.showState state) := by
  have added : veil.showModel (state.model.addEdges edges) =
      (veil.showModel state.model).addEdges (edges.map Edge.bare) := by
    simp only [Model.addEdges, showModel, List.map_append]
  cases parent with
  | none => exact congrArg (fun model => { veil.showState state with model }) added
  | some key =>
      let numbers := List.range' state.model.edges.length edges.length
      have graphs_eq : veil.showGraphs (state.model.graphs.modify key fun subgraph =>
          { subgraph with edges := subgraph.edges ++ numbers }) =
          (veil.showGraphs state.model.graphs).modify key fun subgraph =>
            { subgraph with edges := subgraph.edges ++ numbers } :=
        veil.showGraphs_modify _ key fun _ _ => rfl
      let shown := edges.map Edge.bare
      have numbers_eq :
          List.range' (veil.showModel state.model).edges.length shown.length = numbers := by
        simp only [showModel, shown, numbers, List.length_map]
      let listed (numbers : List Nat) : Model :=
        { (veil.showModel state.model).addEdges shown with
          graphs := (veil.showGraphs state.model.graphs).modify key fun subgraph =>
            { subgraph with edges := subgraph.edges ++ numbers } }
      change _ = { veil.showState state with
        model := listed (List.range' (veil.showModel state.model).edges.length shown.length) }
      simp only [numbers_eq, listed, ← graphs_eq, ← added, shown]
      rfl

end Veil

end DotLang
