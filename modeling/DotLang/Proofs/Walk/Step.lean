import DotLang.Conversion
import DotLang.Proofs.Members

/-!
# The steps of a walk

A walk changes its state in six ways only: it skips a statement, enters a
subgraph, promotes a graph, settles the attributes of a subgraph, mentions a node
and creates edges. `Step` lists them, each with what the walk guarantees when it
takes the step. The main result is `statement_takes` with its companions: from
any state, walking anything is a sequence of such steps, also when the walk
stops on the way.

Whatever every single step preserves is therefore preserved by walks, and the
states between the steps are all the states that a walk can be in.
-/

namespace DotLang

/-- Whether a model has a node, or at least a subgraph with such a member. -/
def Model.Knows (model : Model) (node : String) : Prop :=
  node ∈ model.nodes.keys ∨
    ∃ key subgraph, model.graphs.get? key = some subgraph ∧ node ∈ subgraph.nodes

/-- What is in the first model is also in the second. -/
structure Model.Grows (first second : Model) : Prop where
  graphs : ∀ {key}, key ∈ first.graphs.keys → key ∈ second.graphs.keys
  nodes : ∀ {node}, node ∈ first.nodes.keys → node ∈ second.nodes.keys
  members : ∀ {key subgraph node}, first.graphs.get? key = some subgraph →
    node ∈ subgraph.nodes →
    ∃ subgraph', second.graphs.get? key = some subgraph' ∧ node ∈ subgraph'.nodes

namespace Model.Grows

theorem refl (model : Model) : model.Grows model :=
  ⟨fun key_mem => key_mem, fun node_mem => node_mem, fun found node_mem => ⟨_, found, node_mem⟩⟩

theorem trans {first second third : Model} (early : first.Grows second)
    (late : second.Grows third) : first.Grows third := by
  refine ⟨fun key_mem => late.graphs (early.graphs key_mem),
    fun node_mem => late.nodes (early.nodes node_mem), ?_⟩
  intro key subgraph node found node_mem
  rcases early.members found node_mem with ⟨subgraph', found', node_mem'⟩
  exact late.members found' node_mem'

theorem knows {first second : Model} (grows : first.Grows second) {node : String}
    (known : first.Knows node) : second.Knows node := by
  rcases known with node_mem | ⟨key, subgraph, found, node_mem⟩
  · exact Or.inl (grows.nodes node_mem)
  · rcases grows.members found node_mem with ⟨subgraph', found', node_mem'⟩
    exact Or.inr ⟨key, subgraph', found', node_mem'⟩

end Model.Grows

namespace Walk

variable {α β : Type} {options : WalkOptions}

/-- The state that a walk leaves behind, whether it goes through or stops. -/
def after (walk : Walk α) (state : WalkState) : WalkState :=
  match walk.run state with
  | .ok _ final => final
  | .error _ final => final

/-- The number in the last generated key once a graph or subgraph is entered. -/
def entryNumber (options : WalkOptions) (id : Option String) (state : WalkState) : Nat :=
  match id with
  | some _ => state.anonymousCount
  | none => nextAnonymousNumber options.anonymousPrefix state.model.graphs state.anonymousCount

/-- The key under which a graph or subgraph is entered: its declared id or a generated key. -/
def entryKey (options : WalkOptions) (id : Option String) (state : WalkState) : String :=
  id.getD (anonymousKey options.anonymousPrefix (entryNumber options id state))

/-- Whether a place inside the subgraph `parent`, if there is one, is in a listed subgraph. -/
def Enclosed (parent : Option String) (model : Model) : Prop :=
  ∀ handle ∈ parent, handle ∈ model.graphs.keys

/-- A single change of the state by a walk. -/
inductive Step (options : WalkOptions) (state : WalkState) : WalkState → Prop where
  /-- A statement is skipped, or a strict walk stops at it. -/
  | skip (tree : Tree) : Step options state (after (Walk.skip options tree) state)
  /-- A subgraph is entered, from inside a listed one or from outside. -/
  | enter (parent id : Option String) (enclosed : Enclosed parent state.model) :
      Step options state (after (Walk.enter options parent id) state)
  /-- A graph at the top level is promoted. -/
  | promote (key kind : String) (isStrict : Bool) (listed : key ∈ state.model.graphs.keys) :
      Step options state (after (Walk.promote key kind isStrict) state)
  /-- The attributes of a listed subgraph are settled. -/
  | settle (key : String) (attrs : Attributes) (listed : key ∈ state.model.graphs.keys) :
      Step options state (after (Walk.settle key attrs) state)
  /-- A node is mentioned inside a listed subgraph or outside. -/
  | mention (id : String) (attrs defaults : Attributes) (parent : Option String)
      (enclosed : Enclosed parent state.model) :
      Step options state (after (Walk.mention id attrs defaults parent) state)
  /-- Edges between known nodes are created inside a listed subgraph or outside. -/
  | createEdges (parent : Option String) (edges : List Edge)
      (enclosed : Enclosed parent state.model)
      (known : ∀ edge ∈ edges, state.model.Knows edge.tail ∧ state.model.Knows edge.head) :
      Step options state (after (Walk.createEdges parent edges) state)

/-- Any number of steps. -/
abbrev Steps (options : WalkOptions) : WalkState → WalkState → Prop :=
  Relation.ReflTransGen (Step options)

/-- What every step preserves is preserved by any number of steps. -/
theorem Steps.preserve (invariant : WalkState → Prop)
    (step : ∀ {before later}, invariant before → Step options before later → invariant later)
    {state final : WalkState} (holds : invariant state) (steps : Steps options state final) :
    invariant final := by
  induction steps with
  | refl => exact holds
  | tail _ last ih => exact step ih last

theorem run_bind_of_ok {walk : Walk α} {state middle : WalkState} {result : α}
    (run : walk.run state = .ok result middle) (next : α → Walk β) :
    (walk >>= next).run state = (next result).run middle := by
  rw [EStateM.run_bind, run]

theorem run_bind_of_error {walk : Walk α} {state stopped : WalkState} {error : WalkError}
    (run : walk.run state = .error error stopped) (next : α → Walk β) :
    (walk >>= next).run state = .error error stopped := by
  rw [EStateM.run_bind, run]

theorem after_of_ok {walk : Walk α} {state final : WalkState} {result : α}
    (run : walk.run state = .ok result final) : after walk state = final := by
  rw [after, run]

theorem after_bind_of_ok {walk : Walk α} {state middle : WalkState} {result : α}
    (run : walk.run state = .ok result middle) (next : α → Walk β) :
    after (walk >>= next) state = after (next result) middle := by
  rw [after, after, run_bind_of_ok run]

theorem after_bind_of_error {walk : Walk α} {state stopped : WalkState} {error : WalkError}
    (run : walk.run state = .error error stopped) (next : α → Walk β) :
    after (walk >>= next) state = after walk state := by
  rw [after, after, run_bind_of_error run, run]

/-! ### The single operations -/

@[simp]
theorem run_modifyModel (change : Model → Model) (state : WalkState) :
    (modifyModel change).run state = .ok () { state with model := change state.model } :=
  rfl

theorem run_skip_of_lenient (lenient : options.isStrict = false) (tree : Tree)
    (state : WalkState) :
    (skip options tree).run state = .ok () (after (skip options tree) state) := by
  simp [skip, after, lenient, report, modifyModel]

theorem run_enter_eq (parent id : Option String) (state : WalkState) :
    (enter options parent id).run state =
      let key := entryKey options id state
      .ok key
        (if state.model.graphs.contains key then
          { state with
            anonymousCount := entryNumber options id state
            events := state.events ++ [.reentered key] }
        else
          { state with
            anonymousCount := entryNumber options id state
            model := { state.model with
              graphs := plant state.model.graphs parent { key, id } } }) := by
  have entered (key : String) (state : WalkState) :
      (do
        if (← get).model.graphs.contains key then report (.reentered key)
        else modifyModel fun model => { model with graphs := plant model.graphs parent { key, id } }
        return key : Walk String).run state =
        .ok key
          (if state.model.graphs.contains key then
            { state with events := state.events ++ [.reentered key] }
          else
            { state with model := { state.model with
                graphs := plant state.model.graphs parent { key, id } } }) := by
    simp only [EStateM.run_bind, EStateM.run_get]
    by_cases listed : state.model.graphs.contains key = true
    · rw [if_pos listed, if_pos listed]
      rfl
    · rw [if_neg listed, if_neg listed]
      rfl
  cases id with
  | none =>
      exact entered (entryKey options none state)
        { state with anonymousCount := entryNumber options none state }
  | some id => exact entered id state

theorem run_enter (parent id : Option String) (state : WalkState) :
    (enter options parent id).run state =
      .ok (entryKey options id state) (after (enter options parent id) state) := by
  rw [after, run_enter_eq]

theorem model_after_enter (parent id : Option String) (state : WalkState) :
    (after (enter options parent id) state).model =
      let key := entryKey options id state
      if key ∈ state.model.graphs.keys then state.model
      else { state.model with graphs := plant state.model.graphs parent { key, id } } := by
  simp only [after, run_enter_eq, OrderedMap.contains_iff]
  split <;> rfl

theorem entered_mem_keys (parent id : Option String) (state : WalkState) :
    entryKey options id state ∈ (after (enter options parent id) state).model.graphs.keys := by
  rw [model_after_enter]
  dsimp only
  split
  · assumption
  · rw [keys_plant, OrderedMap.mem_keys_insert]
    exact Or.inl rfl

theorem anonymousCount_after_enter (parent id : Option String) (state : WalkState) :
    (after (enter options parent id) state).anonymousCount = entryNumber options id state := by
  simp only [after, run_enter_eq]
  split <;> rfl

/-- The model with a graph promoted: its kind changes, and it becomes the root if it can. -/
def promoted (key kind : String) (isStrict : Bool) (model : Model) : Model :=
  Model.setRoot
    { model with graphs := model.graphs.modify key fun subgraph => { subgraph with kind } }
    key isStrict

theorem run_promote_eq (key kind : String) (isStrict : Bool) (state : WalkState) :
    (promote key kind isStrict).run state =
      .ok () { state with
        model := promoted key kind isStrict state.model
        events := state.events ++
          if state.model.hasOtherRoot key then [.ignoredRoot key] else [] } := by
  have sameRoot (graphs : Forest) :
      Model.hasOtherRoot { state.model with graphs } key = state.model.hasOtherRoot key :=
    rfl
  by_cases other : state.model.hasOtherRoot key = true
  · simp [promote, modifyModel, report, promoted, Model.setRoot, sameRoot, other]
  · simp [promote, modifyModel, promoted, sameRoot, other]

theorem run_promote (key kind : String) (isStrict : Bool) (state : WalkState) :
    (promote key kind isStrict).run state =
      .ok () (after (promote key kind isStrict) state) := by
  rw [after, run_promote_eq]

@[simp]
theorem model_after_promote (key kind : String) (isStrict : Bool) (state : WalkState) :
    (after (promote key kind isStrict) state).model =
      promoted key kind isStrict state.model := by
  rw [after, run_promote_eq]

@[simp]
theorem anonymousCount_after_promote (key kind : String) (isStrict : Bool) (state : WalkState) :
    (after (promote key kind isStrict) state).anonymousCount = state.anonymousCount := by
  rw [after, run_promote_eq]

/-- The node table after a mention. -/
theorem nodes_after_mention (id : String) (attrs defaults : Attributes) (parent : Option String)
    (state : WalkState) :
    (after (mention id attrs defaults parent) state).model.nodes =
      let node := (state.model.nodes.get? id).getD { id }
      state.model.nodes.insert node.id
        { node with attrs := Attributes.fill (node.attrs.override attrs) defaults } := by
  cases parent <;> rfl

theorem graphs_after_mention (id : String) (attrs defaults : Attributes) (parent : Option String)
    (state : WalkState) :
    (after (mention id attrs defaults parent) state).model.graphs =
      match parent with
      | some key => state.model.graphs.modify key fun subgraph => subgraph.addNode id
      | none => state.model.graphs := by
  cases parent <;> rfl

/-- A node reference counts as a mention if it is to a new node, and is ignored otherwise. -/
theorem run_resolveNode (node : NodeId) (scope : Scope) (parent : Option String)
    (state : WalkState) :
    (resolveNode node scope parent).run state =
      .ok { nodes := [node.id], reference := some node }
        (if node.id ∈ state.model.nodes.keys then state
        else after (mention node.id ∅ scope.node parent) state) := by
  by_cases listed : state.model.nodes.contains node.id = true
  · rw [if_pos ((OrderedMap.contains_iff _ _).mp listed)]
    simp [resolveNode, listed]
  · rw [if_neg (mt (OrderedMap.contains_iff _ _).mpr listed)]
    simp only [resolveNode, EStateM.run_bind, EStateM.run_get, listed]
    rfl

theorem model_after_skip (tree : Tree) (state : WalkState) :
    (after (skip options tree) state).model =
      if options.isStrict then state.model
      else { state.model with diagnostics := state.model.diagnostics ++ [tree.diagnostic] } := by
  by_cases isStrict : options.isStrict = true <;>
    simp [after, skip, report, modifyModel, isStrict]

@[simp]
theorem anonymousCount_after_skip (tree : Tree) (state : WalkState) :
    (after (skip options tree) state).anonymousCount = state.anonymousCount := by
  by_cases isStrict : options.isStrict = true <;>
    simp [after, skip, report, modifyModel, isStrict]

/-! ### Nothing is lost -/

/-- Planting changes the children of listed subgraphs at most. -/
theorem get?_plant_of_found {graphs : Forest} (parent : Option String) (subgraph : Subgraph)
    (absent : subgraph.key ∉ graphs.keys) {handle : String} {old : Subgraph}
    (found : graphs.get? handle = some old) :
    ∃ children, (plant graphs parent subgraph).get? handle = some { old with children } := by
  have differs : handle ≠ subgraph.key := fun same =>
    absent (same ▸ OrderedMap.mem_keys_of_get? found)
  cases parent with
  | none => exact ⟨old.children, by simp [plant, OrderedMap.get?_insert, differs, found]⟩
  | some above =>
      simp only [plant, Forest.adopt, OrderedMap.get?_modify, OrderedMap.get?_insert, differs,
        if_false, found]
      split <;> exact ⟨_, rfl⟩

/-- Planting goes unnoticed where only a part of each subgraph is looked at which the new one has
by default. -/
theorem getD_map_get?_plant {β : Type} (view : Subgraph → β) (graphs : Forest)
    (parent : Option String) (subgraph : Subgraph) (absent : subgraph.key ∉ graphs.keys)
    (sameChildren : ∀ subgraph children, view { subgraph with children } = view subgraph)
    (sameParent : ∀ subgraph parent, view { subgraph with parent } = view subgraph)
    (handle : String) :
    (((plant graphs parent subgraph).get? handle).map view).getD (view subgraph) =
      ((graphs.get? handle).map view).getD (view subgraph) := by
  have inserted : (((graphs.insert subgraph.key subgraph).get? handle).map view).getD
      (view subgraph) = ((graphs.get? handle).map view).getD (view subgraph) := by
    rw [OrderedMap.get?_insert]
    split
    · next same => simp [same, (graphs.get?_eq_none_iff _).mpr absent]
    · rfl
  cases parent with
  | none => exact inserted
  | some above =>
      rw [plant, Forest.adopt, OrderedMap.map_get?_modify view fun old => sameParent old _,
        OrderedMap.map_get?_modify view fun old => sameChildren old _]
      exact inserted

end Walk

namespace Model.Grows

variable {first second : Model}

theorem of_eq (sameGraphs : second.graphs = first.graphs) (sameNodes : second.nodes = first.nodes) :
    first.Grows second := by
  rcases second with ⟨nodes, edges, graphs, root, id, kind, isStrict, diagnostics⟩
  dsimp only at sameGraphs sameNodes
  subst sameGraphs sameNodes
  exact ⟨fun key_mem => key_mem, fun node_mem => node_mem,
    fun found node_mem => ⟨_, found, node_mem⟩⟩

theorem of_modify (key : String) (change : Subgraph → Subgraph)
    (sameGraphs : second.graphs = first.graphs.modify key change)
    (nodes : ∀ {node}, node ∈ first.nodes.keys → node ∈ second.nodes.keys)
    (keeps : ∀ subgraph, subgraph.nodes ⊆ (change subgraph).nodes) : first.Grows second := by
  refine ⟨?_, nodes, ?_⟩
  · intro other key_mem
    rw [sameGraphs, OrderedMap.keys_modify]
    exact key_mem
  · intro other subgraph node found node_mem
    rw [sameGraphs, OrderedMap.get?_modify, found]
    split
    · exact ⟨change subgraph, rfl, keeps subgraph node_mem⟩
    · exact ⟨subgraph, rfl, node_mem⟩

end Model.Grows

namespace Walk

variable {α β : Type} {options : WalkOptions}

theorem Step.grows {before later : WalkState} (step : Step options before later) :
    before.model.Grows later.model := by
  cases step with
  | skip tree =>
      rw [model_after_skip]
      split
      · exact .refl _
      · exact .of_eq rfl rfl
  | enter parent id enclosed =>
      rw [model_after_enter]
      dsimp only
      split
      · exact .refl _
      · next absent =>
          refine ⟨?_, fun node_mem => node_mem, ?_⟩
          · intro key key_mem
            rw [keys_plant, OrderedMap.mem_keys_insert]
            exact Or.inr key_mem
          · intro key subgraph node found node_mem
            rcases get?_plant_of_found parent { key := entryKey options id before, id } absent
              found with ⟨children, newFound⟩
            exact ⟨_, newFound, node_mem⟩
  | promote key kind isStrict listed =>
      rw [model_after_promote, promoted, Model.setRoot]
      have retitled : before.model.Grows { before.model with
          graphs := before.model.graphs.modify key fun subgraph => { subgraph with kind } } := by
        exact .of_modify key (fun subgraph => { subgraph with kind }) rfl
          (fun node_mem => node_mem) fun _ => List.Subset.refl _
      split
      · exact retitled
      · split
        · exact retitled.trans (.of_eq rfl rfl)
        · exact retitled
  | settle key attrs listed =>
      exact .of_modify key
        (fun subgraph => { subgraph with attrs := subgraph.attrs.override attrs }) rfl
        (fun node_mem => node_mem) fun _ => List.Subset.refl _
  | mention id attrs defaults parent enclosed =>
      have nodes {node : String} (node_mem : node ∈ before.model.nodes.keys) (entry : Node) :
          node ∈ (before.model.nodes.insert entry.id entry).keys := by
        rw [OrderedMap.mem_keys_insert]
        exact Or.inr node_mem
      cases parent with
      | none => exact ⟨fun key_mem => key_mem, fun node_mem => nodes node_mem _,
          fun found node_mem => ⟨_, found, node_mem⟩⟩
      | some above =>
          refine .of_modify above (fun subgraph => subgraph.addNode id) rfl
            (fun node_mem => nodes node_mem _) ?_
          intro subgraph node node_mem
          rw [Subgraph.addNode]
          split
          · exact node_mem
          · exact List.mem_append_left _ node_mem
  | createEdges parent edges enclosed known =>
      cases parent with
      | none => exact .of_eq rfl rfl
      | some above =>
          let numbers := List.range' before.model.edges.length edges.length
          exact .of_modify above
            (fun subgraph => { subgraph with edges := subgraph.edges ++ numbers }) rfl
            (fun node_mem => node_mem) fun _ => List.Subset.refl _

theorem Steps.grows {state final : WalkState} (steps : Steps options state final) :
    state.model.Grows final.model :=
  steps.preserve (fun later => state.model.Grows later.model)
    (fun grows step => grows.trans step.grows) (.refl _)

/-! ### Walks take steps -/

/-- From a state, a walk only takes steps, and what it returns is as promised. -/
def Takes (options : WalkOptions) (walk : Walk α) (state : WalkState)
    (promise : α → WalkState → Prop) : Prop :=
  match walk.run state with
  | .ok result final => Steps options state final ∧ promise result final
  | .error _ final => Steps options state final

namespace Takes

variable {state : WalkState} {promise : α → WalkState → Prop} {promise' : β → WalkState → Prop}

theorem pure {result : α} (kept : promise result state) :
    Takes options (Pure.pure result) state promise :=
  ⟨.refl, kept⟩

theorem throw (error : WalkError) : Takes options (MonadExcept.throw error) state promise :=
  .refl

theorem steps {walk : Walk α} (takes : Takes options walk state promise) :
    Steps options state (after walk state) := by
  rw [Takes] at takes
  rw [after]
  cases run : walk.run state with
  | ok result final =>
      rw [run] at takes
      exact takes.1
  | error error final =>
      rw [run] at takes
      exact takes

/-- An operation that goes through in one step. -/
theorem single {walk : Walk α} {result : α} {final : WalkState}
    (run : walk.run state = .ok result final) (step : Step options state final)
    (kept : promise result final) : Takes options walk state promise := by
  rw [Takes, run]
  exact ⟨.single step, kept⟩

theorem bind {walk : Walk α} {next : α → Walk β} (first : Takes options walk state promise)
    (second : ∀ result final, Steps options state final → promise result final →
      Takes options (next result) final promise') :
    Takes options (walk >>= next) state promise' := by
  rw [Takes] at first ⊢
  rw [EStateM.run_bind]
  cases run : walk.run state with
  | error error final =>
      rw [run] at first
      exact first
  | ok result middle =>
      rw [run] at first
      have later := second result middle first.1 first.2
      rw [Takes] at later
      dsimp only
      cases run' : (next result).run middle with
      | error error final =>
          rw [run'] at later
          exact first.1.trans later
      | ok result' final =>
          rw [run'] at later
          exact ⟨first.1.trans later.1, later.2⟩

theorem skip (tree : Tree) {walk : Walk α}
    (second : ∀ final, Steps options state final → Takes options walk final promise) :
    Takes options (do Walk.skip options tree; walk) state promise := by
  have step : Step options state _ := .skip tree
  by_cases isStrict : options.isStrict = true
  · have stopped : (do Walk.skip options tree; walk : Walk α).run state =
        .error (.unrecognized tree) state := by simp [Walk.skip, isStrict]
    rw [Takes, stopped]
  · have through : Takes options (Walk.skip options tree) state fun _ _ => True :=
      single (run_skip_of_lenient (by simpa using isStrict) tree state) step trivial
    exact through.bind fun _ final steps _ => second final steps

theorem enter (parent id : Option String) (enclosed : Enclosed parent state.model) :
    Takes options (Walk.enter options parent id) state
      fun key final => key ∈ final.model.graphs.keys :=
  single (run_enter parent id state) (.enter parent id enclosed) (entered_mem_keys parent id state)

/-- A body is walked and its graph attributes are settled. -/
theorem body {key : String} {inner : Walk Scope} {rest : Walk α}
    (listed : key ∈ state.model.graphs.keys)
    (walked : Takes options inner state fun _ _ => True)
    (second : ∀ final, Steps options state final → Takes options rest final promise) :
    Takes options (do let scope ← inner; settle key scope.graph; rest) state promise := by
  refine walked.bind fun scope middle steps _ => ?_
  have settling : Takes options (settle key scope.graph) middle fun _ _ => True :=
    single rfl (.settle key scope.graph (steps.grows.graphs listed)) trivial
  exact settling.bind fun _ final settled _ => second final (steps.trans settled)

end Takes

theorem mem_edgesAlong {attrs defaults : Attributes} {edge : Edge} {groups : List EndpointGroup}
    (edge_mem : edge ∈ edgesAlong attrs defaults groups) :
    (∃ group ∈ groups, edge.tail ∈ group.nodes) ∧ ∃ group ∈ groups, edge.head ∈ group.nodes := by
  induction groups with
  | nil => simp [edgesAlong] at edge_mem
  | cons tail rest ih =>
      cases rest with
      | nil => simp [edgesAlong] at edge_mem
      | cons head rest =>
          rw [edgesAlong, List.mem_append] at edge_mem
          rcases edge_mem with here | later
          · simp only [edgesBetween, List.mem_flatMap, List.mem_map] at here
            rcases here with ⟨tailNode, tail_mem, headNode, head_mem, rfl⟩
            exact ⟨⟨tail, by simp, tail_mem⟩, ⟨head, by simp, head_mem⟩⟩
          · rcases ih later with ⟨⟨tailGroup, tail_mem, tail_node⟩, headGroup, head_mem, head_node⟩
            exact ⟨⟨tailGroup, List.mem_cons_of_mem _ tail_mem, tail_node⟩,
              headGroup, List.mem_cons_of_mem _ head_mem, head_node⟩

theorem Enclosed.grow {parent : Option String} {first second : Model}
    (enclosed : Enclosed parent first) (grows : first.Grows second) : Enclosed parent second :=
  fun handle handle_mem => grows.graphs (enclosed handle handle_mem)

theorem enclosed_some {key : String} {model : Model} (listed : key ∈ model.graphs.keys) :
    Enclosed (some key) model := by
  rintro handle ⟨⟩
  exact listed

theorem resolveNode_takes (node : NodeId) (scope : Scope) (parent : Option String)
    (state : WalkState) (enclosed : Enclosed parent state.model) :
    Takes options (resolveNode node scope parent) state
      fun group final => ∀ node ∈ group.nodes, final.model.Knows node := by
  have run := run_resolveNode node scope parent state
  by_cases listed : node.id ∈ state.model.nodes.keys
  · rw [if_pos listed] at run
    rw [Takes, run]
    refine ⟨.refl, ?_⟩
    intro other other_mem
    rw [List.mem_singleton] at other_mem
    exact Or.inl (other_mem ▸ listed)
  · rw [if_neg listed] at run
    refine .single run (.mention node.id ∅ scope.node parent enclosed) ?_
    have missing := (state.model.nodes.get?_eq_none_iff node.id).mpr listed
    intro other other_mem
    rw [List.mem_singleton] at other_mem
    left
    rw [nodes_after_mention, missing, Option.getD_none, OrderedMap.mem_keys_insert]
    exact Or.inl other_mem

mutual

theorem statement_takes : ∀ (tree : Tree) (parent : Option String) (scope : Scope)
    (state : WalkState), Enclosed parent state.model →
    Takes options (statement options parent scope tree) state fun _ _ => True
  | .graph kind id isStrict children, parent, scope, state, enclosed => by
      rw [statement]
      refine (Takes.enter parent id enclosed).bind fun key entered steps listed => ?_
      have walked (first : WalkState) (grows : entered.model.Grows first.model) :
          Takes options (do
            let inner ← statements options (some key) scope children
            settle key inner.graph
            return scope) first fun _ _ => True :=
        Takes.body (grows.graphs listed)
          (statements_takes children (some key) scope first (enclosed_some (grows.graphs listed)))
          fun final _ => .pure trivial
      dsimp only
      split
      · have promoting : Takes options (promote key kind isStrict) entered fun _ _ => True :=
          .single (run_promote key kind isStrict entered)
            (.promote key kind isStrict listed) trivial
        exact promoting.bind fun _ first steps _ => walked first steps.grows
      · exact walked entered (.refl _)
  | .subgraph id children, parent, scope, state, enclosed => by
      rw [statement]
      refine (Takes.enter parent id enclosed).bind fun key entered steps listed => ?_
      exact Takes.body listed
        (statements_takes children (some key) scope entered (enclosed_some listed))
        fun final _ => .pure trivial
  | .nodeStmt subject attrs, parent, scope, state, enclosed => by
      rw [statement]
      split
      · next id _ =>
          have mentioning : Takes options
              (mention id (Attributes.ofAttrs attrs) scope.node parent) state fun _ _ => True :=
            .single rfl (.mention id _ scope.node parent enclosed) trivial
          exact mentioning.bind fun _ _ _ _ => .pure trivial
      · exact .throw _
  | .edgeStmt chain attrs, parent, scope, state, enclosed => by
      rw [statement]
      refine (endpoints_takes chain parent scope state enclosed).bind
        fun groups resolved steps known => ?_
      have creating : Takes options
          (createEdges parent (edgesAlong (Attributes.ofAttrs attrs) scope.edge groups))
          resolved fun _ _ => True := by
        refine .single rfl (.createEdges parent _ (enclosed.grow steps.grows) ?_) trivial
        intro edge edge_mem
        rcases mem_edgesAlong edge_mem with ⟨⟨tail, tail_mem, ends⟩, head, head_mem, starts⟩
        exact ⟨known tail tail_mem _ ends, known head head_mem _ starts⟩
      exact creating.bind fun _ _ _ _ => .pure trivial
  | .attrStmt target attrs, parent, scope, state, enclosed => by
      rw [statement]
      split
      · exact .pure trivial
      · exact .skip _ fun _ _ => .pure trivial
  | .nodeId node, parent, scope, state, enclosed => by
      simp only [statement]
      exact .skip _ fun _ _ => .pure trivial
  | .attr entry, parent, scope, state, enclosed => by
      simp only [statement]
      exact .skip _ fun _ _ => .pure trivial
  | .unknown kind data reason, parent, scope, state, enclosed => by
      simp only [statement]
      exact .skip _ fun _ _ => .pure trivial
  | .raw value, parent, scope, state, enclosed => by
      simp only [statement]
      exact .skip _ fun _ _ => .pure trivial
  | .list items, parent, scope, state, enclosed => by
      simp only [statement]
      exact .skip _ fun _ _ => .pure trivial

theorem statements_takes : ∀ (trees : List Tree) (parent : Option String) (scope : Scope)
    (state : WalkState), Enclosed parent state.model →
    Takes options (statements options parent scope trees) state fun _ _ => True
  | [], parent, scope, state, enclosed => by
      rw [statements]
      exact .pure trivial
  | tree :: rest, parent, scope, state, enclosed => by
      rw [statements]
      exact (statement_takes tree parent scope state enclosed).bind fun changed middle steps _ =>
        statements_takes rest parent changed middle (enclosed.grow steps.grows)

theorem endpoint_takes : ∀ (tree : Tree) (parent : Option String) (scope : Scope)
    (state : WalkState), Enclosed parent state.model →
    Takes options (endpoint options parent scope tree) state
      fun group final => ∀ node ∈ group.nodes, final.model.Knows node
  | .subgraph id children, parent, scope, state, enclosed => by
      rw [endpoint]
      refine (Takes.enter parent id enclosed).bind fun key entered steps listed => ?_
      refine Takes.body listed
        (statements_takes children (some key) scope entered (enclosed_some listed))
        fun final _ => ⟨.refl, ?_⟩
      intro node node_mem
      exact Or.inr (Forest.exists_member_of_mem_allNodes node_mem)
  | .nodeId node, parent, scope, state, enclosed => by
      rw [endpoint]
      exact resolveNode_takes node scope parent state enclosed
  | .graph kind id isStrict children, parent, scope, state, enclosed => by
      simp only [endpoint]
      exact .skip _ fun _ _ => .pure (by simp)
  | .nodeStmt subject attrs, parent, scope, state, enclosed => by
      simp only [endpoint]
      exact .skip _ fun _ _ => .pure (by simp)
  | .edgeStmt chain attrs, parent, scope, state, enclosed => by
      simp only [endpoint]
      exact .skip _ fun _ _ => .pure (by simp)
  | .attrStmt target attrs, parent, scope, state, enclosed => by
      simp only [endpoint]
      exact .skip _ fun _ _ => .pure (by simp)
  | .attr entry, parent, scope, state, enclosed => by
      simp only [endpoint]
      exact .skip _ fun _ _ => .pure (by simp)
  | .unknown kind data reason, parent, scope, state, enclosed => by
      simp only [endpoint]
      exact .skip _ fun _ _ => .pure (by simp)
  | .raw value, parent, scope, state, enclosed => by
      simp only [endpoint]
      exact .skip _ fun _ _ => .pure (by simp)
  | .list items, parent, scope, state, enclosed => by
      simp only [endpoint]
      exact .skip _ fun _ _ => .pure (by simp)

theorem endpoints_takes : ∀ (trees : List Tree) (parent : Option String) (scope : Scope)
    (state : WalkState), Enclosed parent state.model →
    Takes options (endpoints options parent scope trees) state
      fun groups final => ∀ group ∈ groups, ∀ node ∈ group.nodes, final.model.Knows node
  | [], parent, scope, state, enclosed => by
      rw [endpoints]
      refine .pure ?_
      simp
  | tree :: rest, parent, scope, state, enclosed => by
      rw [endpoints]
      refine (endpoint_takes tree parent scope state enclosed).bind
        fun group middle steps known => ?_
      refine (endpoints_takes rest parent scope middle (enclosed.grow steps.grows)).bind
        fun groups final later knownLater => .pure ?_
      intro group' group'_mem node node_mem
      rcases List.mem_cons.mp group'_mem with rfl | group'_mem
      · exact later.grows.knows (known node node_mem)
      · exact knownLater group' group'_mem node node_mem

end

theorem document_takes (tree : Tree) (state : WalkState) :
    Takes options (document options tree) state fun _ _ => True := by
  have outside : Enclosed none state.model := fun handle handle_mem => nomatch handle_mem
  cases tree with
  | list items => exact statements_takes items none ∅ state outside
  | _ => exact statement_takes _ none ∅ state outside

end Walk

namespace Model

section Results

variable {options : WalkOptions} {tree : Tree} {model : Model} {final : WalkState}

theorem walkPlain_of_ok {scope : Scope}
    (run : (Walk.document options tree).run { model } = .ok scope final) :
    model.walkPlain options tree = ⟨final.model, final.events, none⟩ := by
  rw [walkPlain, run]

theorem walkPlain_of_error {error : WalkError}
    (run : (Walk.document options tree).run { model } = .error error final) :
    model.walkPlain options tree = ⟨final.model, final.events, some (.walk error)⟩ := by
  rw [walkPlain, run]

theorem model_walkPlain (options : WalkOptions) (tree : Tree) (model : Model) :
    (model.walkPlain options tree).model =
      ((Walk.document options tree).after { model }).model := by
  rw [walkPlain, Walk.after]
  cases (Walk.document options tree).run { model } <;> rfl

end Results

/-- Walking a tree into a model is a sequence of steps, wherever the walk ends. -/
theorem walkPlain_steps (options : WalkOptions) (tree : Tree) (model : Model) :
    ∃ final, Walk.Steps options { model } final ∧
      (model.walkPlain options tree).model = final.model :=
  ⟨_, (Walk.document_takes tree { model }).steps, model_walkPlain options tree model⟩

end Model

end DotLang
