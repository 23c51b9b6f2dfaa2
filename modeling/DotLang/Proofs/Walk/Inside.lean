import DotLang.Proofs.Rewalk

/-!
# Walks inside a graph

Inside a graph every statement has an enclosing subgraph, so a walk there takes
fewer kinds of steps (`InnerStep`). They keep everything inside: every node is a
member of some subgraph, every edge belongs to one, and only the root has no
parent (`Confined`). So nothing is left to list behind the subgraphs when a tree
is regenerated from a document that is one graph (`confined_graph`).
-/

namespace DotLang

namespace Tree

mutual

/-- The declared ids of the graphs and subgraphs in a tree. -/
def declaredIds : Tree → List String
  | .graph _ id _ children => id.toList ++ declaredIdsIn children
  | .subgraph id children => id.toList ++ declaredIdsIn children
  | .edgeStmt endpoints _ => declaredIdsIn endpoints
  | _ => []
termination_by structural tree => tree

def declaredIdsIn : List Tree → List String
  | [] => []
  | tree :: rest => tree.declaredIds ++ declaredIdsIn rest
termination_by structural trees => trees

end

end Tree

namespace Walk

variable {α β : Type} {options : WalkOptions} {declares : String → Prop}

/-- A single change of the state by a walk inside a graph, in a document with the given declared
ids. -/
inductive InnerStep (options : WalkOptions) (declares : String → Prop) (state : WalkState) :
    WalkState → Prop where
  | skip (tree : Tree) : InnerStep options declares state (after (Walk.skip options tree) state)
  | enter (above : String) (id : Option String) (listed : above ∈ state.model.graphs.keys)
      (declared : ∀ name ∈ id, declares name) :
      InnerStep options declares state (after (Walk.enter options (some above) id) state)
  | settle (key : String) (attrs : Attributes) :
      InnerStep options declares state (after (Walk.settle key attrs) state)
  | mention (id : String) (attrs defaults : Attributes) (above : String)
      (listed : above ∈ state.model.graphs.keys) :
      InnerStep options declares state (after (Walk.mention id attrs defaults (some above)) state)
  | createEdges (above : String) (edges : List Edge) (listed : above ∈ state.model.graphs.keys) :
      InnerStep options declares state (after (Walk.createEdges (some above) edges) state)

abbrev InnerSteps (options : WalkOptions) (declares : String → Prop) :
    WalkState → WalkState → Prop :=
  Relation.ReflTransGen (InnerStep options declares)

theorem InnerStep.listed {before later : WalkState} (step : InnerStep options declares before later)
    {key : String} (key_mem : key ∈ before.model.graphs.keys) : key ∈ later.model.graphs.keys := by
  cases step with
  | skip tree =>
      rw [model_after_skip]
      split <;> exact key_mem
  | enter above id listed declared =>
      rw [model_after_enter]
      dsimp only
      split
      · exact key_mem
      · rw [keys_plant, OrderedMap.mem_keys_insert]
        exact Or.inr key_mem
  | settle other attrs =>
      change key ∈ (before.model.graphs.modify other _).keys
      simpa using key_mem
  | mention id attrs defaults above listed =>
      rw [graphs_after_mention]
      simpa using key_mem
  | createEdges above edges listed =>
      change key ∈ (before.model.graphs.modify above _).keys
      simpa using key_mem

theorem InnerSteps.listed {before later : WalkState}
    (steps : InnerSteps options declares before later) {key : String}
    (key_mem : key ∈ before.model.graphs.keys) : key ∈ later.model.graphs.keys := by
  induction steps with
  | refl => exact key_mem
  | tail _ last ih => exact last.listed ih

/-! ### Walks take steps inside -/

/-- From a state, a walk only takes steps inside, and what it returns is as promised. -/
def TakesInner (options : WalkOptions) (declares : String → Prop) (walk : Walk α)
    (state : WalkState) (promise : α → WalkState → Prop) : Prop :=
  match walk.run state with
  | .ok result final => InnerSteps options declares state final ∧ promise result final
  | .error _ final => InnerSteps options declares state final

namespace TakesInner

variable {state : WalkState} {promise : α → WalkState → Prop} {promise' : β → WalkState → Prop}

theorem pure {result : α} (kept : promise result state) :
    TakesInner options declares (Pure.pure result) state promise :=
  ⟨.refl, kept⟩

theorem throw (error : WalkError) :
    TakesInner options declares (MonadExcept.throw error) state promise :=
  .refl

theorem single {walk : Walk α} {result : α} {final : WalkState}
    (run : walk.run state = .ok result final) (step : InnerStep options declares state final)
    (kept : promise result final) : TakesInner options declares walk state promise := by
  rw [TakesInner, run]
  exact ⟨.single step, kept⟩

theorem bind {walk : Walk α} {next : α → Walk β}
    (first : TakesInner options declares walk state promise)
    (second : ∀ result final, InnerSteps options declares state final → promise result final →
      TakesInner options declares (next result) final promise') :
    TakesInner options declares (walk >>= next) state promise' := by
  rw [TakesInner] at first ⊢
  rw [EStateM.run_bind]
  cases run : walk.run state with
  | error error final =>
      rw [run] at first
      exact first
  | ok result middle =>
      rw [run] at first
      have later := second result middle first.1 first.2
      rw [TakesInner] at later
      dsimp only
      cases run' : (next result).run middle with
      | error error final =>
          rw [run'] at later
          exact first.1.trans later
      | ok result' final =>
          rw [run'] at later
          exact ⟨first.1.trans later.1, later.2⟩

theorem skip (tree : Tree) (result : α) :
    TakesInner options declares (do Walk.skip options tree; return result) state
      fun _ _ => True := by
  have step : InnerStep options declares state _ := .skip tree
  by_cases isStrict : options.isStrict = true
  · have stopped : (do Walk.skip options tree; return result : Walk α).run state =
        .error (.unrecognized tree) state := by simp [Walk.skip, isStrict]
    rw [TakesInner, stopped]
  · have through : TakesInner options declares (Walk.skip options tree) state fun _ _ => True :=
      single (run_skip_of_lenient (by simpa using isStrict) tree state) step trivial
    exact through.bind fun _ _ _ _ => pure trivial

theorem enter {above : String} {id : Option String} (listed : above ∈ state.model.graphs.keys)
    (declared : ∀ name ∈ id, declares name) :
    TakesInner options declares (Walk.enter options (some above) id) state
      fun key final => key ∈ final.model.graphs.keys :=
  single (run_enter (some above) id state) (.enter above id listed declared)
    (entered_mem_keys (some above) id state)

theorem body (key : String) {inner : Walk Scope} {rest : Walk α}
    (walked : TakesInner options declares inner state fun _ _ => True)
    (second : ∀ final, TakesInner options declares rest final promise) :
    TakesInner options declares (do let scope ← inner; settle key scope.graph; rest) state
      promise := by
  refine walked.bind fun scope middle _ _ => ?_
  have settling : TakesInner options declares (settle key scope.graph) middle fun _ _ => True :=
    single rfl (.settle key scope.graph) trivial
  exact settling.bind fun _ final _ _ => second final

end TakesInner

mutual

theorem statement_takesInner : ∀ (tree : Tree) (above : String) (scope : Scope)
    (state : WalkState), above ∈ state.model.graphs.keys →
    (∀ name ∈ tree.declaredIds, declares name) →
    TakesInner options declares (statement options (some above) scope tree) state fun _ _ => True
  | .graph kind id isStrict children, above, scope, state, listed, declared => by
      simp only [Tree.declaredIds, List.mem_append, Option.mem_toList] at declared
      rw [statement]
      refine (TakesInner.enter listed fun name name_mem => declared name (Or.inl name_mem)).bind
        fun key entered _ entered_listed => ?_
      exact .body key (statements_takesInner children key scope entered entered_listed
        fun name name_mem => declared name (Or.inr name_mem)) fun _ => .pure trivial
  | .subgraph id children, above, scope, state, listed, declared => by
      simp only [Tree.declaredIds, List.mem_append, Option.mem_toList] at declared
      rw [statement]
      refine (TakesInner.enter listed fun name name_mem => declared name (Or.inl name_mem)).bind
        fun key entered _ entered_listed => ?_
      exact .body key (statements_takesInner children key scope entered entered_listed
        fun name name_mem => declared name (Or.inr name_mem)) fun _ => .pure trivial
  | .nodeStmt subject attrs, above, scope, state, listed, _ => by
      rw [statement]
      split
      · next id _ =>
          have mentioning : TakesInner options declares
              (mention id (Attributes.ofAttrs attrs) scope.node (some above)) state
                fun _ _ => True :=
            .single rfl (.mention id _ scope.node above listed) trivial
          exact mentioning.bind fun _ _ _ _ => .pure trivial
      · exact .throw _
  | .edgeStmt chain attrs, above, scope, state, listed, declared => by
      rw [Tree.declaredIds] at declared
      rw [statement]
      refine (endpoints_takesInner chain above scope state listed declared).bind
        fun groups resolved steps _ => ?_
      have creating : TakesInner options declares
          (createEdges (some above) (edgesAlong (Attributes.ofAttrs attrs) scope.edge groups))
            resolved fun _ _ => True :=
        .single rfl (.createEdges above _ (steps.listed listed)) trivial
      exact creating.bind fun _ _ _ _ => .pure trivial
  | .attrStmt target attrs, _, scope, _, _, _ => by
      rw [statement]
      split
      · exact .pure trivial
      · exact .skip _ scope
  | .nodeId _, _, scope, _, _, _ => .skip _ scope
  | .attr _, _, scope, _, _, _ => .skip _ scope
  | .unknown _ _ _, _, scope, _, _, _ => .skip _ scope
  | .raw _, _, scope, _, _, _ => .skip _ scope
  | .list _, _, scope, _, _, _ => .skip _ scope

theorem statements_takesInner : ∀ (trees : List Tree) (above : String) (scope : Scope)
    (state : WalkState), above ∈ state.model.graphs.keys →
    (∀ name ∈ Tree.declaredIdsIn trees, declares name) →
    TakesInner options declares (statements options (some above) scope trees) state
      fun _ _ => True
  | [], _, _, _, _, _ => .pure trivial
  | tree :: rest, above, scope, state, listed, declared => by
      simp only [Tree.declaredIdsIn, List.mem_append] at declared
      rw [statements]
      exact (statement_takesInner tree above scope state listed
        fun name name_mem => declared name (Or.inl name_mem)).bind fun changed middle steps _ =>
          statements_takesInner rest above changed middle (steps.listed listed)
            fun name name_mem => declared name (Or.inr name_mem)

theorem endpoint_takesInner : ∀ (tree : Tree) (above : String) (scope : Scope)
    (state : WalkState), above ∈ state.model.graphs.keys →
    (∀ name ∈ tree.declaredIds, declares name) →
    TakesInner options declares (endpoint options (some above) scope tree) state fun _ _ => True
  | .subgraph id children, above, scope, state, listed, declared => by
      simp only [Tree.declaredIds, List.mem_append, Option.mem_toList] at declared
      rw [endpoint]
      refine (TakesInner.enter listed fun name name_mem => declared name (Or.inl name_mem)).bind
        fun key entered _ entered_listed => ?_
      exact .body key (statements_takesInner children key scope entered entered_listed
        fun name name_mem => declared name (Or.inr name_mem)) fun _ => ⟨.refl, trivial⟩
  | .nodeId node, above, scope, state, listed, _ => by
      rw [endpoint]
      have run := run_resolveNode node scope (some above) state
      by_cases known : node.id ∈ state.model.nodes.keys
      · rw [if_pos known] at run
        rw [TakesInner, run]
        exact ⟨.refl, trivial⟩
      · rw [if_neg known] at run
        exact .single run (.mention node.id ∅ scope.node above listed) trivial
  | .graph _ _ _ _, _, _, _, _, _ => .skip _ _
  | .nodeStmt _ _, _, _, _, _, _ => .skip _ _
  | .edgeStmt _ _, _, _, _, _, _ => .skip _ _
  | .attrStmt _ _, _, _, _, _, _ => .skip _ _
  | .attr _, _, _, _, _, _ => .skip _ _
  | .unknown _ _ _, _, _, _, _, _ => .skip _ _
  | .raw _, _, _, _, _, _ => .skip _ _
  | .list _, _, _, _, _, _ => .skip _ _

theorem endpoints_takesInner : ∀ (trees : List Tree) (above : String) (scope : Scope)
    (state : WalkState), above ∈ state.model.graphs.keys →
    (∀ name ∈ Tree.declaredIdsIn trees, declares name) →
    TakesInner options declares (endpoints options (some above) scope trees) state
      fun _ _ => True
  | [], _, _, _, _, _ => .pure trivial
  | tree :: rest, above, scope, state, listed, declared => by
      simp only [Tree.declaredIdsIn, List.mem_append] at declared
      rw [endpoints]
      refine (endpoint_takesInner tree above scope state listed
        fun name name_mem => declared name (Or.inl name_mem)).bind fun group middle steps _ => ?_
      exact (endpoints_takesInner rest above scope middle (steps.listed listed)
        fun name name_mem => declared name (Or.inr name_mem)).bind fun _ _ _ _ => .pure trivial

end

end Walk

/-! ### Nothing is outside -/

namespace Model

/-- Everything in a model is inside the root. -/
structure Confined (declares : String → Prop) (root : String) (model : Model) : Prop
    extends WellFormed model where
  root_eq : model.root = some root
  /-- Nodes are members of subgraphs. -/
  members : ∀ id ∈ model.nodes.keys, ∃ key subgraph,
    model.graphs.get? key = some subgraph ∧ id ∈ subgraph.nodes
  /-- Edges belong to subgraphs. -/
  owners : ∀ number < model.edges.length, ∃ key subgraph,
    model.graphs.get? key = some subgraph ∧ number ∈ subgraph.edges
  /-- Only the root has no parent. -/
  parents : ∀ {key subgraph}, model.graphs.get? key = some subgraph → subgraph.parent = none →
    key = root
  /-- All ids of subgraphs are declared in the document. -/
  declared : ∀ {key subgraph}, model.graphs.get? key = some subgraph →
    ∀ name ∈ subgraph.id, declares name

namespace Confined

variable {declares : String → Prop} {root : String} {before later : Model}

/-- What is new is inside, and nothing that was inside leaves. -/
theorem transfer (confined : before.Confined declares root) (wellFormed : later.WellFormed)
    (root_eq : later.root = before.root)
    (nodes : ∀ id ∈ later.nodes.keys, id ∈ before.nodes.keys ∨ ∃ key subgraph,
      later.graphs.get? key = some subgraph ∧ id ∈ subgraph.nodes)
    (edges : ∀ number < later.edges.length, number < before.edges.length ∨ ∃ key subgraph,
      later.graphs.get? key = some subgraph ∧ number ∈ subgraph.edges)
    (kept : ∀ key old, before.graphs.get? key = some old → ∃ new,
      later.graphs.get? key = some new ∧ old.nodes ⊆ new.nodes ∧ old.edges ⊆ new.edges)
    (source : ∀ {key new}, later.graphs.get? key = some new →
      (new.parent = none → key = root) ∧ ∀ name ∈ new.id, declares name) :
    later.Confined declares root where
  toWellFormed := wellFormed
  root_eq := root_eq.trans confined.root_eq
  members := by
    intro id id_mem
    rcases nodes id id_mem with old_mem | isNew
    · rcases confined.members id old_mem with ⟨key, old, found, member⟩
      rcases kept key old found with ⟨new, found', members, _⟩
      exact ⟨key, new, found', members member⟩
    · exact isNew
  owners := by
    intro number bounded
    rcases edges number bounded with old_mem | isNew
    · rcases confined.owners number old_mem with ⟨key, old, found, number_mem⟩
      rcases kept key old found with ⟨new, found', _, numbers⟩
      exact ⟨key, new, found', numbers number_mem⟩
    · exact isNew
  parents found := (source found).1
  declared found := (source found).2

theorem modify (confined : before.Confined declares root) (wellFormed : later.WellFormed)
    (root_eq : later.root = before.root) (key : String) (change : Subgraph → Subgraph)
    (graphs_eq : later.graphs = before.graphs.modify key change)
    (samePlace : ∀ subgraph, (change subgraph).SamePlace subgraph)
    (keeps : ∀ subgraph, subgraph.nodes ⊆ (change subgraph).nodes ∧
      subgraph.edges ⊆ (change subgraph).edges)
    (nodes : ∀ id ∈ later.nodes.keys, id ∈ before.nodes.keys ∨ ∃ key subgraph,
      later.graphs.get? key = some subgraph ∧ id ∈ subgraph.nodes)
    (edges : ∀ number < later.edges.length, number < before.edges.length ∨ ∃ key subgraph,
      later.graphs.get? key = some subgraph ∧ number ∈ subgraph.edges) :
    later.Confined declares root := by
  apply confined.transfer wellFormed root_eq nodes edges
  · intro other old found
    rw [graphs_eq, OrderedMap.get?_modify, found]
    split
    · exact ⟨change old, rfl, keeps old⟩
    · exact ⟨old, rfl, List.Subset.refl _, List.Subset.refl _⟩
  · rw [graphs_eq]
    apply OrderedMap.forall_get?_modify fun key (new : Subgraph) =>
      (new.parent = none → key = root) ∧ ∀ name ∈ new.id, declares name
    · intro other old found
      exact ⟨confined.parents found, confined.declared found⟩
    · intro old found
      rw [(samePlace old).parent, (samePlace old).id]
      exact ⟨confined.parents found, confined.declared found⟩

end Confined

end Model

namespace Walk

variable {options : WalkOptions} {declares : String → Prop} {root : String}
  {before later : WalkState}

theorem InnerStep.wellFormed (wellFormed : before.model.WellFormed)
    (step : InnerStep options declares before later) : later.model.WellFormed := by
  cases step with
  | skip tree => exact (Step.skip tree : Step options before _).wellFormed wellFormed
  | enter above id listed declared =>
      exact (Step.enter (some above) id (enclosed_some listed)).wellFormed wellFormed
  | settle key attrs =>
      exact wellFormed.modify key
        (fun subgraph => { subgraph with attrs := subgraph.attrs.override attrs })
        fun _ => ⟨rfl, rfl, rfl, rfl⟩
  | mention id attrs defaults above listed =>
      exact wellFormed_after_mention wellFormed id attrs defaults (some above)
  | createEdges above edges listed =>
      let numbers := List.range' before.model.edges.length edges.length
      have owned := wellFormed.modify above
        (fun subgraph => { subgraph with edges := subgraph.edges ++ numbers })
        fun _ => ⟨rfl, rfl, rfl, rfl⟩
      exact ⟨owned.nested, owned.node_id, owned.root_id⟩

theorem InnerStep.confined (confined : before.model.Confined declares root)
    (step : InnerStep options declares before later) : later.model.Confined declares root := by
  have wellFormed := step.wellFormed confined.toWellFormed
  cases step with
  | skip tree =>
      rw [model_after_skip] at wellFormed ⊢
      split at wellFormed
      · next isStrict =>
          rw [if_pos isStrict]
          exact confined
      · next lenient =>
          rw [if_neg lenient]
          exact ⟨wellFormed, confined.root_eq, confined.members, confined.owners,
            confined.parents, confined.declared⟩
  | enter above id listed declared =>
      rw [model_after_enter] at wellFormed ⊢
      dsimp only at wellFormed ⊢
      split at wellFormed
      · next known =>
          rw [if_pos known]
          exact confined
      · next absent =>
          rw [if_neg absent]
          apply confined.transfer wellFormed rfl (fun _ => Or.inl) (fun _ => Or.inl)
          · intro key old found
            rcases get?_plant_of_found (some above) { key := _, id } absent found with
              ⟨children, newFound⟩
            exact ⟨_, newFound, List.Subset.refl _, List.Subset.refl _⟩
          · apply forall_get?_plant (fun key (new : Subgraph) =>
              (new.parent = none → key = root) ∧ ∀ name ∈ new.id, declares name)
              confined.nested absent (enclosed_some listed)
            · intro handle old children found
              have parents := confined.parents found
              have ids := confined.declared found
              exact ⟨parents, ids⟩
            · exact ⟨nofun, declared⟩
  | settle key attrs =>
      exact confined.modify wellFormed rfl key
        (fun subgraph => { subgraph with attrs := subgraph.attrs.override attrs }) rfl
        (fun _ => ⟨rfl, rfl, rfl, rfl⟩) (fun _ => ⟨List.Subset.refl _, List.Subset.refl _⟩)
        (fun _ => Or.inl) fun _ => Or.inl
  | mention id attrs defaults above listed =>
      rcases (OrderedMap.mem_keys_iff _ _).mp listed with ⟨subgraph, found⟩
      have graphs_eq := graphs_after_mention id attrs defaults (some above) before
      apply confined.modify wellFormed rfl above (fun subgraph => subgraph.addNode id) graphs_eq
        (fun subgraph => subgraph.addNode_samePlace id)
      · intro other
        refine ⟨fun node node_mem => Subgraph.mem_nodes_addNode.mpr (Or.inr node_mem), ?_⟩
        rw [Subgraph.edges_addNode]
        exact List.Subset.refl _
      · intro node node_mem
        rw [nodes_after_mention, OrderedMap.mem_keys_insert] at node_mem
        rcases node_mem with same | node_mem
        · right
          refine ⟨above, subgraph.addNode id, ?_, ?_⟩
          · rw [graphs_eq, OrderedMap.get?_modify, if_pos rfl, found, Option.map_some]
          · rw [Subgraph.mem_nodes_addNode]
            left
            cases known : before.model.nodes.get? id with
            | none => simpa [known] using same
            | some old => simpa [known, confined.node_id known] using same
        · exact Or.inl node_mem
      · exact fun _ => Or.inl
  | createEdges above edges listed =>
      rcases (OrderedMap.mem_keys_iff _ _).mp listed with ⟨subgraph, found⟩
      let numbers := List.range' before.model.edges.length edges.length
      let change (subgraph : Subgraph) := { subgraph with edges := subgraph.edges ++ numbers }
      have graphs_eq : (after (Walk.createEdges (some above) edges) before).model.graphs =
          before.model.graphs.modify above change := rfl
      have edges_eq : (after (Walk.createEdges (some above) edges) before).model.edges =
          before.model.edges ++ edges := rfl
      apply confined.modify wellFormed rfl above change graphs_eq
        (fun _ => ⟨rfl, rfl, rfl, rfl⟩)
        (fun _ => ⟨List.Subset.refl _, List.subset_append_left _ _⟩) (fun _ => Or.inl)
      intro number bounded
      rw [edges_eq, List.length_append] at bounded
      by_cases isOld : number < before.model.edges.length
      · exact Or.inl isOld
      · right
        refine ⟨above, change subgraph, ?_, ?_⟩
        · rw [graphs_eq, OrderedMap.get?_modify, if_pos rfl, found, Option.map_some]
        · apply List.mem_append_right
          rw [List.mem_range'_1]
          omega

theorem InnerSteps.confined (confined : before.model.Confined declares root)
    (steps : InnerSteps options declares before later) :
    later.model.Confined declares root := by
  induction steps with
  | refl => exact confined
  | tail _ last ih => exact last.confined ih

/-- A graph at the top level has just been entered and promoted. -/
theorem confined_promoted (options : WalkOptions) (declares : String → Prop) (kind : String)
    {key : String} {id : Option String} (isStrict : Bool)
    (key_eq : entryKey options id { model := ∅ } = key) (declared : ∀ name ∈ id, declares name) :
    let first := after (promote key kind isStrict) (after (enter options none id) { model := ∅ })
    key ∈ first.model.graphs.keys ∧ first.model.Confined declares key := by
  intro first
  have first_eq : first.model = _ := model_of_promoted kind isStrict key_eq
  have steps : Steps options { model := ∅ } first := steps_promoted kind isStrict key_eq
  have source {other : String} {subgraph : Subgraph}
      (found : first.model.graphs.get? other = some subgraph) :
      other = key ∧ subgraph.id = id := by
    simp only [first_eq, OrderedMap.get?_modify, plant, OrderedMap.get?_insert,
      OrderedMap.get?_empty] at found
    by_cases same : other = key
    · simp only [same, if_true, Option.map_some, Option.some_inj] at found
      exact ⟨same, found ▸ rfl⟩
    · simp [same] at found
  constructor
  · rw [first_eq]
    exact List.mem_cons_self
  · constructor
    case toWellFormed =>
      exact (steps.resolved Model.resolved_empty).toWellFormed
    case root_eq => rw [first_eq]
    case members =>
      rw [first_eq]
      exact List.forall_mem_nil _
    case owners =>
      rw [first_eq]
      intro number bounded
      cases bounded
    case parents => exact fun found _ => (source found).1
    case declared =>
      intro other subgraph found
      rw [(source found).2]
      exact declared

end Walk

namespace Model

/-- A document that is one graph leaves a model in which everything is inside the root. -/
theorem confined_graph (options : WalkOptions) (kind : String) (id : Option String)
    (isStrict : Bool) (children : List Tree) :
    let tree := Tree.graph kind id isStrict children
    ∃ root, (Model.walkPlain options tree ∅).model.Confined (· ∈ tree.declaredIds) root := by
  intro tree
  have declared (name : String) (name_mem : name ∈ id.toList ++ Tree.declaredIdsIn children) :
      name ∈ tree.declaredIds := by
    simpa [tree, Tree.declaredIds] using name_mem
  generalize key_eq : Walk.entryKey options id { model := ∅ } = key
  have start := Walk.confined_promoted options (· ∈ tree.declaredIds) kind isStrict key_eq
    fun name isId => declared name (List.mem_append_left _ (Option.mem_toList.mpr isId))
  dsimp only at start
  rcases start with ⟨listed, confined⟩
  generalize first_eq : Walk.after (Walk.promote key kind isStrict)
    (Walk.after (Walk.enter options none id) { model := ∅ }) = first at listed confined
  let rest : Walk Scope := do
    let inner ← Walk.statements options (some key) ∅ children
    Walk.settle key inner.graph
    return ∅
  have document_run : (Walk.document options tree).run { model := ∅ } = rest.run first := by
    change (Walk.statement options none ∅ tree).run _ = _
    rw [Walk.statement, EStateM.run_bind, Walk.run_enter, key_eq]
    dsimp only
    rw [if_pos Option.isNone_none, EStateM.run_bind, Walk.run_promote, first_eq]
  have walked : Walk.TakesInner options (· ∈ tree.declaredIds) rest first fun _ _ => True :=
    .body key (Walk.statements_takesInner children key ∅ first listed fun name name_mem =>
      declared name (List.mem_append_right _ name_mem)) fun _ => .pure trivial
  refine ⟨key, ?_⟩
  rw [walkPlain, document_run]
  rw [Walk.TakesInner] at walked
  cases run : rest.run first with
  | ok scope final =>
      rw [run] at walked
      exact walked.1.confined confined
  | error error final =>
      rw [run] at walked
      exact walked.confined confined

namespace Confined

variable {declares : String → Prop} {root : String} {model : Model}

theorem encloses (confined : model.Confined declares root) {key : String} {subgraph : Subgraph}
    (found : model.graphs.get? key = some subgraph) : model.graphs.Encloses root key := by
  rcases confined.nested.exists_top found with ⟨top, top_mem, encloses⟩
  rcases Forest.mem_tops_iff.mp top_mem with ⟨topmost, topFound, noParent⟩
  rw [← confined.parents topFound noParent]
  exact encloses

theorem mem_listed (confined : model.Confined declares root) {key : String} {subgraph : Subgraph}
    (found : model.graphs.get? key = some subgraph) : subgraph ∈ model.listedSubgraphs := by
  rcases confined.root_id confined.root_eq with ⟨top, topFound, _⟩
  rw [listedSubgraphs, confined.root_eq]
  apply (confined.nested.mem_descendants_iff topFound subgraph).mpr
  rw [confined.nested.key_eq found]
  exact ⟨found, confined.encloses found⟩

theorem keys_descendants_perm (confined : model.Confined declares root) :
    ((model.graphs.descendants root).map Subgraph.key).Perm model.graphs.keys := by
  rcases confined.root_id confined.root_eq with ⟨top, topFound, _⟩
  apply (List.perm_ext_iff_of_nodup (confined.nested.nodup_keys_descendants topFound)
    model.graphs.nodup_keys).mpr
  intro key
  rw [confined.nested.mem_keys_descendants_iff topFound]
  constructor
  · exact And.left
  · intro key_mem
    rcases (OrderedMap.mem_keys_iff _ _).mp key_mem with ⟨subgraph, found⟩
    exact ⟨key_mem, confined.encloses found⟩

theorem root_parent (confined : model.Confined declares root) {top : Subgraph}
    (found : model.graphs.get? root = some top) : top.parent = none := by
  rcases confined.nested.exists_top found with ⟨outer, outer_mem, _⟩
  rcases Forest.mem_tops_iff.mp outer_mem with ⟨outermost, outerFound, noParent⟩
  rw [confined.parents outerFound noParent, found, Option.some_inj] at outerFound
  rw [outerFound]
  exact noParent

theorem unlistedNodes_eq_nil (confined : model.Confined declares root) :
    model.unlistedNodes = [] := by
  rw [unlistedNodes, List.filter_eq_nil_iff]
  intro id id_mem
  rcases confined.members id id_mem with ⟨key, subgraph, found, member⟩
  simpa using ⟨subgraph, confined.mem_listed found, member⟩

theorem unlistedEdges_eq_nil (confined : model.Confined declares root) :
    model.unlistedEdges = [] := by
  have none : model.edgeOrder.filter
      (fun number => number ∉ model.listedSubgraphs.flatMap Subgraph.edges) = [] := by
    rw [List.filter_eq_nil_iff]
    intro number number_mem
    rcases confined.owners number ((model.mem_edgeOrder_iff number).mp number_mem) with
      ⟨key, subgraph, found, owned⟩
    simpa using ⟨subgraph, confined.mem_listed found, owned⟩
  rw [unlistedEdges]
  simp only [none]
  rfl

end Confined

end Model

end DotLang
