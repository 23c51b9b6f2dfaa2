import DotLang.Proofs.Walk.FirstDiagnostic
import DotLang.Proofs.Walk.Script
import DotLang.Proofs.Walk.Strictness

/-!
# Leaving out what is skipped

What a lenient walk skips leaves a diagnostic and nothing else. So a list of
statements can be pruned, at any depth, of everything that means nothing there:
the walk of the rest goes the same way and leaves the same model, but for the
diagnostics of what was left out (`Model.walk_prunedIn`). Endpoints of edges keep
their places, whether they mean something or not, since a blank place separates
its neighbours.

The two walks are compared operation by operation (`Mirrors`). No operation looks
at the diagnostics, so they may differ from the start.
-/

namespace DotLang

/-- A diagnostic that a lenient walk leaves for a statement, or for an endpoint of an edge. -/
structure Remark where
  isEndpoint : Bool
  text : String

namespace Tree

/-- Whether a tree means something in the place of a statement. -/
def isStatement : Tree → Bool
  | .graph .. | .subgraph .. | .nodeStmt .. | .edgeStmt .. => true
  | .attrStmt target _ => target ∈ attrTargets
  | _ => false

mutual

/-- A tree without what is skipped in the lists of children in it. -/
def pruned : Tree → Tree
  | .graph kind id isStrict children => .graph kind id isStrict (prunedIn children)
  | .subgraph id children => .subgraph id (prunedIn children)
  | .edgeStmt endpoints attrs => .edgeStmt (prunedEndpoints endpoints) attrs
  | tree => tree
termination_by structural tree => tree

def prunedIn : List Tree → List Tree
  | [] => []
  | tree :: rest => if tree.isStatement then tree.pruned :: prunedIn rest else prunedIn rest
termination_by structural trees => trees

/-- Endpoints stay, with what is inside them pruned. -/
def prunedEndpoints : List Tree → List Tree
  | [] => []
  | tree :: rest => tree.pruned :: prunedEndpoints rest
termination_by structural trees => trees

end

mutual

/-- What a lenient walk remarks at a statement and inside it, in the order of the walk. -/
def remarks : Tree → List Remark
  | .graph _ _ _ children => remarksIn children
  | .subgraph _ children => remarksIn children
  | .nodeStmt _ _ => []
  | .edgeStmt endpoints _ => endpointRemarks endpoints
  | .attrStmt target attrs =>
      if target ∈ attrTargets then [] else [⟨false, diagnostic (.attrStmt target attrs)⟩]
  | tree => [⟨false, tree.diagnostic⟩]
termination_by structural tree => tree

def remarksIn : List Tree → List Remark
  | [] => []
  | tree :: rest => tree.remarks ++ remarksIn rest
termination_by structural trees => trees

def endpointRemark : Tree → List Remark
  | .subgraph _ children => remarksIn children
  | .nodeId _ => []
  | tree => [⟨true, tree.diagnostic⟩]
termination_by structural tree => tree

def endpointRemarks : List Tree → List Remark
  | [] => []
  | tree :: rest => tree.endpointRemark ++ endpointRemarks rest
termination_by structural trees => trees

end

theorem diagnostic_pruned (tree : Tree) : tree.pruned.diagnostic = tree.diagnostic := by
  cases tree <;> rfl

theorem remarks_of_not_isStatement {tree : Tree} (skipped : tree.isStatement = false) :
    tree.remarks = [⟨false, tree.diagnostic⟩] := by
  cases tree with
  | attrStmt target attrs => simpa [isStatement, remarks] using skipped
  | graph | subgraph | nodeStmt | edgeStmt => cases skipped
  | _ => rfl

end Tree

/-- The texts of remarks about endpoints. -/
def Remark.endpointTexts (remarks : List Remark) : List String :=
  (remarks.filter Remark.isEndpoint).map Remark.text

@[simp]
theorem Remark.endpointTexts_append (first rest : List Remark) :
    endpointTexts (first ++ rest) = endpointTexts first ++ endpointTexts rest := by
  simp [endpointTexts]

def Model.reporting (model : Model) (diagnostics : List String) : Model :=
  { model with diagnostics }

theorem Model.setRoot_reporting (model : Model) (key : String) (isStrict : Bool)
    (diagnostics : List String) : (model.reporting diagnostics).setRoot key isStrict =
      (model.setRoot key isStrict).reporting diagnostics := by
  have sameRoot : (model.reporting diagnostics).hasOtherRoot key = model.hasOtherRoot key := rfl
  have sameGraphs : (model.reporting diagnostics).graphs = model.graphs := rfl
  simp only [setRoot, sameRoot, sameGraphs]
  split
  · rfl
  · split <;> rfl

/-- A state with other diagnostics and other reports. -/
def WalkState.reporting (state : WalkState) (diagnostics : List String)
    (events : List WalkEvent) : WalkState :=
  { state with model := state.model.reporting diagnostics, events }

namespace Walk

variable {α β : Type} {options : WalkOptions} {remarks remarks' : List Remark}

theorem statement_of_not_isStatement {tree : Tree} (skipped : tree.isStatement = false)
    (parent : Option String) (scope : Scope) :
    statement options parent scope tree = (do skip options tree; return scope) := by
  cases tree with
  | attrStmt target attrs =>
      have isNone : scope.set? target (Attributes.ofAttrs attrs) = none := by
        rw [← Option.not_isSome_iff_eq_none, Scope.set?_isSome]
        simpa [Tree.isStatement] using skipped
      simp only [statement, isNone]
  | graph | subgraph | nodeStmt | edgeStmt => cases skipped
  | _ => rfl

/-- From two states that differ in their diagnostics and reports only, two walks go the same way.
One of them leaves all remarks, and the other one those about endpoints. Both stop where a node
statement has no name. -/
inductive MirrorsAt (walk walk' : Walk α) (remarks : List Remark) (state : WalkState)
    (diagnostics : List String) (events : List WalkEvent) : Prop where
  | through {result : α} {final : WalkState} (events' : List WalkEvent)
      (run : walk.run state = .ok result final)
      (run' : walk'.run (state.reporting diagnostics events) =
        .ok result (final.reporting (diagnostics ++ Remark.endpointTexts remarks) events'))
      (remarked : final.model.diagnostics = state.model.diagnostics ++ remarks.map Remark.text)
  | unnamed {subject : Tree} {final : WalkState} (diagnostics' : List String)
      (events' : List WalkEvent) (run : walk.run state = .error (.unnamed subject) final)
      (run' : walk'.run (state.reporting diagnostics events) =
        .error (.unnamed subject) (final.reporting diagnostics' events'))

def Mirrors (walk walk' : Walk α) (remarks : List Remark) : Prop :=
  ∀ state diagnostics events, MirrorsAt walk walk' remarks state diagnostics events

namespace Mirrors

/-- An operation that remarks nothing and does not look at the diagnostics. -/
theorem silent {walk : Walk α} (goes : ∀ state diagnostics events, ∃ result final events',
    walk.run state = .ok result final ∧
      walk.run (state.reporting diagnostics events) =
        .ok result (final.reporting diagnostics events') ∧
      final.model.diagnostics = state.model.diagnostics) : Mirrors walk walk [] := by
  intro state diagnostics events
  rcases goes state diagnostics events with ⟨result, final, events', run, run', same⟩
  refine .through events' run ?_ (by simpa using same)
  simpa [Remark.endpointTexts] using run'

theorem pure (result : α) : Mirrors (Pure.pure result) (Pure.pure result) [] :=
  silent fun state _ events => ⟨result, state, events, rfl, rfl, rfl⟩

theorem modifyModel {change : Model → Model}
    (deaf : ∀ model diagnostics,
      change (model.reporting diagnostics) = (change model).reporting diagnostics) :
    Mirrors (Walk.modifyModel change) (Walk.modifyModel change) [] := by
  refine silent fun state diagnostics events =>
    ⟨(), { state with model := change state.model }, events, rfl, ?_, ?_⟩
  · simp only [run_modifyModel, WalkState.reporting, deaf]
  · have same := congrArg Model.diagnostics (deaf state.model state.model.diagnostics)
    exact same

theorem bind {walk walk' : Walk α} {next next' : α → Walk β} (early : Mirrors walk walk' remarks)
    (late : ∀ result, Mirrors (next result) (next' result) remarks') :
    Mirrors (walk >>= next) (walk' >>= next') (remarks ++ remarks') := by
  intro state diagnostics events
  cases early state diagnostics events with
  | unnamed diagnostics' events' run run' =>
      exact .unnamed _ _ (run_bind_of_error run next) (run_bind_of_error run' next')
  | @through result middle events' run run' remarked =>
      have first := run_bind_of_ok run next
      have second := run_bind_of_ok run' next'
      cases late result middle _ events' with
      | unnamed diagnostics' events'' behind behind' =>
          exact .unnamed _ _ (first.trans behind) (second.trans behind')
      | through events'' behind behind' remarked' =>
          refine .through events'' (first.trans behind) ?_ ?_
          · simpa using second.trans behind'
          · simpa [remarked] using remarked'

theorem andThen {walk walk' : Walk α} {next next' : α → Walk β} (early : Mirrors walk walk' [])
    (late : ∀ result, Mirrors (next result) (next' result) remarks) :
    Mirrors (walk >>= next) (walk' >>= next') remarks :=
  early.bind late

theorem returning {walk walk' : Walk α} (early : Mirrors walk walk' remarks) (result : α → β) :
    Mirrors (do return result (← walk)) (do return result (← walk')) remarks :=
  List.append_nil remarks ▸ early.bind fun value => pure (result value)

theorem unnamed (subject : Tree) :
    Mirrors (throw (.unnamed subject) : Walk α) (throw (.unnamed subject)) remarks :=
  fun _ diagnostics events => .unnamed diagnostics events rfl rfl

/-- What is left out does nothing but leave its remark. -/
theorem dropped (lenient : options.isStrict = false) (tree : Tree) (result : α) :
    Mirrors (do skip options tree; return result) (Pure.pure result)
      [⟨false, tree.diagnostic⟩] := by
  intro state diagnostics events
  refine .through events (run_bind_of_ok (run_skip_of_lenient lenient tree state) _) ?_ ?_
  · rw [after_skip_of_lenient lenient]
    simp [Remark.endpointTexts]
    rfl
  · rw [after_skip_of_lenient lenient]
    rfl

theorem kept (lenient : options.isStrict = false) {tree tree' : Tree}
    (same : tree'.diagnostic = tree.diagnostic) (result : α) :
    Mirrors (do skip options tree; return result) (do skip options tree'; return result)
      [⟨true, tree.diagnostic⟩] := by
  intro state diagnostics events
  refine .through (events ++ [.skipped tree.diagnostic])
    (run_bind_of_ok (run_skip_of_lenient lenient tree state) _) ?_ ?_
  · rw [run_bind_of_ok (run_skip_of_lenient lenient tree' _), after_skip_of_lenient lenient,
      after_skip_of_lenient lenient, same]
    rfl
  · rw [after_skip_of_lenient lenient]
    rfl

theorem enter (parent id : Option String) :
    Mirrors (Walk.enter options parent id) (Walk.enter options parent id) [] := by
  refine silent fun state diagnostics events => ?_
  have key_eq : entryKey options id (state.reporting diagnostics events) =
      entryKey options id state := by
    cases id <;> rfl
  have number_eq : entryNumber options id (state.reporting diagnostics events) =
      entryNumber options id state := by
    cases id <;> rfl
  simp only [run_enter_eq, key_eq, number_eq]
  have graphs_eq : (state.reporting diagnostics events).model.graphs = state.model.graphs := rfl
  rw [graphs_eq]
  split
  · exact ⟨_, _, _, rfl, rfl, rfl⟩
  · exact ⟨_, _, _, rfl, rfl, rfl⟩

theorem promote (key kind : String) (isStrict : Bool) :
    Mirrors (Walk.promote key kind isStrict) (Walk.promote key kind isStrict) [] := by
  have promoted_eq (model : Model) (diagnostics : List String) :
      promoted key kind isStrict (model.reporting diagnostics) =
        (promoted key kind isStrict model).reporting diagnostics :=
    Model.setRoot_reporting { model with graphs := _ } key isStrict diagnostics
  refine silent fun state diagnostics events => ?_
  simp only [run_promote_eq]
  refine ⟨(), { state with model := promoted key kind isStrict state.model, events := _ },
    events ++ if state.model.hasOtherRoot key then [.ignoredRoot key] else [], rfl, ?_, ?_⟩
  · simp only [WalkState.reporting, promoted_eq]
    rfl
  · have same := congrArg Model.diagnostics (promoted_eq state.model state.model.diagnostics)
    exact same

theorem settle (key : String) (attrs : Attributes) :
    Mirrors (Walk.settle key attrs) (Walk.settle key attrs) [] :=
  modifyModel fun _ _ => rfl

theorem mention (id : String) (attrs defaults : Attributes) (parent : Option String) :
    Mirrors (Walk.mention id attrs defaults parent) (Walk.mention id attrs defaults parent) [] :=
  modifyModel fun _ _ => by cases parent <;> rfl

theorem createEdges (parent : Option String) (edges : List Edge) :
    Mirrors (Walk.createEdges parent edges) (Walk.createEdges parent edges) [] :=
  modifyModel fun _ _ => by cases parent <;> rfl

theorem resolveNode (node : NodeId) (scope : Scope) (parent : Option String) :
    Mirrors (Walk.resolveNode node scope parent) (Walk.resolveNode node scope parent) [] := by
  refine silent fun state diagnostics events => ?_
  simp only [run_resolveNode]
  have nodes_eq : (state.reporting diagnostics events).model.nodes = state.model.nodes := rfl
  rw [nodes_eq]
  split
  · exact ⟨_, state, events, rfl, rfl, rfl⟩
  · refine ⟨_, after (Walk.mention node.id ∅ scope.node parent) state, events, rfl, ?_, ?_⟩ <;>
      cases parent <;> rfl

theorem body (key : String) {inner inner' : Walk Scope} (walked : Mirrors inner inner' remarks)
    {rest : Walk α} (behind : Mirrors rest rest []) :
    Mirrors (do let scope ← inner; Walk.settle key scope.graph; rest)
      (do let scope ← inner'; Walk.settle key scope.graph; rest) remarks :=
  List.append_nil remarks ▸
    walked.bind fun scope => (settle key scope.graph).andThen fun _ => behind

end Mirrors

mutual

/-- A statement that means something is mirrored by what is left of it. -/
theorem statement_mirrors (lenient : options.isStrict = false) : ∀ (tree : Tree)
    (parent : Option String) (scope : Scope), tree.isStatement →
    Mirrors (statement options parent scope tree) (statement options parent scope tree.pruned)
      tree.remarks
  | .graph kind id isStrict children, parent, scope, _ => by
      rw [Tree.pruned, Tree.remarks, statement, statement]
      refine (Mirrors.enter parent id).andThen fun key => ?_
      have walked : Mirrors (do
          let inner ← statements options (some key) scope children
          settle key inner.graph
          return scope) _ _ :=
        .body key (statements_mirrors lenient children (some key) scope) (.pure scope)
      dsimp only
      split
      · exact (Mirrors.promote key kind isStrict).andThen fun _ => walked
      · exact walked
  | .subgraph id children, parent, scope, _ => by
      rw [Tree.pruned, Tree.remarks, statement, statement]
      exact (Mirrors.enter parent id).andThen fun key =>
        .body key (statements_mirrors lenient children (some key) scope) (.pure scope)
  | .nodeStmt subject attrs, parent, scope, _ => by
      change Mirrors _ (statement options parent scope (.nodeStmt subject attrs)) []
      rw [statement]
      cases subject.name? with
      | some id => exact (Mirrors.mention id _ _ parent).returning fun _ => scope
      | none => exact .unnamed subject
  | .edgeStmt chain attrs, parent, scope, _ => by
      rw [Tree.pruned, Tree.remarks, statement, statement]
      have creating (groups : List EndpointGroup) : Mirrors (do
          createEdges parent (edgesAlong (Attributes.ofAttrs attrs) scope.edge groups)
          return scope) _ [] :=
        (Mirrors.createEdges parent _).returning fun _ => scope
      exact List.append_nil (Tree.endpointRemarks chain) ▸
        (endpoints_mirrors lenient chain parent scope).bind creating
  | .attrStmt target attrs, parent, scope, isStatement => by
      have isSome : (scope.set? target (Attributes.ofAttrs attrs)).isSome := by
        rwa [Scope.set?_isSome]
      rcases Option.isSome_iff_exists.mp isSome with ⟨changed, set_eq⟩
      have noRemarks : (Tree.attrStmt target attrs).remarks = [] :=
        if_pos (of_decide_eq_true isStatement)
      simp only [Tree.pruned, noRemarks, statement, set_eq]
      exact .pure changed

/-- What is left of a list of statements mirrors it. -/
theorem statements_mirrors (lenient : options.isStrict = false) : ∀ (trees : List Tree)
    (parent : Option String) (scope : Scope),
    Mirrors (statements options parent scope trees)
      (statements options parent scope (Tree.prunedIn trees)) (Tree.remarksIn trees)
  | [], _, scope => .pure scope
  | tree :: rest, parent, scope => by
      have later (changed : Scope) := statements_mirrors lenient rest parent changed
      rw [Tree.prunedIn, Tree.remarksIn, statements]
      cases means : tree.isStatement with
      | true =>
          rw [if_pos rfl, statements]
          exact (statement_mirrors lenient tree parent scope means).bind later
      | false =>
          -- The scope behind it is the one before it, so the rest goes on as if it was not there.
          have skipped :
              Mirrors (statement options parent scope tree) (pure scope) tree.remarks := by
            rw [statement_of_not_isStatement means, Tree.remarks_of_not_isStatement means]
            exact .dropped lenient tree scope
          rw [if_neg nofun]
          exact skipped.bind later

theorem endpoint_mirrors (lenient : options.isStrict = false) : ∀ (tree : Tree)
    (parent : Option String) (scope : Scope),
    Mirrors (endpoint options parent scope tree) (endpoint options parent scope tree.pruned)
      tree.endpointRemark
  | .subgraph id children, parent, scope => by
      have gathering (key : String) : Mirrors (do
          return ({ nodes := Forest.allNodes (← get).model.graphs key } : EndpointGroup)) _ [] :=
        .silent fun state _ events => ⟨_, state, events, rfl, rfl, rfl⟩
      rw [Tree.pruned, Tree.endpointRemark, endpoint, endpoint]
      exact (Mirrors.enter parent id).andThen fun key =>
        .body key (statements_mirrors lenient children (some key) scope) (gathering key)
  | .nodeId node, parent, scope => .resolveNode node scope parent
  | .graph _ _ _ _, _, _ => .kept lenient (Tree.diagnostic_pruned _) _
  | .nodeStmt _ _, _, _ => .kept lenient (Tree.diagnostic_pruned _) _
  | .edgeStmt _ _, _, _ => .kept lenient (Tree.diagnostic_pruned _) _
  | .attrStmt _ _, _, _ => .kept lenient (Tree.diagnostic_pruned _) _
  | .attr _, _, _ => .kept lenient (Tree.diagnostic_pruned _) _
  | .unknown _ _ _, _, _ => .kept lenient (Tree.diagnostic_pruned _) _
  | .raw _, _, _ => .kept lenient (Tree.diagnostic_pruned _) _
  | .list _, _, _ => .kept lenient (Tree.diagnostic_pruned _) _

theorem endpoints_mirrors (lenient : options.isStrict = false) : ∀ (trees : List Tree)
    (parent : Option String) (scope : Scope),
    Mirrors (endpoints options parent scope trees)
      (endpoints options parent scope (Tree.prunedEndpoints trees)) (Tree.endpointRemarks trees)
  | [], _, _ => .pure []
  | tree :: rest, parent, scope => by
      rw [Tree.prunedEndpoints, Tree.endpointRemarks, endpoints, endpoints]
      exact (endpoint_mirrors lenient tree parent scope).bind fun group =>
        (endpoints_mirrors lenient rest parent scope).returning (group :: ·)

end

end Walk

namespace Model

/-- A lenient walk of a list of statements leaves the same model if everything that it skips is left
out of the list and of all lists of children inside, but for the diagnostics: those that stay are
about endpoints. Where a node statement has no name, both walks stop. -/
theorem walk_prunedIn {options : WalkOptions} (lenient : options.isStrict = false)
    (items : List Tree) :
    let walked := Model.walk options .plain (.list items) ∅
    let pruned := Model.walk options .plain (.list (Tree.prunedIn items)) ∅
    pruned.failure = walked.failure ∧
      pruned.model = { walked.model with diagnostics := pruned.model.diagnostics } ∧
      (walked.failure = none →
        walked.model.diagnostics = (Tree.remarksIn items).map Remark.text ∧
          pruned.model.diagnostics = Remark.endpointTexts (Tree.remarksIn items)) ∧
      (Tree.allNameNodes items → walked.failure = none) := by
  intro walked pruned
  have completes (named : Tree.allNameNodes items) : walked.failure = none := by
    rcases Walk.statements_completes lenient items none ∅ named { model := ∅ } with
      ⟨scope, final, run⟩
    have walked_eq : walked = _ := walkPlain_of_ok run
    rw [walked_eq]
  cases Walk.statements_mirrors lenient items none ∅ { model := ∅ } [] [] with
  | through events run run' remarked =>
      have walked_eq : walked = _ := walkPlain_of_ok run
      have pruned_eq : pruned = _ := walkPlain_of_ok run'
      refine ⟨by rw [walked_eq, pruned_eq], by rw [walked_eq, pruned_eq]; rfl, ?_, completes⟩
      intro _
      rw [walked_eq, pruned_eq]
      exact ⟨remarked, rfl⟩
  | unnamed diagnostics events run run' =>
      have walked_eq : walked = _ := walkPlain_of_error run
      have pruned_eq : pruned = _ := walkPlain_of_error run'
      refine ⟨by rw [walked_eq, pruned_eq], by rw [walked_eq, pruned_eq]; rfl, ?_, completes⟩
      intro goesThrough
      rw [walked_eq] at goesThrough
      cases goesThrough

/-- Unknown targets, values and loose attributes at several depths; only the endpoint counts. -/
theorem walk_prunedIn_of_nested :
    let member (name : String) : Tree := .nodeStmt (.nodeId { id := name }) []
    let items : List Tree := [.raw .null, .subgraph none [.attrStmt "cluster" [], member "a",
      .edgeStmt [.nodeId { id := "a" }, .raw (.text "gap"),
        .subgraph (some "s") [.attr { id := "x" }, member "b"]] []]]
    let kept : List Tree := [.subgraph none [member "a",
      .edgeStmt [.nodeId { id := "a" }, .raw (.text "gap"), .subgraph (some "s") [member "b"]] []]]
    let walked := Model.walk {} .plain (.list items) ∅
    let pruned := Model.walk {} .plain (.list kept) ∅
    pruned.failure = none ∧
      pruned.model = { walked.model with diagnostics := pruned.model.diagnostics } ∧
      walked.model.diagnostics.length = 4 ∧
      pruned.model.diagnostics = ["skipping unrecognized statement: str"] := by
  intro member items kept walked pruned
  have lenient : WalkOptions.isStrict {} = false := rfl
  have kept_eq : Tree.prunedIn items = kept := rfl
  have mirrored := walk_prunedIn lenient items
  rw [kept_eq] at mirrored
  rcases mirrored with ⟨failure_eq, model_eq, diagnostics_eq, completes⟩
  have through := completes rfl
  rcases diagnostics_eq through with ⟨walked_eq, pruned_eq⟩
  refine ⟨failure_eq.trans through, model_eq, ?_, pruned_eq.trans rfl⟩
  rw [walked_eq]
  rfl

end Model

end DotLang
