import DotLang.Proofs.Walk.Completion

/-!
# Strict and lenient walks

A strict walk and a lenient one differ only at a statement that means nothing:
the first stops there and the second goes on with a diagnostic. Whether a walk
meets such a statement can be seen from the tree (`isUnderstood`). So the two
walks are the same and report nothing if all of the tree is understood;
otherwise the strict one stops and the lenient one leaves a diagnostic
(`document_agree`).
-/

namespace DotLang

namespace Tree

mutual

/-- Whether a walk of the statement skips nothing. -/
def isUnderstood : Tree → Bool
  | .graph _ _ _ children => allUnderstood children
  | .subgraph _ children => allUnderstood children
  | .nodeStmt _ _ => true
  | .edgeStmt endpoints _ => allUnderstoodEndpoints endpoints
  | .attrStmt target _ => target ∈ attrTargets
  | _ => false
termination_by structural tree => tree

def allUnderstood : List Tree → Bool
  | [] => true
  | tree :: rest => tree.isUnderstood && allUnderstood rest
termination_by structural trees => trees

/-- Whether resolving an endpoint skips nothing. -/
def isUnderstoodEndpoint : Tree → Bool
  | .subgraph _ children => allUnderstood children
  | .nodeId _ => true
  | _ => false
termination_by structural tree => tree

def allUnderstoodEndpoints : List Tree → Bool
  | [] => true
  | tree :: rest => tree.isUnderstoodEndpoint && allUnderstoodEndpoints rest
termination_by structural trees => trees

end

/-- Whether a walk of the whole document skips nothing. -/
def isUnderstoodDocument : Tree → Bool
  | .list items => allUnderstood items
  | tree => tree.isUnderstood

end Tree

theorem Scope.set?_isSome (scope : Scope) (target : String) (attrs : Attributes) :
    (scope.set? target attrs).isSome = decide (target ∈ Tree.attrTargets) := by
  rw [set?, Tree.attrTargets]
  split_ifs <;> simp_all

namespace Walk

variable {α β : Type}

/-- Two walks are the same and report nothing if everything is understood. Otherwise the first one
stops at what it does not understand, and the second goes on with a diagnostic. -/
def Agree (isUnderstood : Bool) (strict lenient : Walk α) : Prop :=
  ∀ state, ∃ result final, lenient.run state = .ok result final ∧
    (isUnderstood = true → strict.run state = .ok result final ∧
      final.model.diagnostics = state.model.diagnostics) ∧
    (isUnderstood = false →
      (∃ tree stopped, strict.run state = .error (.unrecognized tree) stopped) ∧
        state.model.diagnostics.length < final.model.diagnostics.length)

namespace Agree

/-- A walk that goes through and reports nothing. -/
theorem quiet {walk : Walk α} (through : ∀ state, ∃ result final,
    walk.run state = .ok result final ∧ final.model.diagnostics = state.model.diagnostics) :
    Agree true walk walk := by
  intro state
  rcases through state with ⟨result, final, run, same⟩
  exact ⟨result, final, run, fun _ => ⟨run, same⟩, fun impossible => nomatch impossible⟩

theorem pure (result : α) : Agree true (Pure.pure result) (Pure.pure result) :=
  quiet fun state => ⟨result, state, rfl, rfl⟩

theorem modifyModel {change : Model → Model}
    (same : ∀ model, (change model).diagnostics = model.diagnostics) :
    Agree true (Walk.modifyModel change) (Walk.modifyModel change) :=
  quiet fun state => ⟨(), _, run_modifyModel change state, same state.model⟩

theorem bind {first second : Bool} {strict lenient : Walk α} {next next' : α → Walk β}
    (early : Agree first strict lenient)
    (late : ∀ result, Agree second (next result) (next' result)) :
    Agree (first && second) (strict >>= next) (lenient >>= next') := by
  intro state
  rcases early state with ⟨result, middle, run, understood, skipped⟩
  rcases late result middle with ⟨result', final, run', understood', skipped'⟩
  refine ⟨result', final, ?_, ?_, ?_⟩
  · rw [EStateM.run_bind, run]
    exact run'
  · intro both
    rw [Bool.and_eq_true] at both
    rcases understood both.1 with ⟨strictRun, same⟩
    rcases understood' both.2 with ⟨strictRun', same'⟩
    rw [EStateM.run_bind, strictRun]
    exact ⟨strictRun', same'.trans same⟩
  · intro notBoth
    cases first with
    | false =>
        rcases skipped rfl with ⟨⟨tree, stopped, strictRun⟩, more⟩
        refine ⟨⟨tree, stopped, by rw [EStateM.run_bind, strictRun]⟩, ?_⟩
        cases second with
        | false => exact Nat.lt_trans more (skipped' rfl).2
        | true => exact (understood' rfl).2 ▸ more
    | true =>
        rcases understood rfl with ⟨strictRun, same⟩
        rcases skipped' notBoth with ⟨⟨tree, stopped, strictRun'⟩, more⟩
        refine ⟨⟨tree, stopped, ?_⟩, same ▸ more⟩
        rw [EStateM.run_bind, strictRun]
        exact strictRun'

theorem skip (anonymousPrefix : String) (tree : Tree) :
    Agree false (Walk.skip { isStrict := true, anonymousPrefix } tree)
      (Walk.skip { isStrict := false, anonymousPrefix } tree) := by
  intro state
  refine ⟨(), _, run_skip_of_lenient rfl tree state, ?_, ?_⟩
  · exact fun impossible => nomatch impossible
  · refine fun _ => ⟨⟨tree, state, by simp [Walk.skip]⟩, ?_⟩
    rw [model_after_skip]
    simp

theorem enter (anonymousPrefix : String) (parent id : Option String) :
    Agree true (Walk.enter { isStrict := true, anonymousPrefix } parent id)
      (Walk.enter { isStrict := false, anonymousPrefix } parent id) := by
  apply quiet
  intro state
  refine ⟨_, _, run_enter parent id state, ?_⟩
  rw [model_after_enter]
  dsimp only
  split <;> rfl

theorem promote (key kind : String) (isStrict : Bool) :
    Agree true (Walk.promote key kind isStrict) (Walk.promote key kind isStrict) := by
  apply quiet
  intro state
  refine ⟨(), _, run_promote key kind isStrict state, ?_⟩
  rw [model_after_promote, promoted, Model.setRoot]
  split
  · rfl
  · split <;> rfl

theorem mention (id : String) (attrs defaults : Attributes) (parent : Option String) :
    Agree true (Walk.mention id attrs defaults parent) (Walk.mention id attrs defaults parent) :=
  modifyModel fun _ => by cases parent <;> rfl

theorem createEdges (parent : Option String) (edges : List Edge) :
    Agree true (Walk.createEdges parent edges) (Walk.createEdges parent edges) :=
  modifyModel fun _ => by cases parent <;> rfl

theorem resolveNode (node : NodeId) (scope : Scope) (parent : Option String) :
    Agree true (Walk.resolveNode node scope parent) (Walk.resolveNode node scope parent) := by
  apply quiet
  intro state
  refine ⟨_, _, run_resolveNode node scope parent state, ?_⟩
  split
  · rfl
  · cases parent <;> rfl

theorem body {isUnderstood : Bool} (key : String) {strict lenient : Walk Scope} {rest : Walk α}
    (walked : Agree isUnderstood strict lenient) (second : Agree true rest rest) :
    Agree isUnderstood (do let inner ← strict; settle key inner.graph; rest)
      (do let inner ← lenient; settle key inner.graph; rest) := by
  have settled (inner : Scope) : Agree true (settle key inner.graph) (settle key inner.graph) :=
    modifyModel fun _ => rfl
  simpa only [Bool.and_true] using walked.bind fun inner => (settled inner).bind fun _ => second

theorem skipped (anonymousPrefix : String) (tree : Tree) (result : α) :
    Agree false (do Walk.skip { isStrict := true, anonymousPrefix } tree; return result)
      (do Walk.skip { isStrict := false, anonymousPrefix } tree; return result) :=
  (skip anonymousPrefix tree).bind fun _ => pure result

end Agree

variable (anonymousPrefix : String)

mutual

theorem statement_agree : ∀ (tree : Tree) (parent : Option String) (scope : Scope),
    tree.namesNodes → Agree tree.isUnderstood
      (statement { isStrict := true, anonymousPrefix } parent scope tree)
      (statement { isStrict := false, anonymousPrefix } parent scope tree)
  | .graph kind id isStrict children, parent, scope, named => by
      rw [Tree.namesNodes] at named
      rw [statement, statement, Tree.isUnderstood]
      refine (Agree.enter anonymousPrefix parent id).bind fun key => ?_
      have walked := Agree.body key (statements_agree children (some key) scope named)
        (.pure scope)
      dsimp only
      split
      · exact (Agree.promote key kind isStrict).bind fun _ => walked
      · exact walked
  | .subgraph id children, parent, scope, named => by
      rw [Tree.namesNodes] at named
      rw [statement, statement, Tree.isUnderstood]
      exact (Agree.enter anonymousPrefix parent id).bind fun key =>
        .body key (statements_agree children (some key) scope named) (.pure scope)
  | .nodeStmt subject attrs, parent, scope, named => by
      rw [Tree.namesNodes, Option.isSome_iff_exists] at named
      rcases named with ⟨id, id_eq⟩
      rw [statement, statement, Tree.isUnderstood, id_eq]
      exact (Agree.mention id _ scope.node parent).bind fun _ => .pure scope
  | .edgeStmt chain attrs, parent, scope, named => by
      rw [Tree.namesNodes] at named
      rw [statement, statement, Tree.isUnderstood]
      have created (groups : List EndpointGroup) :=
        (Agree.createEdges parent (edgesAlong (Attributes.ofAttrs attrs) scope.edge groups)).bind
          fun _ => .pure scope
      simpa only [Bool.and_true] using (endpoints_agree chain parent scope named).bind created
  | .attrStmt target attrs, parent, scope, _ => by
      rw [statement, statement, Tree.isUnderstood,
        ← scope.set?_isSome target (Attributes.ofAttrs attrs)]
      cases scope.set? target (Attributes.ofAttrs attrs) with
      | some changed => exact .pure changed
      | none => exact .skipped anonymousPrefix _ scope
  | .nodeId _, _, scope, _ => .skipped anonymousPrefix _ scope
  | .attr _, _, scope, _ => .skipped anonymousPrefix _ scope
  | .unknown _ _ _, _, scope, _ => .skipped anonymousPrefix _ scope
  | .raw _, _, scope, _ => .skipped anonymousPrefix _ scope
  | .list _, _, scope, _ => .skipped anonymousPrefix _ scope

theorem statements_agree : ∀ (trees : List Tree) (parent : Option String) (scope : Scope),
    Tree.allNameNodes trees → Agree (Tree.allUnderstood trees)
      (statements { isStrict := true, anonymousPrefix } parent scope trees)
      (statements { isStrict := false, anonymousPrefix } parent scope trees)
  | [], _, scope, _ => .pure scope
  | tree :: rest, parent, scope, named => by
      rw [Tree.allNameNodes, Bool.and_eq_true] at named
      rw [statements, statements, Tree.allUnderstood]
      exact (statement_agree tree parent scope named.1).bind fun changed =>
        statements_agree rest parent changed named.2

theorem endpoint_agree : ∀ (tree : Tree) (parent : Option String) (scope : Scope),
    tree.namesNodes → Agree tree.isUnderstoodEndpoint
      (endpoint { isStrict := true, anonymousPrefix } parent scope tree)
      (endpoint { isStrict := false, anonymousPrefix } parent scope tree)
  | .subgraph id children, parent, scope, named => by
      rw [Tree.namesNodes] at named
      rw [endpoint, endpoint, Tree.isUnderstoodEndpoint]
      refine (Agree.enter anonymousPrefix parent id).bind fun key => ?_
      exact .body key (statements_agree children (some key) scope named)
        (.quiet fun state => ⟨_, state, rfl, rfl⟩)
  | .nodeId node, parent, scope, _ => .resolveNode node scope parent
  | .graph _ _ _ _, _, _, _ => .skipped anonymousPrefix _ _
  | .nodeStmt _ _, _, _, _ => .skipped anonymousPrefix _ _
  | .edgeStmt _ _, _, _, _ => .skipped anonymousPrefix _ _
  | .attrStmt _ _, _, _, _ => .skipped anonymousPrefix _ _
  | .attr _, _, _, _ => .skipped anonymousPrefix _ _
  | .unknown _ _ _, _, _, _ => .skipped anonymousPrefix _ _
  | .raw _, _, _, _ => .skipped anonymousPrefix _ _
  | .list _, _, _, _ => .skipped anonymousPrefix _ _

theorem endpoints_agree : ∀ (trees : List Tree) (parent : Option String) (scope : Scope),
    Tree.allNameNodes trees → Agree (Tree.allUnderstoodEndpoints trees)
      (endpoints { isStrict := true, anonymousPrefix } parent scope trees)
      (endpoints { isStrict := false, anonymousPrefix } parent scope trees)
  | [], _, _, _ => .pure []
  | tree :: rest, parent, scope, named => by
      rw [Tree.allNameNodes, Bool.and_eq_true] at named
      rw [endpoints, endpoints, Tree.allUnderstoodEndpoints]
      have later (group : EndpointGroup) :=
        (endpoints_agree rest parent scope named.2).bind fun groups => .pure (group :: groups)
      simpa only [Bool.and_true] using (endpoint_agree tree parent scope named.1).bind later

end

/-- Walked strictly or leniently, a document comes to the same unless something in it is skipped,
at which the strict walk stops. -/
theorem document_agree (tree : Tree) (named : tree.namesNodes) :
    Agree tree.isUnderstoodDocument (document { isStrict := true, anonymousPrefix } tree)
      (document { isStrict := false, anonymousPrefix } tree) := by
  cases tree with
  | list items =>
      rw [Tree.namesNodes] at named
      exact statements_agree anonymousPrefix items none ∅ named
  | _ => exact statement_agree anonymousPrefix _ none ∅ named

end Walk

end DotLang
