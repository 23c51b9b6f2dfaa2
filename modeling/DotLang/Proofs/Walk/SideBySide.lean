import DotLang.Proofs.Walk.Step

/-!
# Walks side by side

Walks of the same tree under two options perform the same operations until one of
them does something else. So a relation between walks that holds of the single
operations, and is kept when walks go on, holds of the walks of any tree
(`Relates.document`).
-/

namespace DotLang

namespace Walk

/-- A relation that holds of the single operations of walks under two options and is kept when
walks go on. -/
structure Relates (options options' : WalkOptions)
    (related : ∀ {α : Type}, Walk α → Walk α → Prop) : Prop where
  pure : ∀ {α : Type} (result : α), related (pure result) (pure result)
  bind : ∀ {α β : Type} {walk walk' : Walk α} {next next' : α → Walk β}, related walk walk' →
    (∀ result, related (next result) (next' result)) → related (walk >>= next) (walk' >>= next')
  get : related get get
  unnamed : ∀ {α : Type} (subject : Tree),
    related (throw (.unnamed subject) : Walk α) (throw (.unnamed subject))
  skip : ∀ tree : Tree, related (Walk.skip options tree) (Walk.skip options' tree)
  enter : ∀ parent id : Option String,
    related (Walk.enter options parent id) (Walk.enter options' parent id)
  promote : ∀ (key kind : String) (isStrict : Bool),
    related (Walk.promote key kind isStrict) (Walk.promote key kind isStrict)
  settle : ∀ (key : String) (attrs : Attributes),
    related (Walk.settle key attrs) (Walk.settle key attrs)
  mention : ∀ (id : String) (attrs defaults : Attributes) (parent : Option String),
    related (Walk.mention id attrs defaults parent) (Walk.mention id attrs defaults parent)
  createEdges : ∀ (parent : Option String) (edges : List Edge),
    related (Walk.createEdges parent edges) (Walk.createEdges parent edges)

namespace Relates

variable {α : Type} {options options' : WalkOptions}
  {related : ∀ {α : Type}, Walk α → Walk α → Prop}

theorem skipped (relates : Relates options options' related) (tree : Tree) (result : α) :
    related (do Walk.skip options tree; return result)
      (do Walk.skip options' tree; return result) :=
  relates.bind (relates.skip tree) fun _ => relates.pure result

/-- Bodies are related if what is walked in them is, and what comes behind them. -/
theorem body (relates : Relates options options' related) (key : String)
    {inner inner' : Walk Scope} {rest rest' : Walk α} (walked : related inner inner')
    (behind : related rest rest') :
    related (do let scope ← inner; Walk.settle key scope.graph; rest)
      (do let scope ← inner'; Walk.settle key scope.graph; rest') :=
  relates.bind walked fun scope => relates.bind (relates.settle key scope.graph) fun _ => behind

theorem resolveNode (relates : Relates options options' related) (node : NodeId) (scope : Scope)
    (parent : Option String) :
    related (Walk.resolveNode node scope parent) (Walk.resolveNode node scope parent) := by
  let group : EndpointGroup := { nodes := [node.id], reference := some node }
  have resolved : related (Pure.pure group) (Pure.pure group) := relates.pure group
  refine relates.bind relates.get fun state => ?_
  dsimp only
  split
  · exact relates.bind (relates.mention node.id ∅ scope.node parent) fun _ => resolved
  · exact resolved

mutual

theorem statement (relates : Relates options options' related) : ∀ (tree : Tree)
    (parent : Option String) (scope : Scope),
    related (Walk.statement options parent scope tree) (Walk.statement options' parent scope tree)
  | .graph kind id isStrict children, parent, scope => by
      rw [Walk.statement, Walk.statement]
      refine relates.bind (relates.enter parent id) fun key => ?_
      have walked := relates.body key (statements relates children (some key) scope)
        (relates.pure scope)
      dsimp only
      split
      · exact relates.bind (relates.promote key kind isStrict) fun _ => walked
      · exact walked
  | .subgraph id children, parent, scope => by
      rw [Walk.statement, Walk.statement]
      exact relates.bind (relates.enter parent id) fun key =>
        relates.body key (statements relates children (some key) scope) (relates.pure scope)
  | .nodeStmt subject attrs, parent, scope => by
      rw [Walk.statement, Walk.statement]
      cases subject.name? with
      | some id => exact relates.bind (relates.mention id _ _ parent) fun _ => relates.pure scope
      | none => exact relates.unnamed subject
  | .edgeStmt chain attrs, parent, scope => by
      rw [Walk.statement, Walk.statement]
      exact relates.bind (endpoints relates chain parent scope) fun groups =>
        relates.bind (relates.createEdges parent _) fun _ => relates.pure scope
  | .attrStmt target attrs, parent, scope => by
      rw [Walk.statement, Walk.statement]
      cases scope.set? target (Attributes.ofAttrs attrs) with
      | some changed => exact relates.pure changed
      | none => exact relates.skipped _ scope
  | .nodeId _, _, scope => relates.skipped _ scope
  | .attr _, _, scope => relates.skipped _ scope
  | .unknown _ _ _, _, scope => relates.skipped _ scope
  | .raw _, _, scope => relates.skipped _ scope
  | .list _, _, scope => relates.skipped _ scope
termination_by structural tree => tree

theorem statements (relates : Relates options options' related) : ∀ (trees : List Tree)
    (parent : Option String) (scope : Scope),
    related (Walk.statements options parent scope trees)
      (Walk.statements options' parent scope trees)
  | [], _, scope => relates.pure scope
  | tree :: rest, parent, scope => by
      rw [Walk.statements, Walk.statements]
      exact relates.bind (statement relates tree parent scope) fun changed =>
        statements relates rest parent changed
termination_by structural trees => trees

theorem endpoint (relates : Relates options options' related) : ∀ (tree : Tree)
    (parent : Option String) (scope : Scope),
    related (Walk.endpoint options parent scope tree) (Walk.endpoint options' parent scope tree)
  | .subgraph id children, parent, scope => by
      rw [Walk.endpoint, Walk.endpoint]
      refine relates.bind (relates.enter parent id) fun key => ?_
      exact relates.body key (statements relates children (some key) scope)
        (relates.bind relates.get fun _ => relates.pure _)
  | .nodeId node, parent, scope => relates.resolveNode node scope parent
  | .graph _ _ _ _, _, _ => relates.skipped _ _
  | .nodeStmt _ _, _, _ => relates.skipped _ _
  | .edgeStmt _ _, _, _ => relates.skipped _ _
  | .attrStmt _ _, _, _ => relates.skipped _ _
  | .attr _, _, _ => relates.skipped _ _
  | .unknown _ _ _, _, _ => relates.skipped _ _
  | .raw _, _, _ => relates.skipped _ _
  | .list _, _, _ => relates.skipped _ _
termination_by structural tree => tree

theorem endpoints (relates : Relates options options' related) : ∀ (trees : List Tree)
    (parent : Option String) (scope : Scope),
    related (Walk.endpoints options parent scope trees) (Walk.endpoints options' parent scope trees)
  | [], _, _ => relates.pure []
  | tree :: rest, parent, scope => by
      rw [Walk.endpoints, Walk.endpoints]
      exact relates.bind (endpoint relates tree parent scope) fun group =>
        relates.bind (endpoints relates rest parent scope) fun groups =>
          relates.pure (group :: groups)
termination_by structural trees => trees

end

/-- Walks of a whole document are related. -/
theorem document (relates : Relates options options' related) (tree : Tree) :
    related (Walk.document options tree) (Walk.document options' tree) := by
  cases tree with
  | list items => exact relates.statements items none ∅
  | _ => exact relates.statement _ none ∅

end Relates

end Walk

end DotLang
