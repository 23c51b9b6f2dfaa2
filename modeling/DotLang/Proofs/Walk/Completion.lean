import DotLang.Proofs.Walk.Step

/-!
# Walks that go through

A walk stops for two reasons only: it is strict and meets a statement that means
nothing, or it meets a node statement about something without a name. So a
lenient walk goes through every tree whose node statements name their nodes
(`walkPlain_completes`).
-/

namespace DotLang

namespace Tree

mutual

/-- Whether every node statement names its node. Typed trees do so, as their node statements are
about node references. -/
def namesNodes : Tree → Bool
  | .graph _ _ _ children => allNameNodes children
  | .subgraph _ children => allNameNodes children
  | .nodeStmt subject _ => subject.name?.isSome
  | .edgeStmt endpoints _ => allNameNodes endpoints
  | .list items => allNameNodes items
  | _ => true
termination_by structural tree => tree

/-- Whether the node statements in all trees of a list name their nodes. -/
def allNameNodes : List Tree → Bool
  | [] => true
  | tree :: rest => tree.namesNodes && allNameNodes rest
termination_by structural trees => trees

end

end Tree

namespace Walk

variable {α β : Type} {options : WalkOptions}

/-- A walk goes through from every state. -/
def Completes (walk : Walk α) : Prop :=
  ∀ state, ∃ result final, walk.run state = .ok result final

namespace Completes

theorem pure (result : α) : Completes (Pure.pure result) :=
  fun state => ⟨result, state, rfl⟩

theorem bind {walk : Walk α} {next : α → Walk β} (first : Completes walk)
    (second : ∀ result, Completes (next result)) : Completes (walk >>= next) := by
  intro state
  rcases first state with ⟨result, middle, run⟩
  rcases second result middle with ⟨result', final, run'⟩
  refine ⟨result', final, ?_⟩
  rw [EStateM.run_bind, run]
  exact run'

theorem skip (lenient : options.isStrict = false) (tree : Tree) :
    Completes (Walk.skip options tree) :=
  fun state => ⟨_, _, run_skip_of_lenient lenient tree state⟩

theorem enter (parent id : Option String) : Completes (Walk.enter options parent id) :=
  fun state => ⟨_, _, run_enter parent id state⟩

theorem promote (key kind : String) (isStrict : Bool) :
    Completes (Walk.promote key kind isStrict) :=
  fun state => ⟨_, _, run_promote key kind isStrict state⟩

theorem resolveNode (node : NodeId) (scope : Scope) (parent : Option String) :
    Completes (Walk.resolveNode node scope parent) :=
  fun state => ⟨_, _, run_resolveNode node scope parent state⟩

theorem modifyModel (change : Model → Model) : Completes (Walk.modifyModel change) :=
  fun state => ⟨_, _, run_modifyModel change state⟩

end Completes

mutual

theorem statement_completes (lenient : options.isStrict = false) : ∀ (tree : Tree)
    (parent : Option String) (scope : Scope),
    tree.namesNodes → Completes (statement options parent scope tree)
  | .graph kind id isStrict children, parent, scope, named => by
      rw [Tree.namesNodes] at named
      rw [statement]
      refine (Completes.enter parent id).bind fun key => ?_
      have body : Completes (do
          let inner ← statements options (some key) scope children
          settle key inner.graph
          return scope) :=
        (statements_completes lenient children (some key) scope named).bind fun inner =>
          (Completes.modifyModel _).bind fun _ => .pure scope
      dsimp only
      split
      · exact (Completes.promote key kind isStrict).bind fun _ => body
      · exact body
  | .subgraph id children, parent, scope, named => by
      rw [Tree.namesNodes] at named
      rw [statement]
      exact (Completes.enter parent id).bind fun key =>
        (statements_completes lenient children (some key) scope named).bind fun inner =>
          (Completes.modifyModel _).bind fun _ => .pure scope
  | .nodeStmt subject attrs, parent, scope, named => by
      rw [Tree.namesNodes, Option.isSome_iff_exists] at named
      rcases named with ⟨id, id_eq⟩
      rw [statement, id_eq]
      exact (Completes.modifyModel _).bind fun _ => .pure scope
  | .edgeStmt chain attrs, parent, scope, named => by
      rw [Tree.namesNodes] at named
      rw [statement]
      exact (endpoints_completes lenient chain parent scope named).bind fun groups =>
        (Completes.modifyModel _).bind fun _ => .pure scope
  | .attrStmt target attrs, parent, scope, _ => by
      rw [statement]
      split
      · exact .pure _
      · exact (Completes.skip lenient _).bind fun _ => .pure scope
  | .nodeId _, _, scope, _ => (Completes.skip lenient _).bind fun _ => .pure scope
  | .attr _, _, scope, _ => (Completes.skip lenient _).bind fun _ => .pure scope
  | .unknown _ _ _, _, scope, _ => (Completes.skip lenient _).bind fun _ => .pure scope
  | .raw _, _, scope, _ => (Completes.skip lenient _).bind fun _ => .pure scope
  | .list _, _, scope, _ => (Completes.skip lenient _).bind fun _ => .pure scope

theorem statements_completes (lenient : options.isStrict = false) : ∀ (trees : List Tree)
    (parent : Option String) (scope : Scope),
    Tree.allNameNodes trees → Completes (statements options parent scope trees)
  | [], _, scope, _ => .pure scope
  | tree :: rest, parent, scope, named => by
      rw [Tree.allNameNodes, Bool.and_eq_true] at named
      rw [statements]
      exact (statement_completes lenient tree parent scope named.1).bind fun changed =>
        statements_completes lenient rest parent changed named.2

theorem endpoint_completes (lenient : options.isStrict = false) : ∀ (tree : Tree)
    (parent : Option String) (scope : Scope),
    tree.namesNodes → Completes (endpoint options parent scope tree)
  | .subgraph id children, parent, scope, named => by
      rw [Tree.namesNodes] at named
      rw [endpoint]
      exact (Completes.enter parent id).bind fun key =>
        (statements_completes lenient children (some key) scope named).bind fun inner =>
          (Completes.modifyModel _).bind fun _ => fun state => ⟨_, state, rfl⟩
  | .nodeId node, parent, scope, _ => .resolveNode node scope parent
  | .graph _ _ _ _, _, _, _ => (Completes.skip lenient _).bind fun _ => .pure _
  | .nodeStmt _ _, _, _, _ => (Completes.skip lenient _).bind fun _ => .pure _
  | .edgeStmt _ _, _, _, _ => (Completes.skip lenient _).bind fun _ => .pure _
  | .attrStmt _ _, _, _, _ => (Completes.skip lenient _).bind fun _ => .pure _
  | .attr _, _, _, _ => (Completes.skip lenient _).bind fun _ => .pure _
  | .unknown _ _ _, _, _, _ => (Completes.skip lenient _).bind fun _ => .pure _
  | .raw _, _, _, _ => (Completes.skip lenient _).bind fun _ => .pure _
  | .list _, _, _, _ => (Completes.skip lenient _).bind fun _ => .pure _

theorem endpoints_completes (lenient : options.isStrict = false) : ∀ (trees : List Tree)
    (parent : Option String) (scope : Scope),
    Tree.allNameNodes trees → Completes (endpoints options parent scope trees)
  | [], _, _, _ => .pure []
  | tree :: rest, parent, scope, named => by
      rw [Tree.allNameNodes, Bool.and_eq_true] at named
      rw [endpoints]
      exact (endpoint_completes lenient tree parent scope named.1).bind fun group =>
        (endpoints_completes lenient rest parent scope named.2).bind fun groups => .pure _

end

theorem document_completes (lenient : options.isStrict = false) (tree : Tree)
    (named : tree.namesNodes) : Completes (document options tree) := by
  cases tree with
  | list items =>
      rw [Tree.namesNodes] at named
      exact statements_completes lenient items none ∅ named
  | _ => exact statement_completes lenient _ none ∅ named

end Walk

/-- A lenient walk goes through every tree whose node statements name their nodes. -/
theorem Model.walkPlain_completes {options : WalkOptions} (lenient : options.isStrict = false)
    {tree : Tree} (named : tree.namesNodes) (model : Model) :
    (model.walkPlain options tree).failure = none := by
  rcases Walk.document_completes lenient tree named { model } with ⟨scope, final, run⟩
  rw [walkPlain, run]

end DotLang
