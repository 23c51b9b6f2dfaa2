import DotLang.Model
import DotLang.Scope

/-!
# Walking a tree into a model

A walk goes through a tree from left to right and records what it says in a
model. Defaults are resolved by position: statements that set defaults change
the scope for what follows in the same body, and each graph or subgraph walks
its body in a scope of its own.

Statements that mean nothing are skipped with a diagnostic. A strict walk stops
at the first of them instead; the model keeps what was recorded before.
-/

namespace DotLang

/-- How a tree is walked. -/
structure WalkOptions where
  /-- Whether the walk stops at a statement that means nothing. -/
  isStrict : Bool := false
  /-- What the keys of subgraphs without id begin with. -/
  anonymousPrefix : String := "__anon"

/-- Why a walk stopped. -/
inductive WalkError where
  /-- A strict walk met a statement that means nothing. -/
  | unrecognized (statement : Tree)
  /-- A node statement is about something without a name. -/
  | unnamed (subject : Tree)

/-- What a walk reports while it goes on. -/
inductive WalkEvent where
  /-- A statement was skipped, with the diagnostic. -/
  | skipped (diagnostic : String)
  /-- A subgraph was entered again. -/
  | reentered (key : String)
  /-- A further graph at the top level did not become the root. -/
  | ignoredRoot (key : String)

/-- What a walk has recorded so far. -/
structure WalkState where
  /-- The model under construction. -/
  model : Model
  /-- The number in the last generated key. -/
  anonymousCount : Nat := 0
  /-- The reports so far. -/
  events : List WalkEvent := []

/-- A step of a walk, which keeps its record even when it stops. -/
abbrev Walk := EStateM WalkError WalkState

namespace Tree

/-- What a skipped tree is called: by its own tag if it has one, or by its type. -/
def skippedKind : Tree → String
  | .graph kind _ _ _ => if kind.isEmpty then "Graph" else kind
  | .unknown kind _ _ => if kind.isTruthy then kind.display else "UnknownStatement"
  | tree => tree.typeName

/-- Why a skipped tree could not be understood, if it is known. -/
def skippedReason : Tree → String
  | .unknown _ _ reason => reason
  | _ => ""

/-- The diagnostic for a skipped tree. -/
def diagnostic (tree : Tree) : String :=
  let message := "skipping unrecognized statement: " ++ tree.skippedKind
  if tree.skippedReason.isEmpty then message else message ++ " (" ++ tree.skippedReason ++ ")"

end Tree

/-- The wording of the reason why a walk stopped. -/
def WalkError.message : WalkError → String
  | .unrecognized statement => statement.diagnostic
  | .unnamed subject => subject.typeName ++ " has no id"

/-- The first number from `start` on that is not taken, if one of the next `fuel` is free. -/
def firstFree (isTaken : Nat → Bool) : (fuel start : Nat) → Nat
  | 0, start => start
  | fuel + 1, start => if isTaken start then firstFree isTaken fuel (start + 1) else start

/-- The generated key with a number. -/
def anonymousKey (anonymousPrefix : String) (number : Nat) : String :=
  anonymousPrefix ++ toString number

/-- The number of the next generated key: the least one above the last whose key is free. As many
numbers as there are subgraphs can be taken, so one more than that is enough to try. -/
def nextAnonymousNumber (anonymousPrefix : String) (graphs : Forest) (last : Nat) : Nat :=
  firstFree (fun number => graphs.contains (anonymousKey anonymousPrefix number))
    (graphs.size + 1) (last + 1)

/-- What an endpoint of an edge statement stands for. -/
structure EndpointGroup where
  /-- The nodes that edges run to and from. -/
  nodes : List String
  /-- The node reference, if the endpoint is one. -/
  reference : Option NodeId := none

/-- The text of a port, with the compass point if there is one. -/
def NodeId.portText? (node : NodeId) : Option String :=
  node.port.map fun port =>
    match node.compass with
    | some compass => port ++ ":" ++ compass
    | none => port

/-- The attribute that says at which port of an endpoint an edge attaches. -/
def EndpointGroup.portAttr (name : String) (group : EndpointGroup) : List (String × Value) :=
  match group.reference.bind NodeId.portText? with
  | some port => [(name, .text port)]
  | none => []

/-- The attributes that say at which ports the edges between two endpoints attach. -/
def portAttrs (tail head : EndpointGroup) : Attributes :=
  OrderedMap.ofList (tail.portAttr "tailport" ++ head.portAttr "headport")

/-- The edges between two neighbouring endpoints: from every node of one to every node of the
other. Listed attributes come first, then ports, then defaults. -/
def edgesBetween (attrs defaults : Attributes) (tail head : EndpointGroup) : List Edge :=
  let resolved := Attributes.fill (Attributes.fill attrs (portAttrs tail head)) defaults
  tail.nodes.flatMap fun tailNode =>
    head.nodes.map fun headNode => { tail := tailNode, head := headNode, attrs := resolved }

/-- The edges along a chain of endpoints. -/
def edgesAlong (attrs defaults : Attributes) : List EndpointGroup → List Edge
  | tail :: head :: rest =>
      edgesBetween attrs defaults tail head ++ edgesAlong attrs defaults (head :: rest)
  | _ => []

namespace Walk

/-- Changes the model. -/
def modifyModel (change : Model → Model) : Walk Unit :=
  modify fun state => { state with model := change state.model }

/-- Reports something. -/
def report (event : WalkEvent) : Walk Unit :=
  modify fun state => { state with events := state.events ++ [event] }

/-- Skips a statement with a diagnostic, or stops at it in a strict walk. -/
def skip (options : WalkOptions) (statement : Tree) : Walk Unit := do
  if options.isStrict then throw (.unrecognized statement)
  report (.skipped statement.diagnostic)
  modifyModel fun model =>
    { model with diagnostics := model.diagnostics ++ [statement.diagnostic] }

/-- Generates the key of a subgraph without id. -/
def generateKey (options : WalkOptions) : Walk String := do
  let state ← get
  let number :=
    nextAnonymousNumber options.anonymousPrefix state.model.graphs state.anonymousCount
  set { state with anonymousCount := number }
  return anonymousKey options.anonymousPrefix number

/-- The forest with a new subgraph below its parent. -/
def plant (graphs : Forest) (parent : Option String) (subgraph : Subgraph) : Forest :=
  let planted := graphs.insert subgraph.key subgraph
  match parent with
  | some parent => Forest.adopt planted parent subgraph.key
  | none => planted

/-- Enters the subgraph with the declared id, or a new one without id, and returns its key. A
subgraph that exists already keeps its parent. -/
def enter (options : WalkOptions) (parent id : Option String) : Walk String := do
  let key ← match id with
    | some id => pure id
    | none => generateKey options
  if (← get).model.graphs.contains key then report (.reentered key)
  else modifyModel fun model => { model with graphs := plant model.graphs parent { key, id } }
  return key

/-- Gives a graph at the top level its kind and tries to make it the root. -/
def promote (key kind : String) (isStrict : Bool) : Walk Unit := do
  modifyModel fun model =>
    { model with graphs := model.graphs.modify key fun subgraph => { subgraph with kind } }
  if (← get).model.hasOtherRoot key then report (.ignoredRoot key)
  else modifyModel fun model => model.setRoot key isStrict

/-- Writes the graph attributes in effect at the end of a body over those of its subgraph. -/
def settle (key : String) (attrs : Attributes) : Walk Unit :=
  modifyModel fun model =>
    { model with graphs := model.graphs.modify key fun subgraph =>
        { subgraph with attrs := subgraph.attrs.override attrs } }

/-- Records a mention of a node: its listed attributes win, the defaults fill what is missing. -/
def mention (id : String) (attrs defaults : Attributes) (parent : Option String) : Walk Unit :=
  modifyModel fun model =>
    let node := (model.nodes.get? id).getD { id }
    let resolved := Attributes.fill (node.attrs.override attrs) defaults
    let mentioned := model.putNode { node with attrs := resolved }
    match parent with
    | some parent => mentioned.addMember parent id
    | none => mentioned

/-- Creates edges inside the enclosing subgraph. -/
def createEdges (parent : Option String) (edges : List Edge) : Walk Unit :=
  modifyModel fun model =>
    let numbers := List.range' model.edges.length edges.length
    let created := model.addEdges edges
    match parent with
    | some parent =>
        { created with graphs := created.graphs.modify parent fun subgraph =>
            { subgraph with edges := subgraph.edges ++ numbers } }
    | none => created

/-- The endpoint that a node reference is. A node that is new here gets the defaults and joins the
enclosing subgraph. -/
def resolveNode (node : NodeId) (scope : Scope) (parent : Option String) : Walk EndpointGroup := do
  if !(← get).model.nodes.contains node.id then mention node.id ∅ scope.node parent
  return { nodes := [node.id], reference := some node }

mutual

/-- Walks a statement inside the subgraph `parent` and returns the scope behind it. -/
def statement (options : WalkOptions) (parent : Option String) (scope : Scope) :
    Tree → Walk Scope
  | .graph kind id isStrict children => do
      let key ← enter options parent id
      if parent.isNone then promote key kind isStrict
      let inner ← statements options (some key) scope children
      settle key inner.graph
      return scope
  | .subgraph id children => do
      let key ← enter options parent id
      let inner ← statements options (some key) scope children
      settle key inner.graph
      return scope
  | .nodeStmt subject attrs =>
      match subject.name? with
      | some id => do
          mention id (Attributes.ofAttrs attrs) scope.node parent
          return scope
      | none => throw (.unnamed subject)
  | .edgeStmt chain attrs => do
      let groups ← endpoints options parent scope chain
      createEdges parent (edgesAlong (Attributes.ofAttrs attrs) scope.edge groups)
      return scope
  | .attrStmt target attrs =>
      match scope.set? target (Attributes.ofAttrs attrs) with
      | some changed => return changed
      | none => do
          skip options (.attrStmt target attrs)
          return scope
  | tree => do
      skip options tree
      return scope
termination_by structural tree => tree

/-- Walks statements one after the other, each in the scope that the one before leaves. -/
def statements (options : WalkOptions) (parent : Option String) (scope : Scope) :
    List Tree → Walk Scope
  | [] => return scope
  | tree :: rest => do
      let changed ← statement options parent scope tree
      statements options parent changed rest
termination_by structural items => items

/-- Resolves an endpoint of an edge statement. A subgraph is walked and stands for all its nodes;
an endpoint that means nothing is skipped and stands for no node. -/
def endpoint (options : WalkOptions) (parent : Option String) (scope : Scope) :
    Tree → Walk EndpointGroup
  | .subgraph id children => do
      let key ← enter options parent id
      let inner ← statements options (some key) scope children
      settle key inner.graph
      return { nodes := Forest.allNodes (← get).model.graphs key }
  | .nodeId node => resolveNode node scope parent
  | tree => do
      skip options tree
      return { nodes := [] }
termination_by structural tree => tree

/-- Resolves the endpoints of an edge statement from left to right. -/
def endpoints (options : WalkOptions) (parent : Option String) (scope : Scope) :
    List Tree → Walk (List EndpointGroup)
  | [] => return []
  | tree :: rest => do
      let group ← endpoint options parent scope tree
      return group :: (← endpoints options parent scope rest)
termination_by structural items => items

end

/-- Walks a whole document outside of any graph: a tree, or a list of trees in one scope. -/
def document (options : WalkOptions) : Tree → Walk Scope
  | .list items => statements options none ∅ items
  | tree => statement options none ∅ tree

end Walk

end DotLang
