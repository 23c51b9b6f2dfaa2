import DotLang.Proofs.Walk.Mentions
import Mathlib.Algebra.GroupWithZero.Nat
import Mathlib.Data.List.ProdSigma

/-!
# Expansion of edge statements

An edge statement resolves its endpoints from left to right and then creates its
edges all at once: from each node that an endpoint stands for to each node of the
next one (`run_edgeStmt_expands`). What a subgraph stands for is taken at the
moment when its body has just been walked, so that bodies of later endpoints do
not count, although they may add members to it.

All edges between the same two endpoints have the same attributes. What is listed
in the statement counts first, then the ports of the two endpoints, and the
defaults come last.
-/

namespace DotLang

namespace Tree

def reference? : Tree → Option NodeId
  | .nodeId node => some node
  | _ => none

/-- The port at which edges attach to an endpoint. -/
def port? (endpoint : Tree) : Option Value :=
  (endpoint.reference?.bind NodeId.portText?).map .text

end Tree

/-- The value of an attribute of an edge that comes from the ports of its endpoints. -/
def portValue? (tail head : Tree) (name : String) : Option Value :=
  if name = "tailport" then tail.port?
  else if name = "headport" then head.port?
  else none

/-- A value unless it is null. -/
def Value.nonNull? (value : Option Value) : Option Value :=
  value.filter fun value => !value.isNull

/-- The value of an attribute of the edges between two endpoints: what is listed last, unless it is
null, or a port, or the default. Null is left where one of them is there without a value. -/
def edgeValue? (attrs : List Attr) (defaults : Attributes) (tail head : Tree) (name : String) :
    Option Value :=
  let listed := Mention.lastValue? name attrs
  let default := defaults.get? name
  (Value.nonNull? listed).or <| (portValue? tail head name).or <|
    (Value.nonNull? default).or <| (listed.or default).map fun _ => .null

theorem Value.nonNull?_cases (value : Option Value) :
    value = none ∨ value = some .null ∨
      ∃ content : Value, value = some content ∧ content.isNull = false ∧
        nonNull? value = some content := by
  rcases value with _ | content
  · simp
  · cases isNull : content.isNull with
    | true => cases content <;> simp_all [Value.isNull]
    | false => exact Or.inr (Or.inr ⟨content, rfl, isNull, by simp [nonNull?, isNull]⟩)

@[simp]
theorem Value.nonNull?_none : nonNull? none = none :=
  rfl

@[simp]
theorem Value.nonNull?_null : nonNull? (some .null) = none :=
  rfl

@[simp]
theorem Value.isNull_null : Value.null.isNull = true :=
  rfl

/-- What an endpoint comes to, given the nodes that it stands for. -/
def EndpointGroup.ofStop (stop : Tree × List String) : EndpointGroup :=
  { nodes := stop.2, reference := stop.1.reference? }

theorem get?_portAttrs (tail head : Tree × List String) (name : String) :
    (portAttrs (.ofStop tail) (.ofStop head)).get? name = portValue? tail.1 head.1 name := by
  simp only [portAttrs, EndpointGroup.portAttr, EndpointGroup.ofStop, portValue?, Tree.port?,
    OrderedMap.get?_ofList]
  cases tail.1.reference?.bind NodeId.portText? <;>
    cases head.1.reference?.bind NodeId.portText? <;>
    by_cases isTail : name = "tailport" <;> by_cases isHead : name = "headport" <;>
    simp [isTail, isHead, OrderedMap.lookup_cons_eq_ite]

theorem isNull_eq_false_of_portValue? {tail head : Tree} {name : String} {port : Value}
    (found : portValue? tail head name = some port) : port.isNull = false := by
  have isText {endpoint : Tree} (found : endpoint.port? = some port) : port.isNull = false := by
    rcases Option.map_eq_some_iff.mp found with ⟨text, _, rfl⟩
    rfl
  simp only [portValue?] at found
  split_ifs at found
  · exact isText found
  · exact isText found

/-- Attributes of an edge are filled in twice, from the ports and from the defaults. -/
theorem get?_edgeAttrs (attrs : List Attr) (defaults : Attributes) (tail head : Tree × List String)
    (name : String) :
    (Attributes.fill (Attributes.fill (Attributes.ofAttrs attrs)
        (portAttrs (.ofStop tail) (.ofStop head))) defaults).get? name =
      edgeValue? attrs defaults tail.1 head.1 name := by
  simp only [Attributes.fill, OrderedMap.get?_fill, Attributes.get?_ofAttrs, get?_portAttrs,
    edgeValue?]
  generalize Mention.lastValue? name attrs = listed
  generalize defaults.get? name = default
  cases found : portValue? tail.1 head.1 name with
  | some port =>
      have notNull := isNull_eq_false_of_portValue? found
      rcases Value.nonNull?_cases listed with rfl | rfl | ⟨content, rfl, isNull, nonNull⟩
      · simp [notNull]
      · simp [notNull]
      · simp [isNull, nonNull]
  | none =>
      rcases Value.nonNull?_cases listed with rfl | rfl | ⟨content, rfl, isNull, nonNull⟩ <;>
        rcases Value.nonNull?_cases default with rfl | rfl | ⟨content', rfl, isNull', nonNull'⟩ <;>
        simp_all

theorem edgesAlong_eq_flatMap (attrs defaults : Attributes) (groups : List EndpointGroup) :
    edgesAlong attrs defaults groups =
      (groups.zip groups.tail).flatMap fun (tail, head) =>
        edgesBetween attrs defaults tail head := by
  induction groups with
  | nil => rfl
  | cons tail rest ih =>
      cases rest with
      | nil => rfl
      | cons head rest => simpa [edgesAlong] using ih

theorem edgesBetween_eq_product (attrs defaults : Attributes) (tail head : EndpointGroup) :
    edgesBetween attrs defaults tail head =
      (tail.nodes ×ˢ head.nodes).map fun (tailNode, headNode) =>
        { tail := tailNode
          head := headNode
          attrs := Attributes.fill (Attributes.fill attrs (portAttrs tail head)) defaults } := by
  simp [edgesBetween, SProd.sprod, List.product, List.map_flatMap, Function.comp_def]

namespace Walk

variable {options : WalkOptions} {parent : Option String} {scope : Scope}

/-- The nodes that an endpoint stands for when it is resolved: all members of a subgraph as the
walk of its body leaves it. -/
def endpointNodes (options : WalkOptions) (parent : Option String) (scope : Scope)
    (state : WalkState) : Tree → List String
  | .subgraph id children =>
      let walked := after (statement options parent scope (.subgraph id children)) state
      walked.model.graphs.allNodes (entryKey options id state)
  | .nodeId node => [node.id]
  | _ => []

/-- The nodes that the endpoints of a chain stand for, each when it is its turn. -/
def chainNodes (options : WalkOptions) (parent : Option String) (scope : Scope) :
    WalkState → List Tree → List (List String)
  | _, [] => []
  | state, tree :: rest =>
      endpointNodes options parent scope state tree ::
        chainNodes options parent scope (after (endpoint options parent scope tree) state) rest

/-- An endpoint that is a subgraph is walked like a statement. -/
theorem run_endpoint_subgraph (id : Option String) (children : List Tree) (state : WalkState) :
    (endpoint options parent scope (.subgraph id children)).run state =
      match (statement options parent scope (.subgraph id children)).run state with
      | .ok _ final =>
          .ok { nodes := final.model.graphs.allNodes (entryKey options id state) } final
      | .error error final => .error error final := by
  simp only [endpoint, statement, EStateM.run_bind, run_enter]
  cases (statements options _ scope children).run _ <;> rfl

theorem run_endpoint (lenient : options.isStrict = false) {tree : Tree} (named : tree.namesNodes)
    (state : WalkState) :
    (endpoint options parent scope tree).run state =
      .ok (.ofStop (tree, endpointNodes options parent scope state tree))
        (after (endpoint options parent scope tree) state) := by
  have skipped (other : Tree) :
      (do skip options other; return ({ nodes := [] } : EndpointGroup) : Walk EndpointGroup).run
          state = .ok { nodes := [] } (after (skip options other) state) := by
    exact run_bind_of_ok (run_skip_of_lenient lenient other state) _
  cases tree with
  | subgraph id children =>
      rcases statement_completes lenient _ parent scope named state with ⟨changed, final, run⟩
      simp only [after, run_endpoint_subgraph, run, endpointNodes]
      rfl
  | nodeId node =>
      simp only [endpoint, after, run_resolveNode, endpointNodes, EndpointGroup.ofStop,
        Tree.reference?]
  | _ =>
      simp only [endpoint, after, skipped, endpointNodes, EndpointGroup.ofStop, Tree.reference?]

/-- Every endpoint of a chain is resolved in the state that the ones before it leave. -/
theorem run_endpointChain (lenient : options.isStrict = false) {chain : List Tree}
    (named : Tree.allNameNodes chain) (state : WalkState) :
    (endpoints options parent scope chain).run state =
      .ok ((chain.zip (chainNodes options parent scope state chain)).map .ofStop)
        (after (endpoints options parent scope chain) state) := by
  induction chain generalizing state with
  | nil => rfl
  | cons tree rest ih =>
      simp only [Tree.allNameNodes, Bool.and_eq_true] at named
      have first : (endpoint options parent scope tree).run state = _ :=
        run_endpoint lenient named.1 state
      have later := ih named.2 (after (endpoint options parent scope tree) state)
      -- The state behind the first endpoint is named, as the rest of the chain starts from it.
      have run_eq : (endpoints options parent scope (tree :: rest)).run state =
          .ok (((tree :: rest).zip (chainNodes options parent scope state (tree :: rest))).map
            .ofStop) (after (endpoints options parent scope rest)
              (after (endpoint options parent scope tree) state)) := by
        rw [endpoints, run_bind_of_ok first]
        exact run_bind_of_ok later _
      simp only [after, run_eq]

/-- An edge statement resolves its endpoints one after the other and then creates an edge from every
node of an endpoint to every node of the next one, in this order. An attribute of these edges is
what is listed last in the statement, or a port of the two endpoints, or the default. -/
theorem run_edgeStmt_expands (lenient : options.isStrict = false) (parent : Option String)
    (scope : Scope) (state : WalkState) {chain : List Tree} {attrs : List Attr}
    (named : (Tree.edgeStmt chain attrs).namesNodes) :
    let resolved := after (endpoints options parent scope chain) state
    let stops := chain.zip (chainNodes options parent scope state chain)
    let neighbours := stops.zip stops.tail
    ∃ (created : List Edge) (attrsOf : Tree → Tree → Attributes) (final : WalkState),
      (statement options parent scope (.edgeStmt chain attrs)).run state = .ok scope final ∧
        final = after (createEdges parent created) resolved ∧
        final.model.edges = resolved.model.edges ++ created ∧
        created = neighbours.flatMap (fun (tail, head) =>
          (tail.2 ×ˢ head.2).map fun (tailNode, headNode) =>
            { tail := tailNode, head := headNode, attrs := attrsOf tail.1 head.1 }) ∧
        created.length =
          (neighbours.map fun (tail, head) => tail.2.length * head.2.length).sum ∧
        ∀ tail head name,
          (attrsOf tail head).get? name = edgeValue? attrs scope.edge tail head name := by
  intro resolved stops neighbours
  let attrsOf (tail head : Tree) : Attributes :=
    Attributes.fill (Attributes.fill (Attributes.ofAttrs attrs)
      (portAttrs (.ofStop (tail, [])) (.ofStop (head, [])))) scope.edge
  let created := edgesAlong (Attributes.ofAttrs attrs) scope.edge (stops.map .ofStop)
  have created_eq : created = neighbours.flatMap fun (tail, head) =>
      (tail.2 ×ˢ head.2).map fun (tailNode, headNode) =>
        { tail := tailNode, head := headNode, attrs := attrsOf tail.1 head.1 } := by
    simp only [created, edgesAlong_eq_flatMap, ← List.map_tail, List.zip_map, List.flatMap_map,
      edgesBetween_eq_product]
    rfl
  refine ⟨created, attrsOf, after (createEdges parent created) resolved, ?_, rfl, ?_, created_eq,
    ?_, ?_⟩
  · rw [statement]
    exact run_bind_of_ok (run_endpointChain lenient named state) _
  · cases parent <;> rfl
  · rw [created_eq]
    simp [List.length_flatMap, List.length_product]
  · exact fun tail head name => get?_edgeAttrs attrs scope.edge (tail, []) (head, []) name

/-- The last endpoint adds a member to the subgraph that is also the first one. The listed null
takes back a value and lets the default in. -/
theorem run_edgeStmt_expands_of_repeated_subgraph :
    let body (name : String) : List Tree := [.nodeStmt (.nodeId { id := name }) []]
    let first : Tree := .subgraph (some "s") (body "x")
    let middle : Tree := .nodeId { id := "a", port := some "p", compass := some "n" }
    let last : Tree := .subgraph (some "s") (body "y")
    let chain : List Tree := [first, middle, last, .raw .null]
    let attrs : List Attr := [⟨"color", .text "red"⟩, ⟨"color", .null⟩, ⟨"label", .null⟩]
    let scope : Scope := { edge := .ofAttrs [⟨"color", .text "blue"⟩, ⟨"tailport", .text "q"⟩] }
    let names : List String := ["color", "label", "tailport", "headport"]
    ∃ final, (statement {} none scope (.edgeStmt chain attrs)).run { model := ∅ } =
        .ok scope final ∧
      final.model.edges.map Edge.key = [("x", "a"), ("a", "x"), ("a", "y")] ∧
      final.model.edges.map (fun edge => names.map edge.attrs.get?) =
        [[some (.text "blue"), some .null, some (.text "q"), some (.text "p:n")],
          [some (.text "blue"), some .null, some (.text "p:n"), none],
          [some (.text "blue"), some .null, some (.text "p:n"), none]] := by
  intro body first middle last chain attrs scope names
  have lenient : WalkOptions.isStrict {} = false := rfl
  have named : (Tree.edgeStmt chain attrs).namesNodes = true := rfl
  rcases run_edgeStmt_expands lenient none scope { model := ∅ } named with
    ⟨created, attrsOf, final, run, _, edges_eq, created_eq, _, values⟩
  have nodes_eq : chainNodes {} none scope { model := ∅ } chain =
      [["x"], ["a"], ["x", "y"], []] := by
    decide +kernel
  have noEdges : (after (endpoints {} none scope chain) { model := ∅ }).model.edges.length = 0 := by
    decide +kernel
  have final_eq : final.model.edges =
      [{ tail := "x", head := "a", attrs := attrsOf first middle },
        { tail := "a", head := "x", attrs := attrsOf middle last },
        { tail := "a", head := "y", attrs := attrsOf middle last }] := by
    rw [edges_eq, created_eq, List.eq_nil_of_length_eq_zero noEdges, nodes_eq]
    rfl
  refine ⟨final, run, ?_, ?_⟩
  · simp only [final_eq]
    rfl
  · simp only [final_eq, names, List.map_cons, List.map_nil, values]
    rfl

end Walk

end DotLang
