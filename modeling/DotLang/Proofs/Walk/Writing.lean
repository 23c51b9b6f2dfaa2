import DotLang.Proofs.Rewalk

/-!
# Writing statements inside a subgraph

Besides subgraphs and its own attributes, the body of a regenerated subgraph
states nodes and edges, one after the other (`Item`). A walk of such statements
writes to one subgraph and to nothing else: the stated nodes join it, and so do
the end points of stated edges that are new (`Writes`). The new members come last
and in the order in which they were stated (`joinAll`).
-/

namespace DotLang

def Edge.ends (edge : Edge) : List String :=
  [edge.tail, edge.head]

namespace Model

/-- The end points of the edges of a subgraph. -/
def endsOf (model : Model) (subgraph : Subgraph) : List String :=
  (model.edgesAt subgraph.edges).flatMap Edge.ends

/-- The nodes that the statements of a subgraph are about. -/
def statedNodes (model : Model) (subgraph : Subgraph) : List String :=
  subgraph.nodes ++ model.endsOf subgraph

theorem edgesAt_last {model : Model} {before edges : List Edge}
    (edges_eq : model.edges = before ++ edges) :
    model.edgesAt (List.range' before.length edges.length) = edges := by
  rw [edgesAt, edges_eq, List.range'_eq_map_range, List.filterMap_map]
  refine Eq.trans (List.filterMap_congr ?_) (edgesAt_range { model with edges })
  intro number _
  change (before ++ edges)[before.length + number]? = edges[number]?
  rw [List.getElem?_append_right (Nat.le_add_right _ _), Nat.add_sub_cancel_left]

end Model

/-! ### Joining a subgraph -/

/-- The members after some nodes have joined, each of them once. -/
def joinAll (members joining : List String) : List String :=
  joining.foldl (fun members node => if node ∈ members then members else members ++ [node]) members

section Joining

variable {members joining : List String}

theorem joinAll_append (members first rest : List String) :
    joinAll members (first ++ rest) = joinAll (joinAll members first) rest :=
  List.foldl_append

theorem joinAll_cons (node : String) (rest : List String) :
    joinAll members (node :: rest) =
      joinAll (if node ∈ members then members else members ++ [node]) rest :=
  rfl

theorem mem_joinAll {node : String} : node ∈ joinAll members joining ↔
    node ∈ members ∨ node ∈ joining := by
  induction joining generalizing members with
  | nil => simp [joinAll]
  | cons first rest ih =>
      rw [joinAll_cons, ih, List.mem_cons]
      split <;> grind

theorem nodup_joinAll (nodup : members.Nodup) : (joinAll members joining).Nodup := by
  induction joining generalizing members with
  | nil => exact nodup
  | cons node rest ih =>
      rw [joinAll_cons]
      apply ih
      split
      · exact nodup
      · next isNew => exact List.concat_eq_append ▸ nodup.concat isNew

/-- Members stay where they are. -/
theorem joinAll_eq_self (known : ∀ node ∈ joining, node ∈ members) :
    joinAll members joining = members := by
  induction joining with
  | nil => rfl
  | cons node rest ih =>
      rw [joinAll_cons, if_pos (known node List.mem_cons_self)]
      exact ih fun other other_mem => known other (List.mem_cons_of_mem node other_mem)

theorem joinAll_eq_append (nodup : (members ++ joining).Nodup) :
    joinAll members joining = members ++ joining := by
  induction joining generalizing members with
  | nil => exact (List.append_nil members).symm
  | cons node rest ih =>
      rw [List.append_cons] at nodup
      have isNew : node ∉ members := by
        intro known
        exact (List.nodup_append.mp nodup.of_append_left).2.2 node known node
          (List.mem_singleton_self node) rfl
      rw [joinAll_cons, if_neg isNew, ih nodup, List.append_assoc, List.singleton_append]

/-- Whether members are among those that join does not matter. -/
theorem joinAll_filter {keeps : String → Bool}
    (known : ∀ node ∈ joining, keeps node = false → node ∈ members) :
    joinAll members (joining.filter keeps) = joinAll members joining := by
  induction joining generalizing members with
  | nil => rfl
  | cons node rest ih =>
      rw [joinAll_cons, List.filter_cons]
      cases kept : keeps node with
      | true =>
          rw [if_pos rfl, joinAll_cons]
          apply ih
          intro other other_mem dropped
          have isKnown := known other (List.mem_cons_of_mem node other_mem) dropped
          split
          · exact isKnown
          · exact List.mem_append_left _ isKnown
      | false =>
          rw [if_neg Bool.false_ne_true, if_pos (known node List.mem_cons_self kept)]
          exact ih fun other other_mem => known other (List.mem_cons_of_mem node other_mem)

/-- What becomes known with a member makes no difference. -/
theorem joinAll_unknown {known later : List String} (joining : List String)
    (grows : known ⊆ later) (covered : ∀ node ∈ later, node ∈ known ∨ node ∈ members) :
    joinAll members (joining.filter (· ∉ later)) =
      joinAll members (joining.filter (· ∉ known)) := by
  have filter_eq : joining.filter (· ∉ later) =
      (joining.filter (· ∉ known)).filter (· ∉ later) := by
    rw [List.filter_filter]
    apply List.filter_congr
    intro node _
    have known_later : node ∈ known → node ∈ later := fun isKnown => grows isKnown
    by_cases isLater : node ∈ later <;> simp_all
  rw [filter_eq]
  apply joinAll_filter
  intro node node_mem isLater
  have isNew : node ∉ known := by simpa using (List.mem_filter.mp node_mem).2
  exact (covered node (by simpa using isLater)).resolve_left isNew

end Joining

theorem Subgraph.nodes_addNode (subgraph : Subgraph) (node : String) :
    (subgraph.addNode node).nodes = joinAll subgraph.nodes [node] := by
  rw [addNode, joinAll, List.foldl_cons, List.foldl_nil]
  split <;> rfl

/-! ### Items -/

/-- A node or an edge as it is stated in a regenerated tree. -/
inductive Item where
  | mention (id : String)
  | connect (edge : Edge)

namespace Item

/-- The nodes that an item is about. -/
def nodes : Item → List String
  | .mention id => [id]
  | .connect edge => edge.ends

def edge? : Item → Option Edge
  | .mention _ => none
  | .connect edge => some edge

/-- The nodes that join a subgraph when an item is stated in it. End points that are known already
do not. -/
def joining (known : List String) : Item → List String
  | .mention id => [id]
  | .connect edge => edge.ends.filter (· ∉ known)

theorem joinAll_joining {known later members : List String} (items : List Item)
    (grows : known ⊆ later) (covered : ∀ node ∈ later, node ∈ known ∨ node ∈ members) :
    joinAll members (items.flatMap (joining later)) =
      joinAll members (items.flatMap (joining known)) := by
  induction items generalizing members with
  | nil => rfl
  | cons item rest ih =>
      have here : joinAll members (item.joining later) = joinAll members (item.joining known) := by
        cases item with
        | mention id => rfl
        | connect edge => exact joinAll_unknown edge.ends grows covered
      rw [List.flatMap_cons, List.flatMap_cons, joinAll_append, joinAll_append, here]
      apply ih
      intro node node_mem
      exact (covered node node_mem).imp_right fun member => mem_joinAll.mpr (Or.inl member)

theorem mem_joining_of_new {known : List String} {item : Item} {node : String}
    (node_mem : node ∈ item.nodes) (isNew : node ∉ known) : node ∈ item.joining known := by
  cases item with
  | mention id => exact node_mem
  | connect edge => exact List.mem_filter.mpr ⟨node_mem, by simpa using isNew⟩

end Item

namespace Model

/-- What the statements of a subgraph are about, apart from its attributes. -/
def items (model : Model) (subgraph : Subgraph) : List Item :=
  subgraph.nodes.map .mention ++ (model.edgesAt subgraph.edges).map .connect

/-- The statement of an item. -/
def restatedItem (model : Model) : Item → Tree
  | .mention id => model.restatedNode id
  | .connect edge => restatedEdge edge

theorem restatedOwn_eq (model : Model) (subgraph : Subgraph) :
    model.restatedOwn subgraph =
      (model.items subgraph).map model.restatedItem ++ restatedAttrs subgraph.attrs := by
  rw [restatedOwn, items, List.map_append, List.map_map, List.map_map]
  rfl

theorem nodes_items (model : Model) (subgraph : Subgraph) :
    (model.items subgraph).flatMap Item.nodes = model.statedNodes subgraph := by
  simp [items, statedNodes, endsOf, Item.nodes, List.flatMap_append, List.flatMap_map]

theorem edges_items (model : Model) (subgraph : Subgraph) :
    (model.items subgraph).filterMap Item.edge? = model.edgesAt subgraph.edges := by
  simp [items, List.filterMap_append, List.filterMap_map, Function.comp_def, Item.edge?]

theorem joining_items (model : Model) (subgraph : Subgraph) (known : List String) :
    (model.items subgraph).flatMap (Item.joining known) =
      subgraph.nodes ++ (model.endsOf subgraph).filter (· ∉ known) := by
  simp [items, endsOf, Item.joining, List.flatMap_append, List.flatMap_map, List.filter_flatMap]

end Model

namespace Walk

variable {options : WalkOptions} {model : Model} {key : String} {state : WalkState}

/-- Between two states nodes have been mentioned and edges created inside the subgraph `key`, and
some of the nodes have joined it. -/
structure Writes (options : WalkOptions) (key : String) (joined mentioned : List String)
    (edges : List Edge) (before later : WalkState) : Prop where
  steps : Steps options before later
  keys_eq : later.model.graphs.keys = before.model.graphs.keys
  others : ∀ handle, handle ≠ key →
    later.model.graphs.get? handle = before.model.graphs.get? handle
  own : ∀ old, before.model.graphs.get? key = some old →
    ∃ new, later.model.graphs.get? key = some new ∧ new.SamePlace old ∧ new.attrs = old.attrs ∧
      new.edges = old.edges ++ List.range' before.model.edges.length edges.length ∧
      new.nodes = joinAll old.nodes joined
  nodes : ∀ node, node ∈ later.model.nodes.keys ↔ node ∈ before.model.nodes.keys ∨ node ∈ mentioned
  edges_eq : later.model.edges = before.model.edges ++ edges
  root_eq : later.model.root = before.model.root

namespace Writes

variable {joined mentioned joined' mentioned' : List String} {edges edges' : List Edge}
  {before middle later : WalkState}

theorem refl (state : WalkState) : Writes options key [] [] [] state state where
  steps := .refl
  keys_eq := rfl
  others _ _ := rfl
  own old found := ⟨old, found, ⟨rfl, rfl, rfl, rfl⟩, rfl, by simp, rfl⟩
  nodes := by simp
  edges_eq := (List.append_nil _).symm
  root_eq := rfl

theorem trans (early : Writes options key joined mentioned edges before middle)
    (late : Writes options key joined' mentioned' edges' middle later) :
    Writes options key (joined ++ joined') (mentioned ++ mentioned') (edges ++ edges') before
      later where
  steps := early.steps.trans late.steps
  keys_eq := late.keys_eq.trans early.keys_eq
  others handle differs := (late.others handle differs).trans (early.others handle differs)
  own := by
    intro old found
    rcases early.own old found with ⟨first, firstFound, place, attrs, numbers, nodes⟩
    rcases late.own first firstFound with ⟨new, newFound, place', attrs', numbers', nodes'⟩
    refine ⟨new, newFound, ?_, attrs'.trans attrs, ?_, ?_⟩
    · exact ⟨place'.key.trans place.key, place'.id.trans place.id,
        place'.children.trans place.children, place'.parent.trans place.parent⟩
    · rw [numbers', numbers, early.edges_eq, List.append_assoc, List.length_append,
        List.length_append, List.range'_append_1]
    · rw [nodes', nodes, joinAll_append]
  nodes := by
    intro node
    rw [late.nodes, early.nodes, List.mem_append, or_assoc]
  edges_eq := by rw [late.edges_eq, early.edges_eq, List.append_assoc]
  root_eq := late.root_eq.trans early.root_eq

theorem congr (writes : Writes options key joined mentioned edges before later)
    (sameJoined : ∀ members, joinAll members joined' = joinAll members joined)
    (sameMentioned : ∀ node, node ∈ before.model.nodes.keys ∨ node ∈ mentioned' ↔
      node ∈ before.model.nodes.keys ∨ node ∈ mentioned) :
    Writes options key joined' mentioned' edges before later where
  steps := writes.steps
  keys_eq := writes.keys_eq
  others := writes.others
  own := by
    intro old found
    rcases writes.own old found with ⟨new, newFound, place, attrs, numbers, nodes⟩
    exact ⟨new, newFound, place, attrs, numbers, nodes.trans (sameJoined old.nodes).symm⟩
  nodes node := (writes.nodes node).trans (sameMentioned node).symm
  edges_eq := writes.edges_eq
  root_eq := writes.root_eq

theorem keys_subset (writes : Writes options key joined mentioned edges before later) :
    before.model.nodes.keys ⊆ later.model.nodes.keys :=
  fun node known => (writes.nodes node).mpr (Or.inl known)

/-- If new nodes join, then what becomes known has joined. -/
theorem known_or_joined (writes : Writes options key joined mentioned edges before later)
    (joins : ∀ node ∈ mentioned, node ∉ before.model.nodes.keys → node ∈ joined)
    (members : List String) : ∀ node ∈ later.model.nodes.keys,
      node ∈ before.model.nodes.keys ∨ node ∈ joinAll members joined := by
  intro node node_mem
  by_cases known : node ∈ before.model.nodes.keys
  · exact Or.inl known
  · have isMentioned := ((writes.nodes node).mp node_mem).resolve_left known
    exact Or.inr (mem_joinAll.mpr (Or.inr (joins node isMentioned known)))

theorem listed (writes : Writes options key joined mentioned edges before later)
    {handle : String} (listed : handle ∈ before.model.graphs.keys) :
    handle ∈ later.model.graphs.keys := by
  rw [writes.keys_eq]
  exact listed

end Writes

theorem writes_mention (wellFormed : state.model.WellFormed)
    (listed : key ∈ state.model.graphs.keys) (id : String) (attrs defaults : Attributes) :
    Writes options key [id] [id] [] state (after (mention id attrs defaults (some key)) state) where
  steps := .single (.mention id attrs defaults (some key) (enclosed_some listed))
  keys_eq := by rw [graphs_after_mention, OrderedMap.keys_modify]
  others handle differs := by rw [graphs_after_mention, OrderedMap.get?_modify, if_neg differs]
  own := by
    intro old found
    refine ⟨old.addNode id, ?_, old.addNode_samePlace id, ?_, by simp, old.nodes_addNode id⟩
    · rw [graphs_after_mention, OrderedMap.get?_modify, if_pos rfl, found, Option.map_some]
    · rw [Subgraph.addNode]
      split <;> rfl
  nodes := by
    intro node
    have id_eq : ((state.model.nodes.get? id).getD { id }).id = id := by
      cases found : state.model.nodes.get? id with
      | none => rfl
      | some old => exact wellFormed.node_id found
    rw [nodes_after_mention, OrderedMap.mem_keys_insert, id_eq, or_comm, List.mem_singleton]
  edges_eq := (List.append_nil _).symm
  root_eq := rfl

/-- An endpoint joins if it is a new node. -/
theorem writes_resolved (wellFormed : state.model.WellFormed)
    (listed : key ∈ state.model.graphs.keys) (id : String) (defaults : Attributes) :
    Writes options key ([id].filter (· ∉ state.model.nodes.keys)) [id] [] state
      (resolved defaults (some key) state id) := by
  rw [resolved]
  split
  · next known =>
      have nobody : [id].filter (· ∉ state.model.nodes.keys) = [] := by simpa using known
      refine (Writes.refl state).congr (fun members => by rw [nobody]) fun node => ?_
      simp only [List.mem_singleton, List.not_mem_nil, or_false, or_iff_left_iff_imp]
      rintro rfl
      exact known
  · next isNew =>
      have joins : [id].filter (· ∉ state.model.nodes.keys) = [id] := by simpa using isNew
      rw [joins]
      exact writes_mention wellFormed listed id ∅ defaults

theorem writes_createEdges (edges : List Edge) (listed : key ∈ state.model.graphs.keys)
    (known : ∀ edge ∈ edges,
      edge.tail ∈ state.model.nodes.keys ∧ edge.head ∈ state.model.nodes.keys) :
    Writes options key [] [] edges state (after (createEdges (some key) edges) state) := by
  let numbers := List.range' state.model.edges.length edges.length
  have graphs_eq : (after (createEdges (some key) edges) state).model.graphs =
      state.model.graphs.modify key fun subgraph =>
        { subgraph with edges := subgraph.edges ++ numbers } := rfl
  constructor
  case steps =>
    exact .single (.createEdges (some key) edges (enclosed_some listed) fun edge edge_mem =>
      ⟨Or.inl (known edge edge_mem).1, Or.inl (known edge edge_mem).2⟩)
  case keys_eq => rw [graphs_eq, OrderedMap.keys_modify]
  case others =>
    intro handle differs
    rw [graphs_eq, OrderedMap.get?_modify, if_neg differs]
  case own =>
    intro old found
    refine ⟨{ old with edges := old.edges ++ numbers }, ?_, ⟨rfl, rfl, rfl, rfl⟩, rfl, rfl, rfl⟩
    rw [graphs_eq, OrderedMap.get?_modify, if_pos rfl, found, Option.map_some]
  case nodes =>
    intro node
    rw [nodes_after_createEdges]
    simp
  case edges_eq => rfl
  case root_eq => rfl

theorem run_statements_append {parent : Option String} {scope between behind : Scope}
    {first rest : List Tree} {middle final : WalkState}
    (run : (statements options parent scope first).run state = .ok between middle)
    (run' : (statements options parent between rest).run middle = .ok behind final) :
    (statements options parent scope (first ++ rest)).run state = .ok behind final := by
  rw [statements_append, EStateM.run_bind, run]
  exact run'

/-- Between two states some items have been stated inside the subgraph `key`. -/
abbrev WritesItems (options : WalkOptions) (key : String) (items : List Item)
    (before later : WalkState) : Prop :=
  Writes options key (items.flatMap (Item.joining before.model.nodes.keys))
    (items.flatMap Item.nodes) (items.filterMap Item.edge?) before later

/-- What the first items make known has joined by then. -/
theorem WritesItems.trans {items items' : List Item} {before middle later : WalkState}
    (early : WritesItems options key items before middle)
    (late : WritesItems options key items' middle later) :
    WritesItems options key (items ++ items') before later := by
  have both := Writes.trans early late
  rw [← List.flatMap_append, ← List.filterMap_append] at both
  refine both.congr (fun members => ?_) fun _ => Iff.rfl
  rw [List.flatMap_append, joinAll_append, joinAll_append]
  refine (Item.joinAll_joining items' early.keys_subset (early.known_or_joined ?_ members)).symm
  intro node stated isNew
  rcases List.mem_flatMap.mp stated with ⟨item, item_mem, about⟩
  exact List.mem_flatMap.mpr ⟨item, item_mem, Item.mem_joining_of_new about isNew⟩

theorem writes_item (wellFormed : state.model.WellFormed)
    (listed : key ∈ state.model.graphs.keys) {scope : Scope} (noDefaults : scope.edge = ∅)
    (item : Item) :
    ∃ final, (statement options (some key) scope (model.restatedItem item)).run state =
        .ok scope final ∧ WritesItems options key [item] state final := by
  cases item with
  | mention id =>
      exact ⟨_, rfl, writes_mention wellFormed listed id
        (Attributes.ofAttrs (model.attrsAt (.node id)).listed) scope.node⟩
  | connect edge =>
      let nodes : List NodeId := [{ id := edge.tail }, { id := edge.head }]
      have edges_eq : chainEdges scope nodes edge.attrs.listed = [edge] := by
        rw [chainEdges, noDefaults, Attributes.ofAttrs_listed]
        rfl
      have run := @run_edgeStmt options (some key) state scope nodes edge.attrs.listed
      rw [edges_eq] at run
      let known := (nodes.map NodeId.id).foldl (resolved scope.node (some key)) state
      have tail : Writes options key _ _ [] state _ :=
        writes_resolved wellFormed listed edge.tail scope.node
      have ends : Writes options key _ _ [] state known :=
        tail.trans (writes_resolved (tail.steps.wellFormed wellFormed) (tail.listed listed)
          edge.head scope.node)
      have created := @writes_createEdges options key known [edge] (ends.listed listed) <| by
        intro other other_mem
        rw [List.mem_singleton.mp other_mem, ends.nodes, ends.nodes]
        simp
      refine ⟨_, run, (ends.trans created).congr (fun members => ?_) fun node => ?_⟩
      · have ends_eq : [Item.connect edge].flatMap (Item.joining state.model.nodes.keys) =
            [edge.tail].filter (· ∉ state.model.nodes.keys) ++
              [edge.head].filter (· ∉ state.model.nodes.keys) := by
          rw [List.flatMap_singleton, ← List.filter_append]
          rfl
        rw [ends_eq, List.append_nil, joinAll_append, joinAll_append]
        refine (joinAll_unknown [edge.head] tail.keys_subset
          (tail.known_or_joined ?_ members)).symm
        exact fun node isTail isNew => List.mem_filter.mpr ⟨isTail, by simpa using isNew⟩
      · simp [Item.nodes, Edge.ends]

theorem writes_items (wellFormed : state.model.WellFormed)
    (listed : key ∈ state.model.graphs.keys) {scope : Scope} (noDefaults : scope.edge = ∅)
    (items : List Item) :
    ∃ final, (statements options (some key) scope (items.map model.restatedItem)).run state =
        .ok scope final ∧ WritesItems options key items state final := by
  induction items generalizing state with
  | nil => exact ⟨state, rfl, .refl state⟩
  | cons item rest ih =>
      rcases @writes_item options model key state wellFormed listed scope noDefaults item with
        ⟨middle, run, here⟩
      rcases ih (here.steps.wellFormed wellFormed) (here.listed listed) with ⟨final, run', later⟩
      refine ⟨final, ?_, WritesItems.trans here later⟩
      rw [List.map_cons, statements, EStateM.run_bind, run]
      exact run'

end Walk

end DotLang
