import DotLang.Proofs.Walk.Step

/-!
# Models that fit together

Two invariants of models. A model is well formed if its tables fit together:
the subgraphs are nested, nodes stand under their names and the root is a listed
subgraph. Everything that can be done to a model keeps this. A model is resolved
if moreover all nodes that it speaks of exist and every edge belongs to one
subgraph at most. Walks keep this, but a caller who adds an edge between nodes
that do not exist breaks it.

Each invariant is shown to survive a single step of a walk. What such a step can do to the edges
and subgraphs of a model is said once, in `Model.Evolves`.
-/

namespace DotLang

/-- Two subgraphs with the same names and the same place in the forest. -/
structure Subgraph.SamePlace (left right : Subgraph) : Prop where
  key : left.key = right.key
  id : left.id = right.id
  children : left.children = right.children
  parent : left.parent = right.parent

theorem Subgraph.addNode_samePlace (subgraph : Subgraph) (node : String) :
    (subgraph.addNode node).SamePlace subgraph := by
  rw [addNode]
  split <;> exact ⟨rfl, rfl, rfl, rfl⟩

theorem Subgraph.mem_nodes_addNode {subgraph : Subgraph} {node other : String} :
    other ∈ (subgraph.addNode node).nodes ↔ other = node ∨ other ∈ subgraph.nodes := by
  rw [addNode]
  split
  · next node_mem =>
      constructor
      · exact Or.inr
      · rintro (rfl | other_mem)
        · exact node_mem
        · exact other_mem
  · simp [or_comm]

@[simp]
theorem Subgraph.edges_addNode (subgraph : Subgraph) (node : String) :
    (subgraph.addNode node).edges = subgraph.edges := by
  rw [addNode]
  split <;> rfl

/-- What holds of all values of a map still holds after one of them is changed so that it does. -/
theorem OrderedMap.forall_get?_modify {κ α : Type} [DecidableEq κ] (property : κ → α → Prop)
    {map : OrderedMap κ α} {key : κ} {change : α → α}
    (holds : ∀ {other value}, map.get? other = some value → property other value)
    (keeps : ∀ {value}, map.get? key = some value → property key (change value))
    {other : κ} {value : α} (found : (map.modify key change).get? other = some value) :
    property other value := by
  rw [get?_modify] at found
  split at found
  · next same =>
      rcases Option.map_eq_some_iff.mp found with ⟨old, oldFound, rfl⟩
      subst same
      exact keeps oldFound
  · exact holds found

/-- What holds of all subgraphs, whatever their children, still holds after one is planted. -/
theorem Walk.forall_get?_plant (property : String → Subgraph → Prop) {graphs : Forest}
    {parent : Option String} {subgraph : Subgraph} (nested : graphs.Nested)
    (absent : subgraph.key ∉ graphs.keys)
    (parentListed : ∀ handle ∈ parent, handle ∈ graphs.keys)
    (holds : ∀ {handle old children}, graphs.get? handle = some old →
      property handle { old with children })
    (fresh : property subgraph.key { subgraph with parent := parent.or subgraph.parent })
    {handle : String} {new : Subgraph}
    (found : (plant graphs parent subgraph).get? handle = some new) :
    property handle new := by
  rw [get?_plant nested absent parentListed] at found
  split at found
  · next same =>
      cases found
      exact same ▸ fresh
  · split at found
    · rcases Option.map_eq_some_iff.mp found with ⟨old, oldFound, rfl⟩
      exact holds oldFound
    · exact holds found

namespace Model

/-- The tables of a model fit together. -/
structure WellFormed (model : Model) : Prop where
  /-- The subgraphs form a forest. -/
  nested : model.graphs.Nested
  /-- A node stands under its own name. -/
  node_id : ∀ {id node}, model.nodes.get? id = some node → node.id = id
  /-- The root is listed, and its declared id is the id of the model. -/
  root_id : ∀ {root}, model.root = some root →
    ∃ subgraph, model.graphs.get? root = some subgraph ∧ model.id = subgraph.id

/-- Subgraphs list edges that exist, and an edge belongs to one subgraph at most. -/
structure OwnsEdges (model : Model) : Prop extends WellFormed model where
  /-- Subgraphs list numbers of edges. -/
  edges_lt : ∀ {key subgraph}, model.graphs.get? key = some subgraph →
    ∀ number ∈ subgraph.edges, number < model.edges.length
  /-- A subgraph lists an edge once. -/
  edges_nodup : ∀ {key subgraph}, model.graphs.get? key = some subgraph → subgraph.edges.Nodup
  /-- Two subgraphs do not list the same edge. -/
  edges_disjoint : ∀ {key subgraph key' subgraph'}, model.graphs.get? key = some subgraph →
    model.graphs.get? key' = some subgraph' → ∀ number ∈ subgraph.edges,
    number ∈ subgraph'.edges → key = key'

/-- All nodes that a model speaks of exist, and an edge belongs to one subgraph at most. -/
structure Resolved (model : Model) : Prop extends WellFormed model where
  /-- Members are nodes. -/
  members : ∀ {key subgraph}, model.graphs.get? key = some subgraph →
    ∀ node ∈ subgraph.nodes, node ∈ model.nodes.keys
  /-- Edges run between nodes. -/
  ends : ∀ edge ∈ model.edges, edge.tail ∈ model.nodes.keys ∧ edge.head ∈ model.nodes.keys
  /-- Subgraphs list numbers of edges. -/
  edges_lt : ∀ {key subgraph}, model.graphs.get? key = some subgraph →
    ∀ number ∈ subgraph.edges, number < model.edges.length
  /-- A subgraph lists an edge once. -/
  edges_nodup : ∀ {key subgraph}, model.graphs.get? key = some subgraph → subgraph.edges.Nodup
  /-- Two subgraphs do not list the same edge. -/
  edges_disjoint : ∀ {key subgraph key' subgraph'}, model.graphs.get? key = some subgraph →
    model.graphs.get? key' = some subgraph' → ∀ number ∈ subgraph.edges,
    number ∈ subgraph'.edges → key = key'

theorem wellFormed_empty : WellFormed ∅ where
  nested := Forest.nested_empty
  node_id found := nomatch found
  root_id found := nomatch found

theorem ownsEdges_empty : OwnsEdges ∅ where
  toWellFormed := wellFormed_empty
  edges_lt found := nomatch found
  edges_nodup found := nomatch found
  edges_disjoint found := nomatch found

theorem resolved_empty : Resolved ∅ where
  toWellFormed := wellFormed_empty
  members found := nomatch found
  ends _ edge_mem := nomatch edge_mem
  edges_lt found := nomatch found
  edges_nodup found := nomatch found
  edges_disjoint found := nomatch found

namespace WellFormed

variable {model : Model}

theorem modify (wellFormed : model.WellFormed) (key : String) (change : Subgraph → Subgraph)
    (keeps : ∀ subgraph, (change subgraph).SamePlace subgraph) :
    WellFormed { model with graphs := model.graphs.modify key change } where
  nested := wellFormed.nested.modify key (fun subgraph => (keeps subgraph).key)
    (fun subgraph => (keeps subgraph).children) (fun subgraph => (keeps subgraph).parent)
  node_id := wellFormed.node_id
  root_id := by
    intro root root_eq
    rcases wellFormed.root_id root_eq with ⟨subgraph, found, id_eq⟩
    dsimp only
    rw [OrderedMap.get?_modify, found]
    split
    · exact ⟨change subgraph, rfl, id_eq.trans (keeps subgraph).id.symm⟩
    · exact ⟨subgraph, rfl, id_eq⟩

theorem setRoot (wellFormed : model.WellFormed) (key : String) (isStrict : Bool) :
    WellFormed (model.setRoot key isStrict) := by
  rw [Model.setRoot]
  split
  · exact wellFormed
  · cases found : model.graphs.get? key with
    | none => exact wellFormed
    | some subgraph =>
        refine ⟨wellFormed.nested, wellFormed.node_id, ?_⟩
        rintro root ⟨⟩
        exact ⟨subgraph, found, rfl⟩

theorem putNode (wellFormed : model.WellFormed) (node : Node) :
    WellFormed (model.putNode node) := by
  refine ⟨wellFormed.nested, ?_, wellFormed.root_id⟩
  intro id node' found
  rw [Model.putNode, OrderedMap.get?_insert] at found
  split at found
  · next same =>
      cases found
      exact same.symm
  · exact wellFormed.node_id found

theorem plant (wellFormed : model.WellFormed) {parent id : Option String} {key : String}
    (absent : key ∉ model.graphs.keys) (enclosed : Walk.Enclosed parent model) :
    WellFormed { model with graphs := Walk.plant model.graphs parent { key, id } } where
  nested := Walk.nested_plant wellFormed.nested absent enclosed rfl rfl
  node_id := wellFormed.node_id
  root_id := by
    intro root root_eq
    rcases wellFormed.root_id root_eq with ⟨subgraph, found, id_eq⟩
    rcases Walk.get?_plant_of_found parent { key, id } absent found with ⟨children, newFound⟩
    exact ⟨_, newFound, id_eq⟩

end WellFormed

@[simp]
theorem graphs_setRoot (model : Model) (key : String) (isStrict : Bool) :
    (model.setRoot key isStrict).graphs = model.graphs := by
  rw [setRoot]
  split
  · rfl
  · split <;> rfl

@[simp]
theorem nodes_setRoot (model : Model) (key : String) (isStrict : Bool) :
    (model.setRoot key isStrict).nodes = model.nodes := by
  rw [setRoot]
  split
  · rfl
  · split <;> rfl

@[simp]
theorem edges_setRoot (model : Model) (key : String) (isStrict : Bool) :
    (model.setRoot key isStrict).edges = model.edges := by
  rw [setRoot]
  split
  · rfl
  · split <;> rfl

namespace Resolved

theorem ownsEdges {model : Model} (resolved : model.Resolved) : model.OwnsEdges where
  toWellFormed := resolved.toWellFormed
  edges_lt := resolved.edges_lt
  edges_nodup := resolved.edges_nodup
  edges_disjoint := resolved.edges_disjoint

theorem knows_iff {model : Model} (resolved : model.Resolved) (node : String) :
    model.Knows node ↔ node ∈ model.nodes.keys := by
  constructor
  · rintro (node_mem | ⟨key, subgraph, found, node_mem⟩)
    · exact node_mem
    · exact resolved.members found node node_mem
  · exact Or.inl

/-- Where the members and edges of a subgraph come from. It has them from a subgraph with its key
in the first model or is new, its new members are nodes, and if it is the owner of the edges created
meanwhile, then it may list them as well. -/
def Inherits (first second : Model) (created : List Edge) (owner : Option String) (key : String)
    (new : Subgraph) : Prop :=
  ∃ old : Subgraph, (old.nodes = [] ∧ old.edges = [] ∨ first.graphs.get? key = some old) ∧
    (∀ node ∈ new.nodes, node ∈ second.nodes.keys ∨ node ∈ old.nodes) ∧
    (new.edges = old.edges ∨
      owner = some key ∧ new.edges = old.edges ++ List.range' first.edges.length created.length)

section

variable {first second : Model} {created : List Edge} {owner : Option String} {key : String}
  {new : Subgraph}

theorem inherits_of_found {old : Subgraph} (found : first.graphs.get? key = some old)
    (nodes_eq : new.nodes = old.nodes) (edges_eq : new.edges = old.edges) :
    Inherits first second created owner key new :=
  ⟨old, Or.inr found, fun _ node_mem => Or.inr (nodes_eq ▸ node_mem), Or.inl edges_eq⟩

theorem Inherits.node_mem (inherits : Inherits first second created owner key new)
    (resolved : first.Resolved) (kept : ∀ node ∈ first.nodes.keys, node ∈ second.nodes.keys)
    {node : String} (node_mem : node ∈ new.nodes) : node ∈ second.nodes.keys := by
  rcases inherits with ⟨old, source, nodes, _⟩
  rcases nodes node node_mem with isNode | old_mem
  · exact isNode
  · rcases source with ⟨noNodes, _⟩ | found
    · simp [noNodes] at old_mem
    · exact kept node (resolved.members found node old_mem)

/-- A listed edge was listed before or is one of the new ones. -/
theorem Inherits.edge_mem (inherits : Inherits first second created owner key new) {number : Nat}
    (number_mem : number ∈ new.edges) :
    (∃ old, first.graphs.get? key = some old ∧ number ∈ old.edges) ∨
      owner = some key ∧ first.edges.length ≤ number ∧
        number < first.edges.length + created.length := by
  rcases inherits with ⟨old, source, _, edges⟩
  have ofOld (old_mem : number ∈ old.edges) :
      ∃ old, first.graphs.get? key = some old ∧ number ∈ old.edges := by
    rcases source with ⟨_, noEdges⟩ | found
    · simp [noEdges] at old_mem
    · exact ⟨old, found, old_mem⟩
  rcases edges with same | ⟨isOwner, grown⟩
  · exact Or.inl (ofOld (same ▸ number_mem))
  · rw [grown, List.mem_append, List.mem_range'_1] at number_mem
    exact number_mem.imp ofOld fun isNew => ⟨isOwner, isNew⟩

theorem Inherits.edges_nodup (inherits : Inherits first second created owner key new)
    (owns : first.OwnsEdges) : new.edges.Nodup := by
  rcases inherits with ⟨old, source, _, edges⟩
  have nodup : old.edges.Nodup := by
    rcases source with ⟨_, noEdges⟩ | found
    · simp [noEdges]
    · exact owns.edges_nodup found
  have bounded : ∀ number ∈ old.edges, number < first.edges.length := by
    rcases source with ⟨_, noEdges⟩ | found
    · simp [noEdges]
    · exact owns.edges_lt found
  rcases edges with same | ⟨_, grown⟩
  · exact same ▸ nodup
  · rw [grown]
    apply nodup.append List.nodup_range'
    intro number old_mem new_mem
    have isOld := bounded number old_mem
    have isNew := (List.mem_range'_1.mp new_mem).1
    omega

/-- What keeps the edges with their owners: edges are added, and every subgraph inherits what it
lists. -/
theorem ownsEdges_transfer (owns : first.OwnsEdges) (wellFormed : second.WellFormed)
    (edges_eq : second.edges = first.edges ++ created)
    (source : ∀ {key new}, second.graphs.get? key = some new →
      Inherits first second created owner key new) : second.OwnsEdges where
  toWellFormed := wellFormed
  edges_lt := by
    intro key new found number number_mem
    rw [edges_eq, List.length_append]
    rcases (source found).edge_mem number_mem with ⟨old, oldFound, old_mem⟩ | ⟨_, _, bounded⟩
    · have bounded := owns.edges_lt oldFound number old_mem
      omega
    · exact bounded
  edges_nodup found := (source found).edges_nodup owns
  edges_disjoint := by
    intro key new key' new' found found' number number_mem number_mem'
    rcases (source found).edge_mem number_mem with ⟨old, oldFound, old_mem⟩ | ⟨isOwner, isNew, _⟩
    all_goals rcases (source found').edge_mem number_mem' with
      ⟨old', oldFound', old_mem'⟩ | ⟨isOwner', isNew', _⟩
    · exact owns.edges_disjoint oldFound oldFound' number old_mem old_mem'
    · have bounded := owns.edges_lt oldFound number old_mem
      omega
    · have bounded := owns.edges_lt oldFound' number old_mem'
      omega
    · exact Option.some.inj (isOwner.symm.trans isOwner')

/-- What keeps a model resolved: nodes stay, edges are added between nodes, and every subgraph
inherits what it lists. -/
theorem transfer (resolved : first.Resolved) (wellFormed : second.WellFormed)
    (owner : Option String) (kept : ∀ node ∈ first.nodes.keys, node ∈ second.nodes.keys)
    (edges_eq : second.edges = first.edges ++ created)
    (ends : ∀ edge ∈ created, edge.tail ∈ second.nodes.keys ∧ edge.head ∈ second.nodes.keys)
    (source : ∀ {key new}, second.graphs.get? key = some new →
      Inherits first second created owner key new) : second.Resolved where
  toWellFormed := wellFormed
  members found node node_mem := (source found).node_mem resolved kept node_mem
  ends := by
    rw [edges_eq]
    intro edge edge_mem
    rcases List.mem_append.mp edge_mem with old_mem | new_mem
    · exact (resolved.ends edge old_mem).imp (kept _) (kept _)
    · exact ends edge new_mem
  edges_lt := (ownsEdges_transfer resolved.ownsEdges wellFormed edges_eq source).edges_lt
  edges_nodup := (ownsEdges_transfer resolved.ownsEdges wellFormed edges_eq source).edges_nodup
  edges_disjoint :=
    (ownsEdges_transfer resolved.ownsEdges wellFormed edges_eq source).edges_disjoint

/-- A change of the subgraphs only. -/
theorem transfer_graphs (resolved : first.Resolved) (wellFormed : second.WellFormed)
    (sameNodes : second.nodes = first.nodes) (sameEdges : second.edges = first.edges)
    (source : ∀ {key new}, second.graphs.get? key = some new →
      Inherits first second [] none key new) : second.Resolved := by
  apply resolved.transfer wellFormed none _ _ _ source
  · simp only [sameNodes, imp_self, implies_true]
  · rw [sameEdges, List.append_nil]
  · simp

end

end Resolved

/-- Only the numbers that subgraphs list count, and how many edges there are. -/
theorem OwnsEdges.congr {first second : Model} (owns : first.OwnsEdges)
    (wellFormed : second.WellFormed) (sameLength : second.edges.length = first.edges.length)
    (source : ∀ {key new}, second.graphs.get? key = some new →
      ∃ old, first.graphs.get? key = some old ∧ new.edges = old.edges) : second.OwnsEdges where
  toWellFormed := wellFormed
  edges_lt := by
    intro key new found
    rcases source found with ⟨old, oldFound, edges_eq⟩
    rw [edges_eq, sameLength]
    exact owns.edges_lt oldFound
  edges_nodup := by
    intro key new found
    rcases source found with ⟨old, oldFound, edges_eq⟩
    exact edges_eq ▸ owns.edges_nodup oldFound
  edges_disjoint := by
    intro key new key' new' found found' number
    rcases source found with ⟨old, oldFound, edges_eq⟩
    rcases source found' with ⟨old', oldFound', edges_eq'⟩
    rw [edges_eq, edges_eq']
    exact owns.edges_disjoint oldFound oldFound' number

/-! ### What a step makes of a model -/

/-- Where a subgraph comes from that stands under a key after a step of a walk: it is new and still
empty, or it is one from before. Then its new members are nodes by now, and if it is the owner of
the edges created by the step, then it may list them as well. -/
inductive Descends (first second : Model) (created : List Edge) (owner : Option String)
    (key : String) (new : Subgraph) : Prop where
  | planted (declared : ∀ id, new.id = some id → key = id) (nodes_eq : new.nodes = [])
      (edges_eq : new.edges = [])
  | kept {old : Subgraph} (found : first.graphs.get? key = some old) (id_eq : new.id = old.id)
      (nodes : new.nodes = old.nodes ∨
        ∃ node ∈ second.nodes.keys, new.nodes = (old.addNode node).nodes)
      (edges : new.edges = old.edges ∨
        owner = some key ∧ new.edges = old.edges ++ List.range' first.edges.length created.length)

/-- What a step of a walk makes of a model: it creates edges between nodes that the model knows,
and every subgraph comes from somewhere. -/
structure Evolves (first second : Model) (created : List Edge) (owner : Option String) : Prop where
  edges_eq : second.edges = first.edges ++ created
  known : ∀ edge ∈ created, first.Knows edge.tail ∧ first.Knows edge.head
  source : ∀ {key new}, second.graphs.get? key = some new →
    Descends first second created owner key new

section

variable {first second : Model} {created : List Edge} {owner : Option String} {key : String}
  {new : Subgraph}

theorem Descends.of_found (found : first.graphs.get? key = some new) :
    Descends first second created owner key new :=
  .kept found rfl (.inl rfl) (.inl rfl)

theorem Descends.inherits (descends : Descends first second created owner key new) :
    Resolved.Inherits first second created owner key new := by
  cases descends with
  | planted declared nodes_eq edges_eq =>
      exact ⟨new, .inl ⟨nodes_eq, edges_eq⟩, fun node => .inr, .inl rfl⟩
  | @kept old found id_eq nodes edges =>
      refine ⟨old, .inr found, ?_, edges⟩
      intro node node_mem
      rcases nodes with nodes_eq | ⟨added, isNode, nodes_eq⟩
      · exact .inr (nodes_eq ▸ node_mem)
      · rw [nodes_eq, Subgraph.mem_nodes_addNode] at node_mem
        exact node_mem.imp_left fun (same : node = added) => same ▸ isNode

/-- No edges are created and no subgraph is changed. -/
theorem Evolves.of_eq (graphs_eq : second.graphs = first.graphs)
    (edges_eq : second.edges = first.edges) : Evolves first second [] none where
  edges_eq := by rw [edges_eq, List.append_nil]
  known := by simp
  source found := .of_found (graphs_eq ▸ found)

/-- One subgraph is changed. -/
theorem Evolves.of_modify (changed : String) (change : Subgraph → Subgraph)
    (graphs_eq : second.graphs = first.graphs.modify changed change)
    (edges_eq : second.edges = first.edges ++ created)
    (known : ∀ edge ∈ created, first.Knows edge.tail ∧ first.Knows edge.head)
    (id_eq : ∀ old, (change old).id = old.id)
    (nodes : ∀ old, (change old).nodes = old.nodes ∨
      ∃ node ∈ second.nodes.keys, (change old).nodes = (old.addNode node).nodes)
    (edges : ∀ old, (change old).edges = old.edges ∨ owner = some changed ∧
      (change old).edges = old.edges ++ List.range' first.edges.length created.length) :
    Evolves first second created owner where
  edges_eq := edges_eq
  known := known
  source := by
    rw [graphs_eq]
    apply OrderedMap.forall_get?_modify (Descends first second created owner)
    · exact .of_found
    · exact fun found => .kept found (id_eq _) (nodes _) (edges _)

/-- One subgraph is changed in its attributes or its kind. -/
theorem Evolves.of_relabel (changed : String) (change : Subgraph → Subgraph)
    (graphs_eq : second.graphs = first.graphs.modify changed change)
    (sameEdges : second.edges = first.edges)
    (keeps : ∀ old, (change old).id = old.id ∧ (change old).nodes = old.nodes ∧
      (change old).edges = old.edges) : Evolves first second [] none :=
  of_modify changed change graphs_eq (by rw [sameEdges, List.append_nil]) (by simp)
    (fun old => (keeps old).1) (fun old => .inl (keeps old).2.1) fun old => .inl (keeps old).2.2

end

end Model

namespace Walk

variable {options : WalkOptions} {before later : WalkState}

theorem wellFormed_after_mention (wellFormed : before.model.WellFormed) (id : String)
    (attrs defaults : Attributes) (parent : Option String) :
    (after (mention id attrs defaults parent) before).model.WellFormed := by
  let node := (before.model.nodes.get? id).getD { id }
  have written := wellFormed.putNode
    { node with attrs := Attributes.fill (node.attrs.override attrs) defaults }
  cases parent with
  | none => exact written
  | some above => exact written.modify above _ fun subgraph => subgraph.addNode_samePlace id

theorem Step.wellFormed (wellFormed : before.model.WellFormed)
    (step : Step options before later) : later.model.WellFormed := by
  cases step with
  | skip tree =>
      rw [model_after_skip]
      split
      · exact wellFormed
      · exact ⟨wellFormed.nested, wellFormed.node_id, wellFormed.root_id⟩
  | enter parent id enclosed =>
      rw [model_after_enter]
      dsimp only
      split
      · exact wellFormed
      · next absent => exact wellFormed.plant absent enclosed
  | promote key kind isStrict listed =>
      rw [model_after_promote, promoted]
      have retitled := wellFormed.modify key (fun subgraph => { subgraph with kind })
        fun _ => ⟨rfl, rfl, rfl, rfl⟩
      exact retitled.setRoot key isStrict
  | settle key attrs listed =>
      exact wellFormed.modify key
        (fun subgraph => { subgraph with attrs := subgraph.attrs.override attrs })
        fun _ => ⟨rfl, rfl, rfl, rfl⟩
  | mention id attrs defaults parent enclosed =>
      exact wellFormed_after_mention wellFormed id attrs defaults parent
  | createEdges parent edges enclosed known =>
      cases parent with
      | none => exact ⟨wellFormed.nested, wellFormed.node_id, wellFormed.root_id⟩
      | some above =>
          let numbers := List.range' before.model.edges.length edges.length
          have listed := wellFormed.modify above
            (fun subgraph => { subgraph with edges := subgraph.edges ++ numbers })
            fun _ => ⟨rfl, rfl, rfl, rfl⟩
          exact ⟨listed.nested, listed.node_id, listed.root_id⟩

theorem Steps.wellFormed (wellFormed : before.model.WellFormed)
    (steps : Steps options before later) : later.model.WellFormed :=
  steps.preserve (fun state => state.model.WellFormed)
    (fun wellFormed step => step.wellFormed wellFormed) wellFormed

theorem node_mem_keys_after_mention (wellFormed : before.model.WellFormed) (id : String)
    (attrs defaults : Attributes) (parent : Option String) :
    id ∈ (after (mention id attrs defaults parent) before).model.nodes.keys := by
  rw [nodes_after_mention, OrderedMap.mem_keys_insert]
  left
  cases found : before.model.nodes.get? id with
  | none => rfl
  | some node => exact (wellFormed.node_id found).symm

/-- Every step of a walk makes of a model what a step can make of it. -/
theorem Step.evolves (wellFormed : before.model.WellFormed) (step : Step options before later) :
    ∃ created owner, before.model.Evolves later.model created owner := by
  cases step with
  | skip tree =>
      rw [model_after_skip]
      split <;> exact ⟨[], none, .of_eq rfl rfl⟩
  | enter parent id enclosed =>
      rw [model_after_enter]
      dsimp only
      split
      · exact ⟨[], none, .of_eq rfl rfl⟩
      · next absent =>
          refine ⟨[], none, (List.append_nil _).symm, by simp, ?_⟩
          apply forall_get?_plant (Model.Descends _ _ [] none) wellFormed.nested absent enclosed
          · exact fun found => .kept found rfl (.inl rfl) (.inl rfl)
          · refine .planted ?_ rfl rfl
            rintro declared rfl
            rfl
  | promote key kind isStrict listed =>
      rw [model_after_promote]
      exact ⟨[], none, .of_relabel key (fun subgraph => { subgraph with kind }) (by simp [promoted])
        (by simp [promoted]) fun _ => ⟨rfl, rfl, rfl⟩⟩
  | settle key attrs listed =>
      exact ⟨[], none, .of_relabel key
        (fun subgraph => { subgraph with attrs := subgraph.attrs.override attrs }) rfl rfl
        fun _ => ⟨rfl, rfl, rfl⟩⟩
  | mention id attrs defaults parent enclosed =>
      have isNode := node_mem_keys_after_mention wellFormed id attrs defaults parent
      cases parent with
      | none => exact ⟨[], none, .of_eq rfl rfl⟩
      | some above =>
          exact ⟨[], none, .of_modify above (fun subgraph => subgraph.addNode id) rfl
            (List.append_nil _).symm (by simp) (fun old => (old.addNode_samePlace id).id)
            (fun _ => .inr ⟨id, isNode, rfl⟩) fun old => .inl (old.edges_addNode id)⟩
  | createEdges parent edges enclosed known =>
      cases parent with
      | none => exact ⟨edges, none, rfl, known, fun found => .of_found found⟩
      | some above =>
          let numbers := List.range' before.model.edges.length edges.length
          exact ⟨edges, some above, .of_modify above
            (fun subgraph => { subgraph with edges := subgraph.edges ++ numbers }) rfl rfl known
            (fun _ => rfl) (fun _ => .inl rfl) fun _ => .inr ⟨rfl, rfl⟩⟩

theorem Step.resolved (resolved : before.model.Resolved)
    (step : Step options before later) : later.model.Resolved := by
  have kept : ∀ node ∈ before.model.nodes.keys, node ∈ later.model.nodes.keys :=
    fun _ => step.grows.nodes
  rcases step.evolves resolved.toWellFormed with ⟨created, owner, evolves⟩
  apply resolved.transfer (step.wellFormed resolved.toWellFormed) owner kept evolves.edges_eq
  · intro edge edge_mem
    have known := evolves.known edge edge_mem
    exact ⟨kept _ ((resolved.knows_iff _).mp known.1), kept _ ((resolved.knows_iff _).mp known.2)⟩
  · exact fun found => (evolves.source found).inherits

/-- A step keeps the edges with their owners. -/
theorem Step.ownsEdges (owns : before.model.OwnsEdges) (step : Step options before later) :
    later.model.OwnsEdges := by
  rcases step.evolves owns.toWellFormed with ⟨created, owner, evolves⟩
  exact Model.Resolved.ownsEdges_transfer owns (step.wellFormed owns.toWellFormed) evolves.edges_eq
    fun found => (evolves.source found).inherits

theorem Steps.resolved (resolved : before.model.Resolved)
    (steps : Steps options before later) : later.model.Resolved :=
  steps.preserve (fun state => state.model.Resolved)
    (fun resolved step => step.resolved resolved) resolved

end Walk

/-- A walk into an empty model leaves a resolved model, wherever it ends. -/
theorem Model.resolved_walkPlain (options : WalkOptions) (tree : Tree) :
    (Model.walkPlain options tree ∅).model.Resolved := by
  rcases Model.walkPlain_steps options tree ∅ with ⟨final, steps, model_eq⟩
  rw [model_eq]
  exact steps.resolved Model.resolved_empty

end DotLang
