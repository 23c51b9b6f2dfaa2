import DotLang.Proofs.Walk.Copying
import DotLang.Proofs.Walk.Inside

/-!
# Subgraphs survive a second walk

A document that is one graph is walked, a tree is regenerated from the model, and
that tree is walked. If no declared id looks like a generated key, then the
subgraphs of the two models correspond: the same nesting and order, the same
declared ids, attributes and edges. Only generated keys change, because they are
counted in the order of entry, and a subgraph that was entered twice may have got
some of its children late.

The members of a copy are those of the original and some of the endpoints of its
edges (`Copied.mem_nodes_iff`). The main result is `rewalk_subgraphs`.
-/

namespace DotLang

namespace Model

/-- What no listed subgraph has. -/
def unlistedItems (model : Model) : List Item :=
  model.unlistedNodes.map .mention ++ model.unlistedEdges.map .connect

/-- What is stated in the copy of a subgraph, if `root` is the root. -/
def plan (model : Model) (root : String) (subgraph : Subgraph) : List Item :=
  model.items subgraph ++ if subgraph.key = root then model.unlistedItems else []

theorem restatement_eq (model : Model) :
    model.restatement = .graph model.kind model.id model.isStrict
      (model.restatedRoot ++ model.unlistedItems.map model.restatedItem) := by
  rw [restatement, unlistedItems, List.map_append, List.map_map, List.map_map, List.append_assoc]
  rfl

end Model

namespace Walk

variable {options : WalkOptions} {model : Model} {plan : Subgraph → List Item} {state : WalkState}

/-! ### Copying a hierarchy -/

theorem get?_of_hierarchy? (nested : model.graphs.Nested) {handle : String}
    {hierarchy : Hierarchy} (hierarchy_eq : model.graphs.hierarchy? handle = some hierarchy) :
    model.graphs.get? handle = some hierarchy.top := by
  rcases Option.map_eq_some_iff.mp hierarchy_eq with ⟨top, found, _⟩
  rw [nested.hierarchy?_eq found, Option.some_inj] at hierarchy_eq
  rw [← hierarchy_eq]
  exact found

theorem children_of_hierarchy? (nested : model.graphs.Nested) {top : Subgraph}
    {children : List Hierarchy}
    (hierarchy_eq : model.graphs.hierarchy? top.key = some (.scope top children)) :
    ∀ child ∈ children, model.graphs.hierarchy? child.top.key = some child ∧
      child.top.parent = some top.key := by
  have found : model.graphs.get? top.key = some top := get?_of_hierarchy? nested hierarchy_eq
  rw [nested.hierarchy?_eq found, Option.some_inj, Hierarchy.scope.injEq] at hierarchy_eq
  rw [← hierarchy_eq.2]
  intro child child_mem
  rcases List.mem_filterMap.mp child_mem with ⟨handle, handle_mem, child_eq⟩
  rcases Forest.get?_of_parent? (nested.parent_of_child found handle_mem) with
    ⟨inner, innerFound, parent_eq⟩
  cases innerFound.symm.trans (get?_of_hierarchy? nested child_eq)
  rw [nested.key_eq innerFound]
  exact ⟨child_eq, parent_eq⟩

theorem mem_walk_of_parent (nested : model.graphs.Nested) {hierarchy : Hierarchy}
    (hierarchy_eq : model.graphs.hierarchy? hierarchy.top.key = some hierarchy)
    {subgraph : Subgraph} (found : model.graphs.get? subgraph.key = some subgraph)
    (parent_eq : subgraph.parent = some hierarchy.top.key) : subgraph ∈ hierarchy.walk := by
  have topFound := get?_of_hierarchy? nested hierarchy_eq
  have inside := (nested.mem_descendants_iff topFound subgraph).mpr
    ⟨found, .single (by rw [Forest.parent?, found, Option.bind_some, parent_eq])⟩
  rwa [Forest.descendants, hierarchy_eq] at inside

/-- Items are stated before and behind the attributes of their subgraph. -/
theorem writes_own {key : String} (wellFormed : state.model.WellFormed)
    (listed : key ∈ state.model.graphs.keys) (subgraph : Subgraph) (behind : List Item) :
    ∃ final, (statements options (some key) ∅
        (model.restatedOwn subgraph ++ behind.map model.restatedItem)).run state =
        .ok { graph := subgraph.attrs } final ∧
      WritesItems options key (model.items subgraph ++ behind) state final := by
  rcases @writes_items options model key state wellFormed listed ∅ rfl (model.items subgraph) with
    ⟨middle, run, own⟩
  rcases @writes_items options model key middle (own.steps.wellFormed wellFormed)
    (own.listed listed) { graph := subgraph.attrs } rfl behind with ⟨final, run', rest⟩
  refine ⟨final, ?_, own.trans rest⟩
  rw [Model.restatedOwn_eq]
  refine run_statements_append (run_statements_append run ?_) run'
  rw [statements_restatedAttrs]
  rfl

mutual

/-- The body of a copy copies the subgraphs below and then the subgraph itself. Further items may be
stated behind it. -/
theorem copies_body (copyable : Copyable options model) : ∀ (hierarchy : Hierarchy)
    {entered : List (Subgraph × String)} {done : List Subgraph} {key : String}
    {state : WalkState} (behind : List Item), Copying options model plan entered done state →
    model.graphs.hierarchy? hierarchy.top.key = some hierarchy →
    (hierarchy.top, key) ∈ entered → hierarchy.top ∉ done →
    ((entered.map Prod.fst ++ hierarchy.walk.tail).map Subgraph.key).Nodup →
    plan hierarchy.top = model.items hierarchy.top ++ behind →
    (∀ subgraph ∈ hierarchy.walk.tail, plan subgraph = model.items subgraph) →
    ∃ pairs walked,
      (statements options (some key) ∅
        (model.restatedBody hierarchy ++ behind.map model.restatedItem)).run state =
        .ok { graph := hierarchy.top.attrs } walked ∧
      pairs.map Prod.fst = hierarchy.walk.tail ∧
      Copying options model plan (entered ++ pairs) (done ++ hierarchy.restated)
        (after (settle key hierarchy.top.attrs) walked)
  | .scope top children, entered, done, key, state, behind, copying, hierarchy_eq, top_mem, isOpen,
      nodup, plan_top, plan_below => by
      rw [Hierarchy.walk, List.tail_cons] at nodup plan_below
      rcases copies_subgraphs copyable children copying top_mem
        (children_of_hierarchy? copyable.nested hierarchy_eq) nodup plan_below with
        ⟨pairs, middle, run, pairs_eq, below⟩
      have stillOpen : top ∉ done ++ Hierarchy.restatedAll children := by
        rw [List.mem_append, (Hierarchy.restatedAll_perm children).mem_iff]
        rintro (isDone | inside)
        · exact isOpen isDone
        · rw [List.map_append, List.nodup_append] at nodup
          exact nodup.2.2 _ (List.mem_map_of_mem (List.mem_map_of_mem top_mem)) _
            (List.mem_map_of_mem inside) rfl
      have top_mem' := List.mem_append_left pairs top_mem
      rcases @writes_own options model middle key below.resolved.toWellFormed
        (below.listed top_mem') top behind with ⟨walked, run', writes⟩
      refine ⟨pairs, walked, ?_, pairs_eq, ?_⟩
      · rw [Model.restatedBody, List.append_assoc]
        exact run_statements_append run run'
      · rw [Hierarchy.restated, ← List.append_assoc]
        exact below.finish top_mem' stillOpen (plan_top ▸ writes)

theorem copies_subgraphs (copyable : Copyable options model) : ∀ (hierarchies : List Hierarchy)
    {entered : List (Subgraph × String)} {done : List Subgraph} {top : Subgraph} {key : String}
    {state : WalkState}, Copying options model plan entered done state → (top, key) ∈ entered →
    (∀ hierarchy ∈ hierarchies, model.graphs.hierarchy? hierarchy.top.key = some hierarchy ∧
      hierarchy.top.parent = some top.key) →
    ((entered.map Prod.fst ++ Hierarchy.walkAll hierarchies).map Subgraph.key).Nodup →
    (∀ subgraph ∈ Hierarchy.walkAll hierarchies, plan subgraph = model.items subgraph) →
    ∃ pairs final,
      (statements options (some key) ∅ (model.restatedSubgraphs hierarchies)).run state =
        .ok ∅ final ∧
      pairs.map Prod.fst = Hierarchy.walkAll hierarchies ∧
      Copying options model plan (entered ++ pairs) (done ++ Hierarchy.restatedAll hierarchies)
        final
  | [], entered, done, top, key, state, copying, _, _, _, _ => by
      refine ⟨[], state, rfl, rfl, ?_⟩
      rw [Hierarchy.restatedAll, List.append_nil, List.append_nil]
      exact copying
  | hierarchy :: rest, entered, done, top, key, state, copying, top_mem, children, nodup,
      plan_eq => by
      rcases children hierarchy List.mem_cons_self with ⟨hierarchy_eq, parent_eq⟩
      have found := get?_of_hierarchy? copyable.nested hierarchy_eq
      have walk_eq := hierarchy.walk_eq_cons
      rw [Hierarchy.walkAll] at nodup plan_eq
      have outside {subgraph : Subgraph} (subgraph_mem : subgraph ∈ hierarchy.walk) :
          subgraph.key ∉ entered.map fun entry => entry.1.key := by
        intro known
        rw [List.map_append, List.nodup_append, List.map_map] at nodup
        exact nodup.2.2 _ known _
          (List.mem_map_of_mem (List.mem_append_left _ subgraph_mem)) rfl
      have isNew := outside hierarchy.top_mem_walk
      -- A child is below the subgraph that is entered now.
      have noChild (entry : Subgraph × String) (entry_mem : entry ∈ entered)
          (isChild : entry.1.parent = some hierarchy.top.key) : False :=
        outside (mem_walk_of_parent copyable.nested hierarchy_eq (copying.sources entry entry_mem)
          isChild) (List.mem_map.mpr ⟨entry, entry_mem, rfl⟩)
      have isOpen : hierarchy.top ∉ done := by
        intro isDone
        rcases copying.done_entered hierarchy.top isDone with ⟨other, entry_mem⟩
        exact isNew (List.mem_map.mpr ⟨_, entry_mem, rfl⟩)
      have inside := copying.enter copyable top_mem found parent_eq isNew noChild
      generalize key_eq : entryKey options hierarchy.top.id state = newKey at inside
      let pair := (hierarchy.top, newKey)
      have pair_mem : pair ∈ entered ++ [pair] :=
        List.mem_append_right entered List.mem_cons_self
      have entered_eq : (entered ++ [pair]).map Prod.fst =
          entered.map Prod.fst ++ [hierarchy.top] := List.map_append
      rw [walk_eq, ← List.append_assoc, List.append_cons] at nodup
      have nodupHere := nodup
      rw [← entered_eq, List.map_append] at nodupHere
      have plan_top : plan hierarchy.top = model.items hierarchy.top ++ [] := by
        rw [List.append_nil, plan_eq _ (List.mem_append_left _ hierarchy.top_mem_walk)]
      rcases copies_body copyable hierarchy [] inside hierarchy_eq pair_mem isOpen
        nodupHere.of_append_left plan_top (fun subgraph subgraph_mem =>
          plan_eq subgraph (List.mem_append_left _ (List.mem_of_mem_tail subgraph_mem))) with
        ⟨pairs, walked, run, pairs_eq, here⟩
      rw [List.map_nil, List.append_nil] at run
      have entered_eq' : (entered ++ [pair] ++ pairs).map Prod.fst =
          entered.map Prod.fst ++ [hierarchy.top] ++ hierarchy.walk.tail := by
        rw [List.map_append, entered_eq, pairs_eq]
      rw [← entered_eq'] at nodup
      rcases copies_subgraphs copyable rest here
        (List.mem_append_left pairs (List.mem_append_left [pair] top_mem))
        (fun other other_mem => children other (List.mem_cons_of_mem hierarchy other_mem))
        nodup (fun subgraph subgraph_mem => plan_eq subgraph (List.mem_append_right _ subgraph_mem))
        with ⟨pairs', final, run', pairs'_eq, all⟩
      refine ⟨pair :: pairs ++ pairs', final, ?_, ?_, ?_⟩
      · rw [Model.restatedSubgraphs, statements, EStateM.run_bind, run_subgraph key_eq run]
        exact run'
      · rw [Hierarchy.walkAll, walk_eq, List.map_append, List.map_cons, pairs_eq, pairs'_eq]
      · rw [Hierarchy.restatedAll, ← List.append_assoc, ← List.append_assoc, List.append_cons]
        exact all

end

/-! ### Copying a document -/

/-- Only the root has been entered. -/
theorem copying_promoted {root : String} {top : Subgraph} (nested : model.graphs.Nested)
    (found : model.graphs.get? root = some top) (id_eq : top.id = model.id)
    (noLoop : top.parent ≠ some top.key) {key : String}
    (key_eq : entryKey options model.id { model := ∅ } = key) :
    Copying options model plan [(top, key)] [] (after (promote key model.kind model.isStrict)
      (after (enter options none model.id) { model := ∅ })) := by
  have first_eq := model_of_promoted model.kind model.isStrict key_eq
  have steps := steps_promoted model.kind model.isStrict key_eq
  have noChild : childKeys [(top, key)] top = [] := by
    simp [childKeys, noLoop]
  constructor
  case resolved => exact steps.resolved Model.resolved_empty
  case keys_eq =>
    rw [first_eq]
    rfl
  case nodup => exact List.nodup_singleton _
  case sources =>
    intro entry entry_mem
    rw [List.mem_singleton.mp entry_mem, nested.key_eq found]
    exact found
  case names =>
    intro entry entry_mem
    rw [List.mem_singleton.mp entry_mem, id_eq, ← key_eq]
    cases model.id with
    | none => exact Or.inr ⟨rfl, _, rfl⟩
    | some id => exact Or.inl rfl
  case done_entered => exact List.forall_mem_nil _
  case copies =>
    intro entry entry_mem
    rw [List.mem_singleton.mp entry_mem, first_eq]
    refine ⟨{ key, id := model.id, kind := model.kind }, ?_, id_eq.symm, noChild.symm,
      .pending List.not_mem_nil rfl rfl rfl⟩
    simp only [OrderedMap.get?_modify, ↓reduceIte, plant, OrderedMap.get?_insert,
      Option.map_some]
  case nodes =>
    rw [first_eq]
    exact fun _ => Iff.rfl
  case root_eq =>
    rw [first_eq]
    rfl

/-- Walking a regenerated tree copies the root and the subgraphs below it. What no subgraph lists is
stated in the copy of the root. -/
theorem copies_document (copyable : Copyable options model) {root : String} {top : Subgraph}
    (root_eq : model.root = some root) (found : model.graphs.get? root = some top)
    (id_eq : top.id = model.id) (noLoop : top.parent ≠ some top.key) :
    ∃ entered final, (document options model.restatement).run { model := ∅ } = .ok ∅ final ∧
      entered.map Prod.fst = model.graphs.descendants root ∧
      Copying options model (model.plan root) entered model.restatedListed final := by
  have nested := copyable.nested
  generalize key_eq : entryKey options model.id { model := ∅ } = key
  have start := @copying_promoted options model (model.plan root) root top nested found id_eq noLoop
    key key_eq
  have hierarchy_eq := nested.hierarchy?_eq found
  generalize top.children.filterMap model.graphs.hierarchy? = children at hierarchy_eq
  have walk_eq : (Hierarchy.scope top children).walk = model.graphs.descendants root := by
    rw [Forest.descendants, hierarchy_eq]
  have nodup := nested.nodup_keys_descendants found
  rw [← walk_eq, Hierarchy.walk] at nodup
  have ownKey := nested.key_eq found
  have plan_top : model.plan root top = model.items top ++ model.unlistedItems := by
    rw [Model.plan, if_pos ownKey]
  have plan_below (subgraph : Subgraph) (subgraph_mem : subgraph ∈ Hierarchy.walkAll children) :
      model.plan root subgraph = model.items subgraph := by
    have differs : subgraph.key ≠ root := by
      intro same
      rw [List.map_cons, List.nodup_cons, ownKey, ← same] at nodup
      exact nodup.1 (List.mem_map_of_mem subgraph_mem)
    rw [Model.plan, if_neg differs, List.append_nil]
  rcases copies_body copyable (.scope top children) model.unlistedItems start
    (ownKey.symm ▸ hierarchy_eq) List.mem_cons_self List.not_mem_nil nodup plan_top plan_below with
    ⟨pairs, walked, run, pairs_eq, copying⟩
  have root_body : model.restatedRoot = model.restatedBody (.scope top children) := by
    rw [Model.restatedRoot, root_eq, Option.bind_some, hierarchy_eq]
  refine ⟨(top, key) :: pairs, after (settle key top.attrs) walked, ?_, ?_, ?_⟩
  · rw [model.restatement_eq, root_body]
    exact run_graph key_eq run
  · rw [List.map_cons, pairs_eq, ← walk_eq]
    rfl
  · rw [Model.restatedListed, root_eq, Option.bind_some, hierarchy_eq]
    exact copying

/-- Walking the regenerated tree of a document that is one graph copies its subgraphs. -/
theorem copies_restatement (copyable : Copyable options model) {root : String} {top : Subgraph}
    (root_eq : model.root = some root) (found : model.graphs.get? root = some top)
    (id_eq : top.id = model.id) (noParent : top.parent = none)
    (noNodes : model.unlistedNodes = []) (noEdges : model.unlistedEdges = []) :
    ∃ entered final, (document options model.restatement).run { model := ∅ } = .ok ∅ final ∧
      entered.map Prod.fst = model.graphs.descendants root ∧
      Copying options model model.items entered model.restatedListed final := by
  have plan_eq : model.plan root = model.items := by
    funext subgraph
    rw [Model.plan, Model.unlistedItems, noNodes, noEdges]
    exact (congrArg _ (ite_self _)).trans (List.append_nil _)
  rw [← plan_eq]
  exact copies_document copyable root_eq found id_eq (by simp [noParent])

/-! ### Reading off the copies -/

theorem copyable_of_confined {declares : String → Prop} {root : String}
    (confined : model.Confined declares root) (named : Named options { state with model })
    (free : ∀ name, declares name → ∀ number,
      name ≠ anonymousKey options.anonymousPrefix number) : Copyable options model where
  nested := confined.nested
  declared := named.declared
  free found id_eq := free _ (confined.declared found _ id_eq)

namespace Copying

variable {entered : List (Subgraph × String)} {done : List Subgraph}

theorem exists_rename (copying : Copying options model plan entered done state) :
    ∃ rename : String → String, ∀ entry ∈ entered, entry.2 = rename entry.1.key := by
  have unique (key : String) : ∃ name, ∀ entry ∈ entered, entry.1.key = key → entry.2 = name := by
    by_cases known : ∃ entry ∈ entered, entry.1.key = key
    · rcases known with ⟨entry, entry_mem, key_eq⟩
      refine ⟨entry.2, fun other other_mem key_eq' => ?_⟩
      rw [copying.eq_of_source other_mem entry_mem (key_eq'.trans key_eq.symm)]
    · exact ⟨key, fun entry entry_mem key_eq => absurd ⟨entry, entry_mem, key_eq⟩ known⟩
  choose rename renamed using unique
  exact ⟨rename, fun entry entry_mem => renamed entry.1.key entry entry_mem rfl⟩

theorem keys_eq_rename (copying : Copying options model plan entered done state)
    {rename : String → String} (renamed : ∀ entry ∈ entered, entry.2 = rename entry.1.key) :
    state.model.graphs.keys = ((entered.map Prod.fst).map Subgraph.key).map rename := by
  rw [copying.keys_eq, List.map_map, List.map_map]
  exact List.map_congr_left renamed

theorem root_eq_rename (copying : Copying options model plan entered done state)
    {rename : String → String} (renamed : ∀ entry ∈ entered, entry.2 = rename entry.1.key) :
    state.model.root = (entered.map Prod.fst).head?.map fun top => rename top.key := by
  rw [copying.root_eq]
  cases entered with
  | nil => rfl
  | cons entry rest => exact congrArg some (renamed entry List.mem_cons_self)

theorem eq_of_declared (copying : Copying options model plan entered done state)
    {entry : Subgraph × String} (entry_mem : entry ∈ entered) {name : String}
    (isDeclared : entry.1.id = some name) : entry.2 = name := by
  rcases copying.names entry entry_mem with same | ⟨isAnonymous, _⟩
  · exact Option.some.inj (same.symm.trans isDeclared)
  · cases isAnonymous.symm.trans isDeclared

theorem copied (copying : Copying options model plan entered done state)
    {entry : Subgraph × String} (entry_mem : entry ∈ entered) (isDone : entry.1 ∈ done) :
    ∃ copy earlier later, state.model.graphs.get? entry.2 = some copy ∧ copy.id = entry.1.id ∧
      copy.children = childKeys entered entry.1 ∧ done = earlier ++ entry.1 :: later ∧
      Copied plan state.model earlier entry.1 copy := by
  rcases copying.copies entry entry_mem with ⟨copy, found, id_eq, children_eq, contents⟩
  cases contents with
  | pending notDone => exact absurd isDone notDone
  | complete earlier later done_eq copied =>
      exact ⟨copy, earlier, later, found, id_eq, children_eq, done_eq, copied⟩

end Copying

theorem childKeys_eq {entered : List (Subgraph × String)} {rename : String → String}
    (renamed : ∀ entry ∈ entered, entry.2 = rename entry.1.key) (subgraph : Subgraph) :
    childKeys entered subgraph =
      (((entered.map Prod.fst).filter fun other => other.parent = some subgraph.key).map
        Subgraph.key).map rename := by
  rw [childKeys, List.filter_map, List.map_map, List.map_map]
  apply List.map_congr_left
  intro entry entry_mem
  exact renamed entry (List.mem_of_mem_filter entry_mem)

end Walk

namespace Model

/-- The subgraphs of a document that is one graph survive: each has a copy with the same id, the
copies of its children in their order, and the same attributes and edges. The copy has the members
of the subgraph and those end points of its edges that no subgraph stated before it is about. -/
theorem rewalk_subgraphs {options : WalkOptions} {kind : String} {id : Option String}
    {isStrict : Bool} {children : List Tree}
    (free : ∀ name ∈ (Tree.graph kind id isStrict children).declaredIds, ∀ number,
      name ≠ anonymousKey options.anonymousPrefix number) :
    let first := (Model.walk options .plain (.graph kind id isStrict children) ∅).model
    ∃ root regenerated, first.root = some root ∧
      (∀ key ∈ first.graphs.keys, first.graphs.Encloses root key) ∧
      first.toTree Geometry.plain.encode = .ok regenerated ∧
      let second := Model.walk options .plain regenerated ∅
      second.failure = none ∧
      ∃ rename : String → String,
        second.model.graphs.keys.Perm (first.graphs.keys.map rename) ∧
        second.model.root = some (rename root) ∧
        ∀ key subgraph, first.graphs.get? key = some subgraph →
          (∀ name, subgraph.id = some name → rename key = name) ∧
          ∃ copy earlier later, second.model.graphs.get? (rename key) = some copy ∧
            copy.id = subgraph.id ∧ copy.children = subgraph.children.map rename ∧
            copy.attrs = subgraph.attrs ∧
            second.model.edgesAt copy.edges = first.edgesAt subgraph.edges ∧
            first.restatedListed = earlier ++ subgraph :: later ∧
            ∀ node, node ∈ copy.nodes ↔ node ∈ subgraph.nodes ∨
              node ∈ first.endsOf subgraph ∧ ∀ other ∈ earlier, node ∉ first.statedNodes other := by
  intro first
  rcases confined_graph options kind id isStrict children with ⟨root, confined⟩
  rcases Model.walkPlain_steps options (.graph kind id isStrict children) ∅ with
    ⟨state, steps, model_eq⟩
  have first_eq : first = state.model := model_eq
  replace confined : first.Confined _ root := confined
  have nested := confined.nested
  have named : Walk.Named options { state with model := first } := by
    rw [first_eq]
    exact steps.named Walk.named_empty wellFormed_empty
  rcases confined.root_id confined.root_eq with ⟨top, topFound, id_eq⟩
  rcases Walk.copies_restatement (Walk.copyable_of_confined confined named free) confined.root_eq
    topFound id_eq.symm (confined.root_parent topFound) confined.unlistedNodes_eq_nil
    confined.unlistedEdges_eq_nil with ⟨entered, final, run, entered_eq, copying⟩
  have second_eq : Model.walk options .plain first.restatement ∅ =
      ⟨final.model, final.events, none⟩ := by
    change walkPlain options first.restatement ∅ = _
    rw [walkPlain, run]
  refine ⟨root, first.restatement, confined.root_eq, ?_, first.toTree_plain, ?_⟩
  · intro key key_mem
    rcases (OrderedMap.mem_keys_iff _ _).mp key_mem with ⟨subgraph, found⟩
    exact confined.encloses found
  rw [second_eq]
  rcases copying.exists_rename with ⟨rename, renamed⟩
  refine ⟨rfl, rename, ?_, ?_, ?_⟩
  · rw [copying.keys_eq_rename renamed, entered_eq]
    exact confined.keys_descendants_perm.map rename
  · rw [copying.root_eq_rename renamed, entered_eq, nested.descendants_eq topFound, List.head?_cons,
      Option.map_some, nested.key_eq topFound]
  · intro key subgraph found
    have below : subgraph ∈ first.graphs.descendants root := by
      rw [nested.mem_descendants_iff topFound, nested.key_eq found]
      exact ⟨found, confined.encloses found⟩
    have isDone := first.restatedListed_perm.mem_iff.mpr (confined.mem_listed found)
    have entry_mem := below
    rw [← entered_eq, List.mem_map] at entry_mem
    rcases entry_mem with ⟨entry, entry_mem, rfl⟩
    have name_eq := renamed entry entry_mem
    rw [nested.key_eq found] at name_eq
    rw [← name_eq]
    refine ⟨fun name => copying.eq_of_declared entry_mem, ?_⟩
    rcases copying.copied entry_mem isDone with
      ⟨copy, earlier, later, copyFound, copyId, children_eq, order, copied⟩
    refine ⟨copy, earlier, later, copyFound, copyId, ?_, copied.attrs_eq, copied.edges_eq, order,
      copied.mem_nodes_iff⟩
    rw [children_eq, Walk.childKeys_eq renamed, entered_eq,
      nested.map_key_filter_parent topFound below]

/-- The regenerated tree states the edge before it states the node `a` of the root. -/
theorem rewalk_subgraphs_of_unnamed :
    let tree := Tree.graph "digraph" "g" false [
      .nodeStmt (.nodeId { id := "a" }) [],
      .subgraph none [.edgeStmt [.nodeId { id := "a" }, .nodeId { id := "b" }] []]]
    let first := (Model.walk {} .plain tree ∅).model
    (∀ name ∈ tree.declaredIds, ∀ number, name ≠ anonymousKey "__anon" number) ∧
      ∃ regenerated, first.toTree Geometry.plain.encode = .ok regenerated ∧
        let second := Model.walk {} .plain regenerated ∅
        second.failure = none ∧ ∃ (rename : String → String) (copy : Subgraph),
          second.model.graphs.keys.Perm (first.graphs.keys.map rename) ∧
          second.model.root = some (rename "g") ∧ rename "g" = "g" ∧
          second.model.graphs.get? (rename "__anon1") = some copy ∧ copy.id = none ∧
          ∀ node, node ∈ copy.nodes ↔ node = "b" ∨ node = "a" := by
  intro tree first
  have differ : ∀ name ∈ ["g"], ¬"__anon".toList <+: name.toList := by decide
  have free : ∀ name ∈ tree.declaredIds, ∀ number, name ≠ anonymousKey "__anon" number :=
    fun name name_mem => ne_anonymousKey (differ name name_mem)
  let top : Subgraph :=
    { key := "g", id := "g", kind := "digraph", nodes := ["a"], children := ["__anon1"] }
  let below : Subgraph := { key := "__anon1", nodes := ["b"], edges := [0], parent := "g" }
  have isRoot : first.root = some "g" := rfl
  have topFound : first.graphs.get? "g" = some top := rfl
  have belowFound : first.graphs.get? "__anon1" = some below := rfl
  have restated : first.restatedListed = [below, top] := rfl
  rcases @rewalk_subgraphs {} "digraph" "g" false _ free with
    ⟨root, regenerated, root_eq, _, regenerated_eq, completes, rename, keys, rootCopy, copies⟩
  have name_eq : rename "g" = "g" := (copies "g" top topFound).1 "g" rfl
  rcases copies "__anon1" below belowFound with
    ⟨_, copy, earlier, later, copyFound, id_eq, _, _, _, order, members⟩
  refine ⟨free, regenerated, regenerated_eq, completes, rename, copy, keys, ?_, name_eq, copyFound,
    id_eq, ?_⟩
  · rw [rootCopy, Option.some.inj (isRoot.symm.trans root_eq)]
  · rw [restated] at order
    have isFirst : earlier = [] := by
      rcases earlier with _ | ⟨one, _ | ⟨two, rest⟩⟩
      · rfl
      · have same : top = below := (List.cons.inj (List.cons.inj order).2).1
        exact absurd (congrArg Subgraph.key same) (by decide)
      · have lengths := congrArg List.length order
        simp at lengths
    have ends : first.endsOf below = ["a", "b"] := rfl
    intro node
    rw [members, isFirst, ends]
    simp only [below, List.mem_cons, List.not_mem_nil]
    tauto

/-- In the document the edge comes after the node `a` of the root, in the regenerated tree before
it, so the node joins the copy of `s`. -/
theorem rewalk_subgraphs_of_known_endpoint :
    let a := Tree.nodeStmt (.nodeId { id := "a" }) []
    let edge := Tree.edgeStmt [.nodeId { id := "a" }, .nodeId { id := "b" }] []
    let tree := Tree.graph "digraph" "g" false [a, .subgraph "s" [edge]]
    let regenerated := Tree.graph "digraph" "g" false
      [.subgraph "s" [.nodeStmt (.nodeId { id := "b" }) [], edge], a]
    let first := (Model.walk {} .plain tree ∅).model
    let second := (Model.walk {} .plain regenerated ∅).model
    (∀ name ∈ tree.declaredIds, ∀ number, name ≠ anonymousKey "__anon" number) ∧
      first.toTree Geometry.plain.encode = .ok regenerated ∧
      ¬∃ rename : String → String, ∀ key subgraph, first.graphs.get? key = some subgraph →
        ∃ copy, second.graphs.get? (rename key) = some copy ∧ copy.id = subgraph.id ∧
          ∀ node, node ∈ copy.nodes ↔ node ∈ subgraph.nodes := by
  intro a edge tree regenerated first second
  have differ : ∀ name ∈ ["g", "s"], ¬"__anon".toList <+: name.toList := by decide
  have restated : first.restatement = regenerated := by
    dsimp only [first, regenerated, tree, a, edge]
    rfl
  refine ⟨fun name name_mem => ne_anonymousKey (differ name name_mem), ?_, ?_⟩
  · rw [← restated]
    exact first.toTree_plain
  rintro ⟨rename, corresponds⟩
  let s : Subgraph := { key := "s", id := "s", nodes := ["b"], edges := [0], parent := "g" }
  have found : first.graphs.get? "s" = some s := rfl
  rcases corresponds "s" s found with ⟨copy, copyFound, id_eq, sameMembers⟩
  -- A copy that declares the id `s` stands under it.
  rcases Model.walkPlain_steps {} regenerated ∅ with ⟨state, steps, model_eq⟩
  have named := steps.named Walk.named_empty wellFormed_empty
  have second_eq : second = state.model := model_eq
  have name_eq : rename "s" = "s" := by
    rw [second_eq] at copyFound
    exact named.declared copyFound id_eq
  have members : (second.graphs.get? "s").map Subgraph.nodes = some ["b", "a"] := by
    decide +kernel
  rw [name_eq] at copyFound
  rw [copyFound, Option.map_some, Option.some_inj] at members
  have joined : "a" ∈ copy.nodes := by
    rw [members]
    decide
  exact absurd ((sameMembers "a").mp joined) (by decide)

end Model

end DotLang
