import DotLang.Proofs.RewalkSubgraphs
import DotLang.Proofs.Walk.Entries

/-!
# Regeneration settles down

A second walk may move nodes: an end point of an edge joins a subgraph if nothing
stated before is about it, and what no subgraph lists moves to the root. After
that nothing is left to move. In the second model every end point of an edge is a
member of its subgraph, or a subgraph that is stated before is about it
(`Model.Settled`), and a settled model is copied as it is. So the trees that are
regenerated from the second and from the third model are the same
(`Model.regeneration_stable`).
-/

namespace DotLang

namespace Hierarchy

mutual

/-- The hierarchy with other subgraphs in the same places. -/
def map (change : Subgraph → Subgraph) : Hierarchy → Hierarchy
  | .scope top children => .scope (change top) (mapAll change children)

def mapAll (change : Subgraph → Subgraph) : List Hierarchy → List Hierarchy
  | [] => []
  | first :: rest => first.map change :: mapAll change rest

end

theorem mapAll_eq_map (change : Subgraph → Subgraph) (hierarchies : List Hierarchy) :
    mapAll change hierarchies = hierarchies.map (map change) := by
  induction hierarchies with
  | nil => rfl
  | cons first rest ih => rw [mapAll, ih, List.map_cons]

mutual

theorem restated_map (change : Subgraph → Subgraph) : ∀ hierarchy : Hierarchy,
    (hierarchy.map change).restated = hierarchy.restated.map change
  | .scope top children => by
      rw [map, restated, restated, restatedAll_mapAll change children, List.map_append]
      rfl

theorem restatedAll_mapAll (change : Subgraph → Subgraph) : ∀ hierarchies : List Hierarchy,
    restatedAll (mapAll change hierarchies) = (restatedAll hierarchies).map change
  | [] => rfl
  | first :: rest => by
      rw [mapAll, restatedAll, restatedAll, restated_map change first,
        restatedAll_mapAll change rest, List.map_append]

end

end Hierarchy

/-- Subgraphs that are renamed together with their children keep their hierarchy. -/
theorem Forest.hierarchy?_rename {forest copies : Forest} (nested : forest.Nested)
    (nested' : copies.Nested) {rename : String → String} {copyOf : Subgraph → Subgraph}
    {handle : String} {top : Subgraph} (found : forest.get? handle = some top)
    (copied : ∀ subgraph ∈ forest.descendants handle,
      copies.get? (rename subgraph.key) = some (copyOf subgraph) ∧
        (copyOf subgraph).children = subgraph.children.map rename) :
    copies.hierarchy? (rename handle) =
      (forest.hierarchy? handle).map (Hierarchy.map copyOf) := by
  refine nested.induction (motive := fun handle => ∀ top, forest.get? handle = some top →
    (∀ subgraph ∈ forest.descendants handle,
      copies.get? (rename subgraph.key) = some (copyOf subgraph) ∧
        (copyOf subgraph).children = subgraph.children.map rename) →
    copies.hierarchy? (rename handle) =
      (forest.hierarchy? handle).map (Hierarchy.map copyOf)) ?_ found top found copied
  intro handle top found ih top' found' copied
  cases found.symm.trans found'
  rw [nested.descendants_eq found] at copied
  rcases copied top List.mem_cons_self with ⟨copyFound, children_eq⟩
  rw [nested.key_eq found] at copyFound
  rw [nested'.hierarchy?_eq copyFound, nested.hierarchy?_eq found, Option.map_some, Hierarchy.map,
    Hierarchy.mapAll_eq_map, List.map_filterMap, children_eq, List.filterMap_map]
  congr 2
  apply List.filterMap_congr
  intro child child_mem
  rcases Forest.get?_of_parent? (nested.parent_of_child found child_mem) with
    ⟨inner, innerFound, _⟩
  exact ih child child_mem inner innerFound fun subgraph below =>
    copied subgraph (List.mem_cons_of_mem top (List.mem_flatMap.mpr ⟨child, child_mem, below⟩))

namespace Model

/-- The root and the subgraphs below it have copies that are nested in the same way. -/
structure Reproduces (plan : Subgraph → List Item) (copyOf : Subgraph → Subgraph)
    (model draft : Model) : Prop where
  hierarchy_eq : draft.root.bind draft.graphs.hierarchy? =
    (model.root.bind model.graphs.hierarchy?).map (Hierarchy.map copyOf)
  id_eq : ∀ subgraph ∈ model.restatedListed, (copyOf subgraph).id = subgraph.id
  copied : ∀ {earlier subgraph later}, model.restatedListed = earlier ++ subgraph :: later →
    Walk.Copied plan draft earlier subgraph (copyOf subgraph)

end Model

namespace Walk

variable {options : WalkOptions} {model : Model} {plan : Subgraph → List Item}
  {entered : List (Subgraph × String)} {done : List Subgraph} {state : WalkState}

theorem Copying.reproduces
    (copying : Copying options model plan entered model.restatedListed state)
    (nested : model.graphs.Nested) {root : String} {top : Subgraph}
    (root_eq : model.root = some root) (topFound : model.graphs.get? root = some top)
    (entered_eq : entered.map Prod.fst = model.graphs.descendants root) :
    ∃ copyOf, model.Reproduces plan copyOf state.model := by
  rcases copying.exists_rename with ⟨rename, renamed⟩
  let copyOf (subgraph : Subgraph) : Subgraph :=
    (state.model.graphs.get? (rename subgraph.key)).getD subgraph
  have listed_perm : model.restatedListed.Perm (model.graphs.descendants root) := by
    have perm := model.restatedListed_perm
    rwa [Model.listedSubgraphs, root_eq] at perm
  have copied (subgraph : Subgraph) (below : subgraph ∈ model.graphs.descendants root) :
      state.model.graphs.get? (rename subgraph.key) = some (copyOf subgraph) ∧
        (copyOf subgraph).id = subgraph.id ∧
        (copyOf subgraph).children = subgraph.children.map rename ∧
        ∃ earlier later, model.restatedListed = earlier ++ subgraph :: later ∧
          Copied plan state.model earlier subgraph (copyOf subgraph) := by
    have entry_mem := below
    rw [← entered_eq, List.mem_map] at entry_mem
    rcases entry_mem with ⟨entry, entry_mem, rfl⟩
    rcases copying.copied entry_mem (listed_perm.mem_iff.mpr below) with
      ⟨copy, earlier, later, found, id_eq, children_eq, order, copied⟩
    rw [renamed entry entry_mem] at found
    have copy_eq : copyOf entry.1 = copy := by simp only [copyOf, found, Option.getD_some]
    rw [copy_eq]
    refine ⟨found, id_eq, ?_, earlier, later, order, copied⟩
    rw [children_eq, childKeys_eq renamed, entered_eq, nested.map_key_filter_parent topFound below]
  have root_copy : state.model.root = some (rename root) := by
    rw [copying.root_eq_rename renamed, entered_eq, nested.descendants_eq topFound,
      List.head?_cons, Option.map_some, nested.key_eq topFound]
  refine ⟨copyOf, ?_, ?_, ?_⟩
  · rw [root_copy, root_eq]
    exact Forest.hierarchy?_rename nested copying.resolved.nested topFound fun subgraph below =>
      ⟨(copied subgraph below).1, (copied subgraph below).2.2.1⟩
  · intro subgraph subgraph_mem
    exact (copied subgraph (listed_perm.mem_iff.mp subgraph_mem)).2.1
  · intro earlier subgraph later order
    have subgraph_mem : subgraph ∈ model.restatedListed := by simp [order]
    rcases copied subgraph (listed_perm.mem_iff.mp subgraph_mem) with
      ⟨_, _, _, earlier', later', order', copied⟩
    -- No subgraph is listed twice, so there is only one such division.
    have apart : model.restatedListed.Nodup :=
      listed_perm.nodup_iff.mpr (nested.nodup_keys_descendants topFound).of_map
    rw [order, List.nodup_middle, List.nodup_cons, List.mem_append, not_or] at apart
    have same := order.symm.trans order'
    rw [List.append_cons_inj_of_notMem apart.1.1 apart.1.2] at same
    rw [same.1]
    exact copied

end Walk

namespace Model

/-- No member is listed twice, and each end point of an edge is a member of the subgraph of the edge
or stated before. -/
def Settled (model : Model) : Prop :=
  ∀ earlier subgraph later, model.restatedListed = earlier ++ subgraph :: later →
    subgraph.nodes.Nodup ∧ ∀ node ∈ model.endsOf subgraph,
      node ∈ subgraph.nodes ∨ ∃ other ∈ earlier, node ∈ model.statedNodes other

namespace Reproduces

variable {plan : Subgraph → List Item} {copyOf : Subgraph → Subgraph} {model draft : Model}

theorem restatedListed_eq (reproduces : model.Reproduces plan copyOf draft) :
    draft.restatedListed = model.restatedListed.map copyOf := by
  rw [restatedListed, restatedListed, reproduces.hierarchy_eq]
  cases model.root.bind model.graphs.hierarchy? with
  | none => rfl
  | some hierarchy => exact hierarchy.restated_map copyOf

end Reproduces

end Model

namespace Walk.Copied

variable {plan : Subgraph → List Item} {draft : Model} {earlier : List Subgraph}
  {subgraph copy : Subgraph} {node : String}

theorem mem_nodes_of_new (copied : Copied plan draft earlier subgraph copy) {item : Item}
    (item_mem : item ∈ plan subgraph) (about : node ∈ item.nodes)
    (isNew : node ∉ planned plan earlier) : node ∈ copy.nodes := by
  rw [copied.nodes_eq, mem_joinAll]
  exact Or.inr (List.mem_flatMap.mpr ⟨item, item_mem, Item.mem_joining_of_new about isNew⟩)

theorem mem_endsOf_iff (copied : Copied plan draft earlier subgraph copy) :
    node ∈ draft.endsOf copy ↔ ∃ edge, .connect edge ∈ plan subgraph ∧ node ∈ edge.ends := by
  rw [Model.endsOf, copied.created, List.mem_flatMap]
  constructor
  · rintro ⟨edge, edge_mem, isEnd⟩
    rcases List.mem_filterMap.mp edge_mem with ⟨_ | edge', item_mem, edge_eq⟩
    · cases edge_eq
    · cases edge_eq
      exact ⟨edge, item_mem, isEnd⟩
  · rintro ⟨edge, item_mem, isEnd⟩
    exact ⟨edge, List.mem_filterMap.mpr ⟨_, item_mem, rfl⟩, isEnd⟩

/-- What is stated in a copy is stated by it again. -/
theorem mem_statedNodes (copied : Copied plan draft earlier subgraph copy)
    (stated : node ∈ (plan subgraph).flatMap Item.nodes) : node ∈ draft.statedNodes copy := by
  rcases List.mem_flatMap.mp stated with ⟨item, item_mem, about⟩
  rw [Model.statedNodes, List.mem_append]
  cases item with
  | mention id =>
      rw [copied.nodes_eq, mem_joinAll]
      exact Or.inl (Or.inr (List.mem_flatMap.mpr ⟨_, item_mem, about⟩))
  | connect edge => exact Or.inr (copied.mem_endsOf_iff.mpr ⟨edge, item_mem, about⟩)

end Walk.Copied

namespace Model

variable {plan : Subgraph → List Item} {copyOf : Subgraph → Subgraph} {model draft : Model}

/-- Once copied, a model is settled. -/
theorem Reproduces.settled (reproduces : model.Reproduces plan copyOf draft) : draft.Settled := by
  intro earlier subgraph later order
  rw [reproduces.restatedListed_eq] at order
  rcases List.map_eq_append_iff.mp order with ⟨before, rest, listed_eq, rfl, rest_eq⟩
  rcases List.map_eq_cons_iff.mp rest_eq with ⟨source, behind, rfl, rfl, rfl⟩
  have copied := reproduces.copied listed_eq
  refine ⟨?_, fun node isEnd => ?_⟩
  · rw [copied.nodes_eq]
    exact nodup_joinAll List.nodup_nil
  · rcases copied.mem_endsOf_iff.mp isEnd with ⟨edge, item_mem, isEnd⟩
    by_cases known : node ∈ Walk.planned plan before
    · rcases List.mem_flatMap.mp known with ⟨other, other_mem, stated⟩
      rcases List.mem_iff_append.mp other_mem with ⟨first, last, rfl⟩
      rw [List.append_assoc, List.cons_append] at listed_eq
      exact Or.inr ⟨copyOf other, List.mem_map_of_mem other_mem,
        (reproduces.copied listed_eq).mem_statedNodes stated⟩
    · exact Or.inl (copied.mem_nodes_of_new item_mem isEnd known)

/-- In a settled model nothing is left to move. -/
theorem Settled.nodes_eq (settled : model.Settled)
    (reproduces : model.Reproduces model.items copyOf draft) {subgraph : Subgraph}
    (subgraph_mem : subgraph ∈ model.restatedListed) :
    (copyOf subgraph).nodes = subgraph.nodes := by
  rcases List.mem_iff_append.mp subgraph_mem with ⟨earlier, later, order⟩
  rcases settled earlier subgraph later order with ⟨nodup, ends⟩
  have listed : joinAll [] subgraph.nodes = subgraph.nodes := joinAll_eq_append nodup
  rw [(reproduces.copied order).nodes_eq, model.joining_items, joinAll_append, listed]
  apply joinAll_eq_self
  intro node node_mem
  rcases List.mem_filter.mp node_mem with ⟨isEnd, isNew⟩
  refine (ends node isEnd).resolve_right ?_
  rintro ⟨other, other_mem, stated⟩
  rw [decide_eq_true_eq] at isNew
  apply isNew
  rw [← model.nodes_items] at stated
  exact List.mem_flatMap.mpr ⟨other, other_mem, stated⟩

/-! ### Regenerating the same tree -/

mutual

theorem restatedBody_map {change : Subgraph → Subgraph} : ∀ hierarchy : Hierarchy,
    (∀ subgraph ∈ hierarchy.walk, (change subgraph).id = subgraph.id ∧
      draft.restatedOwn (change subgraph) = model.restatedOwn subgraph) →
    draft.restatedBody (hierarchy.map change) = model.restatedBody hierarchy
  | .scope top children, same => by
      rw [Hierarchy.walk] at same
      have below := restatedSubgraphs_mapAll children fun subgraph subgraph_mem =>
        same subgraph (List.mem_cons_of_mem top subgraph_mem)
      rw [Hierarchy.map, restatedBody, restatedBody, below, (same top List.mem_cons_self).2]

theorem restatedSubgraphs_mapAll {change : Subgraph → Subgraph} : ∀ hierarchies : List Hierarchy,
    (∀ subgraph ∈ Hierarchy.walkAll hierarchies, (change subgraph).id = subgraph.id ∧
      draft.restatedOwn (change subgraph) = model.restatedOwn subgraph) →
    draft.restatedSubgraphs (Hierarchy.mapAll change hierarchies) =
      model.restatedSubgraphs hierarchies
  | [], _ => rfl
  | .scope top children :: rest, same => by
      rw [Hierarchy.walkAll] at same
      have here := restatedBody_map (.scope top children) fun subgraph subgraph_mem =>
        same subgraph (List.mem_append_left _ subgraph_mem)
      have behind := restatedSubgraphs_mapAll rest fun subgraph subgraph_mem =>
        same subgraph (List.mem_append_right _ subgraph_mem)
      have id_eq := (same top (List.mem_append_left _ (Hierarchy.top_mem_walk _))).1
      rw [Hierarchy.mapAll, restatedSubgraphs, restatedSubgraphs, here, behind]
      exact congrArg (fun id => Tree.subgraph id _ :: _) id_eq

end

theorem Settled.restatedRoot_eq (settled : model.Settled)
    (reproduces : model.Reproduces model.items copyOf draft)
    (nodes_eq : ∀ id, draft.nodes.get? id = model.nodes.get? id) :
    draft.restatedRoot = model.restatedRoot := by
  have node_eq : draft.restatedNode = model.restatedNode := by
    funext id
    rw [restatedNode, restatedNode, attrsAt, attrsAt, nodes_eq]
  have own_eq (subgraph : Subgraph) (subgraph_mem : subgraph ∈ model.restatedListed) :
      draft.restatedOwn (copyOf subgraph) = model.restatedOwn subgraph := by
    rcases List.mem_iff_append.mp subgraph_mem with ⟨earlier, later, order⟩
    have copied := reproduces.copied order
    rw [restatedOwn, restatedOwn, settled.nodes_eq reproduces subgraph_mem, copied.edges_eq,
      copied.attrs_eq, node_eq]
  rw [restatedRoot, restatedRoot, reproduces.hierarchy_eq]
  cases found : model.root.bind model.graphs.hierarchy? with
  | none => rfl
  | some hierarchy =>
      have listed_eq : model.restatedListed = hierarchy.restated := by rw [restatedListed, found]
      refine restatedBody_map hierarchy fun subgraph subgraph_mem => ?_
      rw [← hierarchy.restated_perm.mem_iff, ← listed_eq] at subgraph_mem
      exact ⟨reproduces.id_eq subgraph subgraph_mem, own_eq subgraph subgraph_mem⟩

end Model

/-! ### The first regenerated tree -/

namespace Walk

variable {options : WalkOptions} {before later : WalkState}

/-- The document has no id before it has a root. -/
theorem Step.id_of_rootless (noId : before.model.root = none → before.model.id = none)
    (step : Step options before later) : later.model.root = none → later.model.id = none := by
  cases step with
  | skip tree =>
      rw [model_after_skip]
      split <;> exact noId
  | enter parent id enclosed =>
      rw [model_after_enter]
      dsimp only
      split <;> exact noId
  | promote key kind isStrict listed =>
      rw [model_after_promote, promoted, Model.setRoot]
      split
      · exact noId
      · split
        · intro rootless
          cases rootless
        · exact noId
  | settle key attrs listed => exact noId
  | mention id attrs defaults parent enclosed => cases parent <;> exact noId
  | createEdges parent edges enclosed known => cases parent <;> exact noId

end Walk

namespace Model

/-- A model with an empty root. -/
def withEmptyRoot (model : Model) : Model :=
  { model with graphs := Walk.plant ∅ none { key := "" }, root := some "" }

theorem restatement_withEmptyRoot {model : Model} (rootless : model.root = none) :
    model.withEmptyRoot.restatement = model.restatement := by
  have noneListed : model.listedSubgraphs = [] := by rw [listedSubgraphs, rootless]
  have root_eq : model.restatedRoot = [] := by
    rw [restatedRoot, rootless]
    rfl
  have nodes_eq : model.withEmptyRoot.unlistedNodes = model.unlistedNodes := by
    rw [unlistedNodes, unlistedNodes, noneListed]
    rfl
  have edges_eq : model.withEmptyRoot.unlistedEdges = model.unlistedEdges := by
    rw [unlistedEdges, unlistedEdges, noneListed]
    rfl
  rw [restatement, restatement, nodes_eq, edges_eq, root_eq]
  rfl

end Model

namespace Walk

variable {options : WalkOptions} {model : Model} {plan : Subgraph → List Item}
  {entered : List (Subgraph × String)} {done : List Subgraph} {state : WalkState}

theorem copyable_withEmptyRoot : Copyable options model.withEmptyRoot := by
  have onlyRoot {key : String} {subgraph : Subgraph}
      (found : model.withEmptyRoot.graphs.get? key = some subgraph) : subgraph.id = none := by
    simp only [Model.withEmptyRoot, plant, OrderedMap.get?_insert, OrderedMap.get?_empty] at found
    split at found <;> cases found
    rfl
  constructor
  · exact @nested_plant ∅ none { key := "" } Forest.nested_empty List.not_mem_nil
      (fun _ handle_mem => (Option.not_mem_none _ handle_mem).elim) rfl rfl
  · intro key subgraph id found id_eq
    cases (onlyRoot found).symm.trans id_eq
  · intro key subgraph id found id_eq
    cases (onlyRoot found).symm.trans id_eq

/-- The copies can be copied again. -/
theorem Copying.copyable (copying : Copying options model plan entered done state)
    (copyable : Copyable options model) : Copyable options state.model := by
  have source {key : String} {copy : Subgraph}
      (found : state.model.graphs.get? key = some copy) :
      ∃ entry ∈ entered, entry.2 = key ∧ copy.id = entry.1.id := by
    have key_mem := OrderedMap.mem_keys_of_get? found
    rw [copying.keys_eq] at key_mem
    rcases List.mem_map.mp key_mem with ⟨entry, entry_mem, rfl⟩
    rcases copying.copies entry entry_mem with ⟨copy', found', id_eq, _⟩
    cases found.symm.trans found'
    exact ⟨entry, entry_mem, rfl, id_eq⟩
  constructor
  · exact copying.resolved.nested
  · intro key copy id found id_eq
    rcases source found with ⟨entry, entry_mem, rfl, same⟩
    exact copying.eq_of_declared entry_mem (same.symm.trans id_eq)
  · intro key copy id found id_eq
    rcases source found with ⟨entry, entry_mem, rfl, same⟩
    exact copyable.free (copying.sources entry entry_mem) (same.symm.trans id_eq)

theorem settles_of_root (copyable : Copyable options model) {root : String} {top : Subgraph}
    (root_eq : model.root = some root) (found : model.graphs.get? root = some top)
    (id_eq : top.id = model.id) :
    ∃ final, (document options model.restatement).run { model := ∅ } = .ok ∅ final ∧
      final.model.Settled ∧ Copyable options final.model := by
  have nested := copyable.nested
  rcases copies_document copyable root_eq found id_eq (nested.parent_ne_key found) with
    ⟨entered, final, run, entered_eq, copying⟩
  rcases copying.reproduces nested root_eq found entered_eq with ⟨copyOf, reproduces⟩
  exact ⟨final, run, reproduces.settled, copying.copyable copyable⟩

/-- Walking a regenerated tree leaves a settled model. -/
theorem settles (copyable : Copyable options model) (wellFormed : model.WellFormed)
    (noId : model.root = none → model.id = none) :
    ∃ final, (document options model.restatement).run { model := ∅ } = .ok ∅ final ∧
      final.model.Settled ∧ Copyable options final.model := by
  cases root_eq : model.root with
  | some root =>
      rcases wellFormed.root_id root_eq with ⟨top, found, id_eq⟩
      exact settles_of_root copyable root_eq found id_eq.symm
  | none =>
      rw [← Model.restatement_withEmptyRoot root_eq]
      exact settles_of_root copyable_withEmptyRoot rfl rfl (noId root_eq).symm

end Walk

namespace Model

/-- The subgraphs of a document can be copied if no declared id looks like a generated key. -/
theorem copyable_record {options : WalkOptions} {tree : Tree}
    (free : ∀ scope ∈ tree.documentScopes, ∀ name ∈ scope.2, ∀ number,
      name ≠ anonymousKey options.anonymousPrefix number) :
    Walk.Copyable options (tree.record options).state.model := by
  have identified := tree.record_identified options
  have opened {key : String} {subgraph : Subgraph} {id : String}
      (found : (tree.record options).state.model.graphs.get? key = some subgraph)
      (id_eq : subgraph.id = some id) :
      ∃ opener ∈ (tree.record options).entries, opener.key = key ∧ opener.id = some id := by
    rcases identified.id_eq key subgraph found with ⟨opener, opener_found, same⟩
    have key_eq : opener.key = key := by simpa using List.find?_some opener_found
    exact ⟨opener, List.mem_of_find?_eq_some opener_found, key_eq, same.symm.trans id_eq⟩
  constructor
  · exact (tree.record_sound options).resolved.nested
  · intro key subgraph id found id_eq
    rcases opened found id_eq with ⟨opener, opener_mem, rfl, declared⟩
    exact identified.declared opener opener_mem id declared
  · intro key subgraph id found id_eq
    rcases opened found id_eq with ⟨opener, opener_mem, _, declared⟩
    have scope_mem : (opener.site, opener.id) ∈ tree.documentScopes := by
      rw [← tree.map_entries_record options]
      exact List.mem_map_of_mem opener_mem
    exact free _ scope_mem id declared

theorem confined_restatement (options : WalkOptions) (model : Model) :
    ∃ root, (Model.walkPlain options model.restatement ∅).model.Confined
      (· ∈ model.restatement.declaredIds) root :=
  confined_graph options model.kind model.id model.isStrict _

theorem walk_eq_of_run {options : WalkOptions} {tree : Tree} {scope : Scope} {final : WalkState}
    (run : (Walk.document options tree).run { model := ∅ } = .ok scope final) :
    Model.walk options .plain tree ∅ = ⟨final.model, final.events, none⟩ := by
  change walkPlain options tree ∅ = _
  rw [walkPlain, run]

/-- A settled model in which everything is inside the root is regenerated as it is. -/
theorem Settled.restatement_eq {options : WalkOptions} {declares : String → Prop} {root : String}
    {state : WalkState} (settled : state.model.Settled)
    (copyable : Walk.Copyable options state.model) (confined : state.model.Confined declares root)
    (resolved : state.model.Resolved) (named : Walk.Named options state) :
    ∃ final, (Walk.document options state.model.restatement).run { model := ∅ } = .ok ∅ final ∧
      final.model.restatement = state.model.restatement := by
  rcases confined.root_id confined.root_eq with ⟨top, topFound, id_eq⟩
  rcases Walk.copies_restatement copyable confined.root_eq topFound id_eq.symm
    (confined.root_parent topFound) confined.unlistedNodes_eq_nil confined.unlistedEdges_eq_nil with
    ⟨entered, final, run, entered_eq, copying⟩
  rcases copying.reproduces copyable.nested confined.root_eq topFound entered_eq with
    ⟨copyOf, reproduces⟩
  rcases @Walk.run_restatement options state.model state resolved named with
    ⟨final', key, subgraph, run', drafts, complete, _, heading_eq, _, _⟩
  cases run.symm.trans run'
  rcases confined_restatement options state.model with ⟨root', confined'⟩
  have walked_eq : (Model.walkPlain options state.model.restatement ∅).model = final.model :=
    congrArg WalkResult.model (walk_eq_of_run run)
  rw [walked_eq] at confined'
  have body_eq := settled.restatedRoot_eq reproduces (drafts.get?_nodes_eq complete)
  simp only [heading, Prod.mk.injEq] at heading_eq
  rcases heading_eq with ⟨_, sameId, kind_eq, isStrict_eq, _⟩
  refine ⟨final, run, ?_⟩
  rw [restatement, restatement, body_eq, sameId, kind_eq, isStrict_eq,
    confined.unlistedNodes_eq_nil, confined.unlistedEdges_eq_nil, confined'.unlistedNodes_eq_nil,
    confined'.unlistedEdges_eq_nil]
  rfl

/-- Regeneration stabilises after one round: the tree of the second model is the tree of the third,
if no declared id looks like a generated key. -/
theorem regeneration_stable {options : WalkOptions} (lenient : options.isStrict = false)
    {tree : Tree} (namesNodes : tree.namesNodes)
    (free : ∀ scope ∈ tree.documentScopes, ∀ name ∈ scope.2, ∀ number,
      name ≠ anonymousKey options.anonymousPrefix number) :
    let first := Model.walk options .plain tree ∅
    first.failure = none ∧
      ∃ once twice, first.model.toTree Geometry.plain.encode = .ok once ∧
        let second := Model.walk options .plain once ∅
        second.failure = none ∧ second.model.toTree Geometry.plain.encode = .ok twice ∧
          let third := Model.walk options .plain twice ∅
          third.failure = none ∧ third.model.toTree Geometry.plain.encode = .ok twice := by
  intro first
  have first_eq : first = ⟨(tree.record options).state.model, _, none⟩ :=
    walk_eq_record lenient namesNodes
  have copyable : Walk.Copyable options first.model := first_eq ▸ copyable_record free
  have wellFormed : first.model.WellFormed :=
    first_eq ▸ (tree.record_sound options).resolved.toWellFormed
  have noId : first.model.root = none → first.model.id = none := by
    rcases Model.walkPlain_steps options tree ∅ with ⟨state, steps, model_eq⟩
    have same : first.model = state.model := model_eq
    rw [same]
    exact steps.preserve (fun state => state.model.root = none → state.model.id = none)
      Walk.Step.id_of_rootless fun _ => rfl
  rcases Walk.settles copyable wellFormed noId with ⟨final, run, settled, copyable'⟩
  have second_eq := walk_eq_of_run run
  rcases Model.walkPlain_steps options first.model.restatement ∅ with ⟨state, steps, model_eq⟩
  have state_eq : final.model = state.model :=
    (congrArg WalkResult.model second_eq).symm.trans model_eq
  rcases confined_restatement options first.model with ⟨root, confined⟩
  rw [model_eq] at confined
  rw [state_eq] at settled copyable' second_eq
  rcases settled.restatement_eq copyable' confined (steps.resolved resolved_empty)
    (steps.named Walk.named_empty wellFormed_empty) with ⟨final', run', same⟩
  refine ⟨by rw [first_eq], first.model.restatement, state.model.restatement,
    first.model.toTree_plain, ?_⟩
  rw [second_eq]
  refine ⟨rfl, state.model.toTree_plain, ?_⟩
  rw [walk_eq_of_run run', ← same]
  exact ⟨rfl, final'.model.toTree_plain⟩

/-- The first regenerated tree states the edge before the node `a`, so the node moves to the
subgraph of the edge. -/
theorem regeneration_stable_of_moved :
    let node (id : String) : Tree := .nodeStmt (.nodeId { id }) []
    let edge (tail head : String) : Tree :=
      .edgeStmt [.nodeId { id := tail }, .nodeId { id := head }] []
    let tree := Tree.list [edge "c" "a",
      .graph "digraph" "g" false [node "a", .subgraph none [edge "a" "b"]]]
    let once := Tree.graph "digraph" "g" false
      [.subgraph none [node "b", edge "a" "b"], node "a", node "c", edge "c" "a"]
    let twice := Tree.graph "digraph" "g" false
      [.subgraph none [node "b", node "a", edge "a" "b"], node "a", node "c", edge "c" "a"]
    let regenerated (tree : Tree) :=
      (Model.walk {} .plain tree ∅).model.toTree Geometry.plain.encode
    regenerated tree = .ok once ∧ regenerated once = .ok twice ∧ regenerated twice = .ok twice := by
  intro node edge tree once twice regenerated
  have differ : ∀ scope ∈ tree.documentScopes, ∀ name ∈ scope.2,
      ¬"__anon".toList <+: name.toList := by decide
  have lenient : WalkOptions.isStrict {} = false := rfl
  have namesNodes : tree.namesNodes = true := rfl
  have first_once : regenerated tree = .ok once := by
    have restated : (Model.walk {} .plain tree ∅).model.restatement = once := by
      dsimp only [tree, once, node, edge]
      rfl
    rw [← restated]
    exact toTree_plain _
  have once_twice : regenerated once = .ok twice := by
    have restated : (Model.walk {} .plain once ∅).model.restatement = twice := by
      dsimp only [once, twice, node, edge]
      rfl
    rw [← restated]
    exact toTree_plain _
  rcases regeneration_stable lenient namesNodes fun scope scope_mem name name_mem =>
    ne_anonymousKey (differ scope scope_mem name name_mem) with
    ⟨_, once', twice', once_eq, _, twice_eq, _, again⟩
  cases Except.ok.inj (first_once.symm.trans once_eq)
  cases Except.ok.inj (once_twice.symm.trans twice_eq)
  exact ⟨first_once, once_twice, again⟩

end Model

end DotLang
