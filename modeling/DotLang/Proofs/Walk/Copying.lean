import DotLang.Proofs.Walk.Writing

/-!
# Copying subgraphs

A walk of a regenerated tree copies the subgraphs of a model one by one. It
enters a copy, copies the subgraphs inside it, and then walks the statements of
the subgraph itself. At any time some copies have been entered and some of these
are done (`Copying`). There are two steps: a copy is entered (`Copying.enter`),
and the statements of a copy are walked (`Copying.finish`).

A plan says which items are stated in a copy. For most subgraphs these are the
members and the edges; the copy of the root also gets what no subgraph lists. The
members of a copy are the nodes that are stated in it, and moreover every end
point of one of its edges that nothing stated before is about. This is because an
edge statement mentions its new endpoints, and a regenerated tree states the
innermost subgraphs first.
-/

namespace DotLang

namespace Walk

variable {options : WalkOptions} {model : Model} {plan : Subgraph → List Item} {key : String}
  {state : WalkState}

/-- What the subgraphs of a model must satisfy so that no two of them get one copy. -/
structure Copyable (options : WalkOptions) (model : Model) : Prop where
  nested : model.graphs.Nested
  declared : ∀ {key subgraph id}, model.graphs.get? key = some subgraph →
    subgraph.id = some id → key = id
  /-- No declared id looks like a generated key. -/
  free : ∀ {key subgraph id}, model.graphs.get? key = some subgraph → subgraph.id = some id →
    ∀ number, id ≠ anonymousKey options.anonymousPrefix number

/-- The copies of the children of a subgraph, as far as they have been entered. -/
def childKeys (entered : List (Subgraph × String)) (subgraph : Subgraph) : List String :=
  (entered.filter fun entry => entry.1.parent = some subgraph.key).map Prod.snd

/-- The nodes that the copies of some subgraphs are about. -/
def planned (plan : Subgraph → List Item) (subgraphs : List Subgraph) : List String :=
  subgraphs.flatMap fun subgraph => (plan subgraph).flatMap Item.nodes

/-- The copy of a subgraph whose items have been stated after those of the subgraphs `earlier`. -/
structure Copied (plan : Subgraph → List Item) (draft : Model) (earlier : List Subgraph)
    (subgraph copy : Subgraph) : Prop where
  attrs_eq : copy.attrs = subgraph.attrs
  created : draft.edgesAt copy.edges = (plan subgraph).filterMap Item.edge?
  nodes_eq : copy.nodes =
    joinAll [] ((plan subgraph).flatMap (Item.joining (planned plan earlier)))

namespace Copied

variable {draft : Model} {earlier : List Subgraph} {subgraph copy : Subgraph}

theorem edges_eq (copied : Copied model.items draft earlier subgraph copy) :
    draft.edgesAt copy.edges = model.edgesAt subgraph.edges :=
  copied.created.trans (model.edges_items subgraph)

theorem mem_nodes_iff (copied : Copied model.items draft earlier subgraph copy) (node : String) :
    node ∈ copy.nodes ↔ node ∈ subgraph.nodes ∨
      node ∈ model.endsOf subgraph ∧ ∀ other ∈ earlier, node ∉ model.statedNodes other := by
  rw [copied.nodes_eq, mem_joinAll, model.joining_items, List.mem_append, List.mem_filter]
  simp [planned, model.nodes_items]

end Copied

/-- What a copy holds: nothing yet, or all that it ever gets. -/
inductive Contents (plan : Subgraph → List Item) (draft : Model) (done : List Subgraph)
    (subgraph copy : Subgraph) : Prop where
  | pending (notDone : subgraph ∉ done) (noAttrs : copy.attrs = ∅) (noNodes : copy.nodes = [])
      (noEdges : copy.edges = []) : Contents plan draft done subgraph copy
  | complete (earlier later : List Subgraph) (done_eq : done = earlier ++ subgraph :: later)
      (copied : Copied plan draft earlier subgraph copy) :
      Contents plan draft done subgraph copy

/-- Copies of some subgraphs have been entered, here listed with their keys, and those of the
subgraphs `done` are complete. -/
structure Copying (options : WalkOptions) (model : Model) (plan : Subgraph → List Item)
    (entered : List (Subgraph × String)) (done : List Subgraph) (state : WalkState) : Prop where
  resolved : state.model.Resolved
  keys_eq : state.model.graphs.keys = entered.map Prod.snd
  nodup : (entered.map fun entry => entry.1.key).Nodup
  sources : ∀ entry ∈ entered, model.graphs.get? entry.1.key = some entry.1
  /-- A copy stands under the declared id or a generated key. -/
  names : ∀ entry ∈ entered, entry.1.id = some entry.2 ∨
    entry.1.id = none ∧ ∃ number, entry.2 = anonymousKey options.anonymousPrefix number
  done_entered : ∀ subgraph ∈ done, ∃ key, (subgraph, key) ∈ entered
  copies : ∀ entry ∈ entered, ∃ copy, state.model.graphs.get? entry.2 = some copy ∧
    copy.id = entry.1.id ∧ copy.children = childKeys entered entry.1 ∧
    Contents plan state.model done entry.1 copy
  nodes : ∀ node, node ∈ state.model.nodes.keys ↔ node ∈ planned plan done
  /-- The copy of the root is the first. -/
  root_eq : state.model.root = entered.head?.map Prod.snd

namespace Contents

variable {draft later : Model} {done : List Subgraph} {subgraph copy copy' : Subgraph}

/-- A copy is left alone while edges are created elsewhere. -/
theorem transfer (contents : Contents plan draft done subgraph copy)
    (attrs_eq : copy'.attrs = copy.attrs) (nodes_eq : copy'.nodes = copy.nodes)
    (numbers_eq : copy'.edges = copy.edges)
    (bounded : ∀ number ∈ copy.edges, number < draft.edges.length) {edges : List Edge}
    (edges_eq : later.edges = draft.edges ++ edges) :
    Contents plan later done subgraph copy' := by
  cases contents with
  | pending notDone noAttrs noNodes noEdges =>
      exact .pending notDone (attrs_eq.trans noAttrs) (nodes_eq.trans noNodes)
        (numbers_eq.trans noEdges)
  | complete earlier behind done_eq copied =>
      refine .complete earlier behind done_eq ⟨attrs_eq.trans copied.attrs_eq, ?_,
        nodes_eq.trans copied.nodes_eq⟩
      rw [← copied.created, numbers_eq, Model.edgesAt, Model.edgesAt]
      apply List.filterMap_congr
      intro number number_mem
      rw [edges_eq, List.getElem?_append_left (bounded number number_mem)]

theorem append (contents : Contents plan draft done subgraph copy) {other : Subgraph}
    (differs : subgraph ≠ other) : Contents plan draft (done ++ [other]) subgraph copy := by
  cases contents with
  | pending notDone noAttrs noNodes noEdges =>
      exact .pending (by simp [notDone, differs]) noAttrs noNodes noEdges
  | complete earlier behind done_eq copied =>
      exact .complete earlier (behind ++ [other]) (by simp [done_eq]) copied

end Contents

namespace Copying

variable {entered : List (Subgraph × String)} {done : List Subgraph} {top subgraph : Subgraph}

theorem eq_of_key (copying : Copying options model plan entered done state)
    {entry entry' : Subgraph × String} (entry_mem : entry ∈ entered) (entry'_mem : entry' ∈ entered)
    (same : entry.2 = entry'.2) : entry = entry' := by
  have nodup := copying.keys_eq ▸ state.model.graphs.nodup_keys
  exact List.inj_on_of_nodup_map nodup entry_mem entry'_mem same

theorem eq_of_source (copying : Copying options model plan entered done state)
    {entry entry' : Subgraph × String} (entry_mem : entry ∈ entered) (entry'_mem : entry' ∈ entered)
    (same : entry.1.key = entry'.1.key) : entry = entry' :=
  List.inj_on_of_nodup_map copying.nodup entry_mem entry'_mem same

theorem listed (copying : Copying options model plan entered done state)
    (entry_mem : (subgraph, key) ∈ entered) : key ∈ state.model.graphs.keys := by
  rw [copying.keys_eq]
  exact List.mem_map_of_mem entry_mem

theorem entryKey_free (copying : Copying options model plan entered done state)
    (copyable : Copyable options model) (found : model.graphs.get? subgraph.key = some subgraph)
    (isNew : subgraph.key ∉ entered.map fun entry => entry.1.key) :
    entryKey options subgraph.id state ∉ state.model.graphs.keys := by
  cases id_eq : subgraph.id with
  | none => exact entryKey_none_free options state
  | some id =>
      rw [copying.keys_eq, List.mem_map]
      rintro ⟨entry, entry_mem, same⟩
      replace same : entry.2 = id := same
      rcases copying.names entry entry_mem with isDeclared | ⟨_, number, generated⟩
      · apply isNew
        rw [copyable.declared found id_eq, List.mem_map]
        refine ⟨entry, entry_mem, ?_⟩
        exact (copyable.declared (copying.sources entry entry_mem) isDeclared).trans same
      · exact copyable.free found id_eq number (same.symm.trans generated)

theorem childKeys_append (entry : Subgraph × String) :
    childKeys (entered ++ [entry]) subgraph =
      childKeys entered subgraph ++
        if entry.1.parent = some subgraph.key then [entry.2] else [] := by
  rw [childKeys, List.filter_append, List.map_append, childKeys]
  by_cases isChild : entry.1.parent = some subgraph.key <;> simp [isChild]

theorem childKeys_eq_nil (noChild : ∀ entry ∈ entered, entry.1.parent ≠ some subgraph.key) :
    childKeys entered subgraph = [] := by
  rw [childKeys, List.map_eq_nil_iff, List.filter_eq_nil_iff]
  intro entry entry_mem
  simpa using noChild entry entry_mem

section Enter

variable {newKey : String}

/-- The model with a copy of `subgraph` planted into the copy under `key`. -/
def planted (state : WalkState) (key newKey : String) (subgraph : Subgraph) : Model :=
  { state.model with
    graphs := plant state.model.graphs (some key) { key := newKey, id := subgraph.id } }

/-- Only the copy of the parent changes when a copy is planted: it gets another child. -/
theorem copy_of_planted (copying : Copying options model plan entered done state)
    (top_mem : (top, key) ∈ entered) (absent : newKey ∉ state.model.graphs.keys)
    (parent_eq : subgraph.parent = some top.key) {entry : Subgraph × String}
    (entry_mem : entry ∈ entered) :
    ∃ copy, (planted state key newKey subgraph).graphs.get? entry.2 = some copy ∧
      copy.id = entry.1.id ∧ copy.children = childKeys (entered ++ [(subgraph, newKey)]) entry.1 ∧
      Contents plan (planted state key newKey subgraph) done entry.1 copy := by
  let new : Subgraph := { key := newKey, id := subgraph.id }
  have isAbsent : new.key ∉ state.model.graphs.keys := absent
  have enclosed : Enclosed (some key) state.model := enclosed_some (copying.listed top_mem)
  have lookup := get?_plant copying.resolved.nested isAbsent enclosed
  have differs : entry.2 ≠ new.key := by
    intro same
    apply isAbsent
    rw [← same]
    exact copying.listed entry_mem
  rcases copying.copies entry entry_mem with ⟨copy, copyFound, id_eq, children_eq, contents⟩
  have bounded := copying.resolved.edges_lt copyFound
  have edges_eq := (List.append_nil state.model.edges).symm
  change ∃ copy, (plant state.model.graphs (some key) new).get? entry.2 = some copy ∧ _
  simp only [lookup, childKeys_append, parent_eq, Option.some_inj]
  rw [if_neg differs, copyFound]
  by_cases isParent : entry.2 = key
  · have same : entry = (top, key) := copying.eq_of_key entry_mem top_mem isParent
    refine ⟨{ copy with children := copy.children ++ [newKey] }, ?_, id_eq, ?_,
      contents.transfer rfl rfl rfl bounded edges_eq⟩
    · rw [if_pos isParent]
      rfl
    · rw [if_pos (by rw [same]), children_eq]
  · have otherSource : ¬top.key = entry.1.key := by
      intro same
      apply isParent
      rw [← copying.eq_of_source top_mem entry_mem same]
    refine ⟨copy, by rw [if_neg isParent], id_eq, ?_,
      contents.transfer rfl rfl rfl bounded edges_eq⟩
    rw [if_neg otherSource, List.append_nil]
    exact children_eq

/-- A copy that has just been planted is empty. -/
theorem planted_copy (copying : Copying options model plan entered done state)
    (top_mem : (top, key) ∈ entered) (absent : newKey ∉ state.model.graphs.keys)
    (parent_eq : subgraph.parent = some top.key)
    (isNew : subgraph.key ∉ entered.map fun entry => entry.1.key)
    (noChild : ∀ entry ∈ entered, entry.1.parent ≠ some subgraph.key) :
    ∃ copy, (planted state key newKey subgraph).graphs.get? newKey = some copy ∧
      copy.id = subgraph.id ∧
      copy.children = childKeys (entered ++ [(subgraph, newKey)]) subgraph ∧
      Contents plan (planted state key newKey subgraph) done subgraph copy := by
  let new : Subgraph := { key := newKey, id := subgraph.id }
  have isAbsent : new.key ∉ state.model.graphs.keys := absent
  have enclosed : Enclosed (some key) state.model := enclosed_some (copying.listed top_mem)
  have notDone : subgraph ∉ done := by
    intro isDone
    rcases copying.done_entered subgraph isDone with ⟨other, entry_mem⟩
    exact isNew (List.mem_map.mpr ⟨_, entry_mem, rfl⟩)
  have otherSource : ¬subgraph.parent = some subgraph.key := by
    rw [parent_eq, Option.some_inj]
    exact fun same => isNew (List.mem_map.mpr ⟨_, top_mem, same⟩)
  refine ⟨{ new with parent := some key }, ?_, rfl, ?_, .pending notDone rfl rfl rfl⟩
  · exact (get?_plant copying.resolved.nested isAbsent enclosed newKey).trans (if_pos rfl)
  · rw [childKeys_append, childKeys_eq_nil noChild, if_neg otherSource]
    rfl

/-- A copy is entered inside that of its parent. -/
theorem enter (copying : Copying options model plan entered done state)
    (copyable : Copyable options model) (top_mem : (top, key) ∈ entered)
    (found : model.graphs.get? subgraph.key = some subgraph)
    (parent_eq : subgraph.parent = some top.key)
    (isNew : subgraph.key ∉ entered.map fun entry => entry.1.key)
    (noChild : ∀ entry ∈ entered, entry.1.parent ≠ some subgraph.key) :
    Copying options model plan (entered ++ [(subgraph, entryKey options subgraph.id state)]) done
      (after (Walk.enter options (some key) subgraph.id) state) := by
  have absent := copying.entryKey_free copyable found isNew
  have entering : Step options state (after (Walk.enter options (some key) subgraph.id) state) :=
    .enter (some key) subgraph.id (enclosed_some (copying.listed top_mem))
  have resolved := entering.resolved copying.resolved
  generalize key_eq : entryKey options subgraph.id state = newKey at absent ⊢
  have model_eq : (after (Walk.enter options (some key) subgraph.id) state).model =
      planted state key newKey subgraph := by
    rw [model_after_enter, key_eq]
    exact if_neg absent
  constructor
  case resolved => exact resolved
  case keys_eq =>
    rw [model_eq, planted, keys_plant, OrderedMap.keys_insert_of_not_mem _ absent,
      copying.keys_eq, List.map_append]
    rfl
  case nodup =>
    rw [List.map_append, List.map_singleton, List.nodup_append]
    refine ⟨copying.nodup, List.nodup_singleton _, ?_⟩
    rintro other other_mem _ last_mem rfl
    rw [List.mem_singleton.mp last_mem] at other_mem
    exact isNew other_mem
  case sources =>
    intro entry entry_mem
    rcases List.mem_append.mp entry_mem with old_mem | last_mem
    · exact copying.sources entry old_mem
    · rw [List.mem_singleton.mp last_mem]
      exact found
  case names =>
    intro entry entry_mem
    rcases List.mem_append.mp entry_mem with old_mem | last_mem
    · exact copying.names entry old_mem
    · rw [List.mem_singleton.mp last_mem, ← key_eq]
      cases subgraph.id with
      | none => exact Or.inr ⟨rfl, _, rfl⟩
      | some id => exact Or.inl rfl
  case done_entered =>
    intro other isDone
    rcases copying.done_entered other isDone with ⟨otherKey, entry_mem⟩
    exact ⟨otherKey, List.mem_append_left _ entry_mem⟩
  case copies =>
    intro entry entry_mem
    rw [model_eq]
    rcases List.mem_append.mp entry_mem with old_mem | last_mem
    · exact copying.copy_of_planted top_mem absent parent_eq old_mem
    · rw [List.mem_singleton.mp last_mem]
      exact copying.planted_copy top_mem absent parent_eq isNew noChild
  case nodes =>
    rw [model_eq]
    exact copying.nodes
  case root_eq =>
    rw [model_eq, List.head?_append_of_ne_nil _ (List.ne_nil_of_mem top_mem)]
    exact copying.root_eq

end Enter

section Finish

variable {walked : WalkState}

/-- The attributes of a copy are settled once its statements have been walked. -/
def settled (walked : WalkState) (key : String) (subgraph : Subgraph) : Model :=
  { walked.model with
    graphs := walked.model.graphs.modify key fun copy =>
      { copy with attrs := copy.attrs.override subgraph.attrs } }

theorem settled_copy (copying : Copying options model plan entered done state)
    (subgraph_mem : (subgraph, key) ∈ entered) (isOpen : subgraph ∉ done)
    (writes : WritesItems options key (plan subgraph) state walked) :
    ∃ copy, (settled walked key subgraph).graphs.get? key = some copy ∧ copy.id = subgraph.id ∧
      copy.children = childKeys entered subgraph ∧
      Contents plan (settled walked key subgraph) (done ++ [subgraph]) subgraph copy := by
  rcases copying.copies _ subgraph_mem with ⟨copy, copyFound, id_eq, children_eq, contents⟩
  cases contents with
  | complete earlier later done_eq copied => exact absurd (by simp [done_eq]) isOpen
  | pending notDone noAttrs noNodes noEdges =>
      rcases writes.own copy copyFound with ⟨new, newFound, place, attrs, numbers, nodes⟩
      refine ⟨{ new with attrs := new.attrs.override subgraph.attrs }, ?_,
        place.id.trans id_eq, place.children.trans children_eq,
        .complete done [] rfl ⟨?_, ?_, ?_⟩⟩
      · rw [settled, OrderedMap.get?_modify, if_pos rfl, newFound]
        rfl
      · change new.attrs.override subgraph.attrs = subgraph.attrs
        rw [attrs, noAttrs, OrderedMap.empty_override]
      · change walked.model.edgesAt new.edges = _
        rw [numbers, noEdges, List.nil_append]
        exact Model.edgesAt_last writes.edges_eq
      · change new.nodes = _
        rw [nodes, noNodes]
        exact Item.joinAll_joining _ (fun node known => (copying.nodes node).mpr known)
          fun node known => Or.inl ((copying.nodes node).mp known)

/-- Other copies stay as they are. -/
theorem copy_of_settled (copying : Copying options model plan entered done state)
    (subgraph_mem : (subgraph, key) ∈ entered)
    (writes : WritesItems options key (plan subgraph) state walked)
    {entry : Subgraph × String} (entry_mem : entry ∈ entered) (isOther : entry.2 ≠ key) :
    ∃ copy, (settled walked key subgraph).graphs.get? entry.2 = some copy ∧
      copy.id = entry.1.id ∧ copy.children = childKeys entered entry.1 ∧
      Contents plan (settled walked key subgraph) (done ++ [subgraph]) entry.1 copy := by
  rcases copying.copies entry entry_mem with ⟨copy, copyFound, id_eq, children_eq, contents⟩
  have notLast : entry.1 ≠ subgraph := by
    rintro same
    have sameEntry := copying.eq_of_source entry_mem subgraph_mem (by rw [same])
    exact isOther (by rw [sameEntry])
  have bounded := copying.resolved.edges_lt copyFound
  have unchanged : Contents plan (settled walked key subgraph) done entry.1 copy :=
    contents.transfer rfl rfl rfl bounded writes.edges_eq
  refine ⟨copy, ?_, id_eq, children_eq, unchanged.append notLast⟩
  rw [settled, OrderedMap.get?_modify, if_neg isOther, writes.others entry.2 isOther]
  exact copyFound

/-- The statements of a copy are walked, and its attributes are settled. -/
theorem finish (copying : Copying options model plan entered done state)
    (subgraph_mem : (subgraph, key) ∈ entered) (isOpen : subgraph ∉ done)
    (writes : WritesItems options key (plan subgraph) state walked) :
    Copying options model plan entered (done ++ [subgraph])
      (after (settle key subgraph.attrs) walked) := by
  have settling : Step options walked (after (settle key subgraph.attrs) walked) :=
    .settle key subgraph.attrs (writes.listed (copying.listed subgraph_mem))
  have model_eq : (after (settle key subgraph.attrs) walked).model = settled walked key subgraph :=
    rfl
  constructor
  case resolved => exact settling.resolved (writes.steps.resolved copying.resolved)
  case keys_eq => rw [model_eq, settled, OrderedMap.keys_modify, writes.keys_eq, copying.keys_eq]
  case nodup => exact copying.nodup
  case sources => exact copying.sources
  case names => exact copying.names
  case done_entered =>
    intro other isDone
    rcases List.mem_append.mp isDone with old_mem | last_mem
    · exact copying.done_entered other old_mem
    · rw [List.mem_singleton.mp last_mem]
      exact ⟨key, subgraph_mem⟩
  case copies =>
    intro entry entry_mem
    rw [model_eq]
    by_cases isSame : entry.2 = key
    · cases copying.eq_of_key entry_mem subgraph_mem isSame
      exact copying.settled_copy subgraph_mem isOpen writes
    · exact copying.copy_of_settled subgraph_mem writes entry_mem isSame
  case nodes =>
    intro node
    rw [model_eq]
    change node ∈ walked.model.nodes.keys ↔ _
    rw [writes.nodes, copying.nodes, planned, planned, List.flatMap_append, List.mem_append,
      List.flatMap_singleton]
  case root_eq => exact writes.root_eq.trans copying.root_eq

end Finish

end Copying

end Walk

end DotLang
