import DotLang.Proofs.Rereading
import DotLang.Proofs.Walk.Record

/-!
# Where the values of a model come from

A walk makes up no values but the texts of ports. Every other value of a node, an
edge or a subgraph stands in an attribute of the tree (`Model.walk_values`): the
lines of a script carry values of the tree only, as attributes of a statement or
as defaults, and following a line takes values over without a change.
-/

namespace DotLang

/-! ### Attributes -/

/-- Whether all values among attributes are of a kind. -/
def Attributes.Values (ofKind : Value → Prop) (attrs : Attributes) : Prop :=
  ∀ name value, attrs.get? name = some value → ofKind value

namespace Attributes

variable {ofKind : Value → Prop} {attrs source : Attributes}

theorem values_empty : Values ofKind ∅ :=
  nofun

theorem values_ofList {entries : List (String × Value)}
    (each : ∀ entry ∈ entries, ofKind entry.2) : Values ofKind (OrderedMap.ofList entries) := by
  intro name value found
  rw [OrderedMap.get?_ofList, List.lookup_eq_some_iff] at found
  rcases found with ⟨before, behind, reverse_eq, _⟩
  have entry_mem : (name, value) ∈ entries.reverse := by simp [reverse_eq]
  exact each _ (List.mem_reverse.mp entry_mem)

theorem values_ofAttrs {listed : List Attr} (each : ∀ entry ∈ listed, ofKind entry.value) :
    Values ofKind (ofAttrs listed) := by
  apply values_ofList
  intro _ pair_mem
  obtain ⟨entry, entry_mem, rfl⟩ := List.mem_map.mp pair_mem
  exact each entry entry_mem

theorem Values.override (values : attrs.Values ofKind) (values' : source.Values ofKind) :
    Values ofKind (attrs.override source) := by
  intro name value found
  rw [OrderedMap.get?_override, Option.or_eq_some_iff] at found
  rcases found with found | ⟨_, found⟩
  · exact values' name value found
  · exact values name value found

theorem Values.fill (values : attrs.Values ofKind) (values' : source.Values ofKind) :
    Values ofKind (Attributes.fill attrs source) := by
  intro name value found
  rw [Attributes.fill, OrderedMap.get?_fill] at found
  split at found
  · rcases Option.or_eq_some_iff.mp found with found | ⟨_, found⟩
    · exact values' name value found
    · exact values name value found
  · exact values name value found

end Attributes

/-- A text of a port is the only value that a walk makes up. -/
theorem values_portAttrs {ofKind : Value → Prop} (texts : ∀ content, ofKind (.text content))
    (tail head : EndpointGroup) : (portAttrs tail head).Values ofKind := by
  have port (name : String) (group : EndpointGroup) :
      ∀ entry ∈ group.portAttr name, ofKind entry.2 := by
    rw [EndpointGroup.portAttr]
    split
    · exact List.forall_mem_singleton.mpr (texts _)
    · exact List.forall_mem_nil _
  exact Attributes.values_ofList (List.forall_mem_append.mpr ⟨port _ tail, port _ head⟩)

theorem values_edgesAlong {ofKind : Value → Prop} (texts : ∀ content, ofKind (.text content))
    {attrs defaults : Attributes} (listed : attrs.Values ofKind) (filled : defaults.Values ofKind)
    (groups : List EndpointGroup) :
    ∀ edge ∈ edgesAlong attrs defaults groups, edge.attrs.Values ofKind := by
  induction groups with
  | nil => exact List.forall_mem_nil _
  | cons tail rest ih =>
      cases rest with
      | nil => exact List.forall_mem_nil _
      | cons head others =>
          refine List.forall_mem_append.mpr ⟨?_, ih⟩
          intro edge edge_mem
          obtain ⟨tailNode, _, edge_mem⟩ := List.mem_flatMap.mp edge_mem
          obtain ⟨headNode, _, rfl⟩ := List.mem_map.mp edge_mem
          exact (listed.fill (values_portAttrs texts tail head)).fill filled

/-! ### Scripts -/

/-- Whether all values in a scope are of a kind. -/
structure Scope.Values (ofKind : Value → Prop) (scope : Scope) : Prop where
  node : scope.node.Values ofKind
  edge : scope.edge.Values ofKind
  graph : scope.graph.Values ofKind

/-- Whether all values that an instruction carries are of a kind. -/
def Instruction.Values (ofKind : Value → Prop) : Instruction → Prop
  | .settle attrs => attrs.Values ofKind
  | .mention _ attrs defaults => attrs.Values ofKind ∧ defaults.Values ofKind
  | .refer _ defaults => defaults.Values ofKind
  | .connect _ attrs defaults => attrs.Values ofKind ∧ defaults.Values ofKind
  | _ => True

namespace Tree

variable {ofKind : Value → Prop}

/-- Whether all attributes in a tree have values of a kind. -/
abbrev Values (ofKind : Value → Prop) (tree : Tree) : Prop :=
  tree.AllParts (fun _ => True) fun entry => ofKind entry.value

abbrev AllValues (ofKind : Value → Prop) (trees : List Tree) : Prop :=
  AllPartsIn (fun _ => True) (fun entry => ofKind entry.value) trees

theorem values_behind {scope : Scope} (inForce : scope.Values ofKind) {tree : Tree}
    (values : tree.Values ofKind) : (scope.behind tree).Values ofKind := by
  cases tree with
  | attrStmt target attrs =>
      have listed : (Attributes.ofAttrs attrs).Values ofKind := Attributes.values_ofAttrs values
      simp only [Scope.behind, Scope.set?]
      split
      · exact { inForce with node := inForce.node.override listed }
      · split
        · exact { inForce with edge := inForce.edge.override listed }
        · split
          · exact { inForce with graph := inForce.graph.override listed }
          · exact inForce
  | _ => exact inForce

theorem values_foldl_behind {scope : Scope} (inForce : scope.Values ofKind) {trees : List Tree}
    (values : AllValues ofKind trees) : (trees.foldl Scope.behind scope).Values ofKind := by
  induction trees generalizing scope with
  | nil => exact inForce
  | cons tree rest ih => exact ih (values_behind inForce values.1) values.2

/-- Whether the lines of a script carry values of a kind only. -/
abbrev ScriptValues (ofKind : Value → Prop) (lines : List Line) : Prop :=
  ∀ line ∈ lines, line.instruction.Values ofKind

mutual

theorem values_script : ∀ (tree : Tree) (inside : Option Site) (scope : Scope) (site : Site),
    tree.Values ofKind → scope.Values ofKind → ScriptValues ofKind (tree.script inside scope site)
  | .graph kind id isStrict children, inside, scope, site, values, inForce => by
      have body := values_scriptIn children (some site) scope site 0 values inForce
      have settled := (values_foldl_behind inForce values).graph
      simp only [ScriptValues, script, List.forall_mem_cons, List.forall_mem_append]
      refine ⟨trivial, ?_, body, settled, List.forall_mem_nil _⟩
      split
      · exact List.forall_mem_singleton.mpr trivial
      · exact List.forall_mem_nil _
  | .subgraph id children, inside, scope, site, values, inForce => by
      have body := values_scriptIn children (some site) scope site 0 values inForce
      have settled := (values_foldl_behind inForce values).graph
      simp only [ScriptValues, script, List.forall_mem_cons, List.forall_mem_append]
      exact ⟨trivial, body, settled, List.forall_mem_nil _⟩
  | .nodeStmt subject attrs, inside, scope, site, values, inForce => by
      rw [script]
      split
      · exact List.forall_mem_singleton.mpr ⟨Attributes.values_ofAttrs values.2, inForce.node⟩
      · exact List.forall_mem_nil _
  | .edgeStmt endpoints attrs, inside, scope, site, values, inForce => by
      have listed := values_endpointScripts endpoints inside scope site 0 values.1 inForce
      rw [script]
      exact List.forall_mem_append.mpr ⟨listed, List.forall_mem_singleton.mpr
        ⟨Attributes.values_ofAttrs values.2, inForce.edge⟩⟩
  | .attrStmt target attrs, inside, scope, site, values, inForce => by
      rw [script]
      split
      · exact List.forall_mem_nil _
      · exact List.forall_mem_singleton.mpr trivial
  | .nodeId _, _, _, _, _, _ | .attr _, _, _, _, _, _ | .unknown _ _ _, _, _, _, _, _
  | .raw _, _, _, _, _, _ | .list _, _, _, _, _, _ => List.forall_mem_singleton.mpr trivial

theorem values_scriptIn : ∀ (trees : List Tree) (inside : Option Site) (scope : Scope)
    (site : Site) (number : Nat), AllValues ofKind trees → scope.Values ofKind →
    ScriptValues ofKind (scriptIn inside scope site number trees)
  | [], _, _, _, _, _, _ => List.forall_mem_nil _
  | tree :: rest, inside, scope, site, number, values, inForce => by
      rw [scriptIn]
      exact List.forall_mem_append.mpr ⟨values_script tree inside scope _ values.1 inForce,
        values_scriptIn rest inside _ site _ values.2 (values_behind inForce values.1)⟩

theorem values_endpointScript : ∀ (tree : Tree) (inside : Option Site) (scope : Scope)
    (site : Site), tree.Values ofKind → scope.Values ofKind →
    ScriptValues ofKind (tree.endpointScript inside scope site)
  | .subgraph id children, inside, scope, site, values, inForce => by
      have body := values_scriptIn children (some site) scope site 0 values inForce
      have settled := (values_foldl_behind inForce values).graph
      simp only [ScriptValues, endpointScript, List.forall_mem_cons, List.forall_mem_append]
      exact ⟨trivial, body, settled, trivial, List.forall_mem_nil _⟩
  | .nodeId node, _, _, _, _, inForce => List.forall_mem_singleton.mpr inForce.node
  | .graph _ _ _ _, _, _, _, _, _ | .nodeStmt _ _, _, _, _, _, _ | .edgeStmt _ _, _, _, _, _, _
  | .attrStmt _ _, _, _, _, _, _ | .attr _, _, _, _, _, _ | .unknown _ _ _, _, _, _, _, _
  | .raw _, _, _, _, _, _ | .list _, _, _, _, _, _ =>
      List.forall_mem_cons.mpr ⟨trivial, List.forall_mem_singleton.mpr trivial⟩

theorem values_endpointScripts : ∀ (trees : List Tree) (inside : Option Site) (scope : Scope)
    (site : Site) (number : Nat), AllValues ofKind trees → scope.Values ofKind →
    ScriptValues ofKind (endpointScripts inside scope site number trees)
  | [], _, _, _, _, _, _ => List.forall_mem_nil _
  | tree :: rest, inside, scope, site, number, values, inForce => by
      rw [endpointScripts]
      exact List.forall_mem_append.mpr
        ⟨values_endpointScript tree inside scope _ values.1 inForce,
          values_endpointScripts rest inside scope site _ values.2 inForce⟩

end

theorem values_documentScript {tree : Tree} (values : tree.Values ofKind) :
    ScriptValues ofKind tree.documentScript := by
  have start : Scope.Values ofKind ∅ :=
    ⟨Attributes.values_empty, Attributes.values_empty, Attributes.values_empty⟩
  cases tree with
  | list items => exact values_scriptIn items none ∅ [] 0 values start
  | _ => exact values_script _ none ∅ [] values start

end Tree

/-! ### Models -/

/-- Whether all values in a model are of a kind. -/
structure Model.Values (ofKind : Value → Prop) (model : Model) : Prop where
  nodes : ∀ {id node}, model.nodes.get? id = some node → node.attrs.Values ofKind
  edges : ∀ edge ∈ model.edges, edge.attrs.Values ofKind
  graphs : ∀ {key subgraph}, model.graphs.get? key = some subgraph →
    subgraph.attrs.Values ofKind

namespace Model.Values

variable {ofKind : Value → Prop} {options : WalkOptions} {state : WalkState}

theorem empty : Model.Values ofKind ∅ where
  nodes := nofun
  edges := List.forall_mem_nil _
  graphs := nofun

theorem attrsAt {model : Model} (values : model.Values ofKind) (place : Place) :
    (model.attrsAt place).Values ofKind := by
  cases place with
  | node id =>
      rw [Model.attrsAt]
      cases found : model.nodes.get? id with
      | none => exact Attributes.values_empty
      | some node => exact values.nodes found
  | edge number =>
      rw [Model.attrsAt]
      cases found : model.edges[number]? with
      | none => exact Attributes.values_empty
      | some edge => exact values.edges edge (List.mem_of_getElem? found)
  | graph key =>
      rw [Model.attrsAt]
      cases found : model.graphs.get? key with
      | none => exact Attributes.values_empty
      | some subgraph => exact values.graphs found

/-- A subgraph is changed without its attributes, or they are overridden. -/
theorem modify {model : Model} (values : model.Values ofKind) (key : String)
    (change : Subgraph → Subgraph)
    (keeps : ∀ subgraph, subgraph.attrs.Values ofKind → (change subgraph).attrs.Values ofKind) :
    Model.Values ofKind { model with graphs := model.graphs.modify key change } where
  nodes := values.nodes
  edges := values.edges
  graphs found := OrderedMap.forall_get?_modify
    (fun _ subgraph => subgraph.attrs.Values ofKind) values.graphs
    (fun found => keeps _ (values.graphs found)) found

theorem enter (values : state.model.Values ofKind) (nested : state.model.graphs.Nested)
    {parent : Option String} (id : Option String) (enclosed : Walk.Enclosed parent state.model) :
    (Walk.after (Walk.enter options parent id) state).model.Values ofKind := by
  rw [Walk.model_after_enter]
  dsimp only
  split
  · exact values
  · next absent =>
      refine ⟨values.nodes, values.edges, fun found => ?_⟩
      exact Walk.forall_get?_plant (fun _ subgraph => subgraph.attrs.Values ofKind) nested absent
        enclosed values.graphs Attributes.values_empty found

theorem promote (values : state.model.Values ofKind) (key kind : String) (isStrict : Bool) :
    (Walk.after (Walk.promote key kind isStrict) state).model.Values ofKind := by
  have retitled := values.modify key (fun subgraph => { subgraph with kind })
    fun _ kept => kept
  rw [Walk.model_after_promote, Walk.promoted, Model.setRoot]
  split
  · exact retitled
  · split
    · exact ⟨retitled.nodes, retitled.edges, retitled.graphs⟩
    · exact retitled

theorem mention (values : state.model.Values ofKind) (id : String) {attrs defaults : Attributes}
    (listed : attrs.Values ofKind) (filled : defaults.Values ofKind) (parent : Option String) :
    (Walk.after (Walk.mention id attrs defaults parent) state).model.Values ofKind := by
  let node := (state.model.nodes.get? id).getD { id }
  have held : node.attrs.Values ofKind := by
    cases found : state.model.nodes.get? id with
    | none => simpa [node, found] using Attributes.values_empty
    | some old => simpa [node, found] using values.nodes found
  have mentioned : Model.Values ofKind (state.model.putNode
      { node with attrs := Attributes.fill (node.attrs.override attrs) defaults }) := by
    refine ⟨?_, values.edges, values.graphs⟩
    intro other new found
    rw [Model.putNode, OrderedMap.get?_insert] at found
    split at found
    · cases found
      exact (held.override listed).fill filled
    · exact values.nodes found
  cases parent with
  | none => exact mentioned
  | some above =>
      apply mentioned.modify above fun subgraph => subgraph.addNode id
      intro subgraph kept
      rw [Subgraph.addNode]
      split <;> exact kept

theorem createEdges (values : state.model.Values ofKind) (parent : Option String)
    {edges : List Edge} (created : ∀ edge ∈ edges, edge.attrs.Values ofKind) :
    (Walk.after (Walk.createEdges parent edges) state).model.Values ofKind := by
  have added : Model.Values ofKind (state.model.addEdges edges) :=
    ⟨values.nodes, List.forall_mem_append.mpr ⟨values.edges, created⟩, values.graphs⟩
  cases parent with
  | none => exact added
  | some above => exact added.modify above _ fun _ kept => kept

end Model.Values

/-! ### Walks -/

namespace Recorder

variable {ofKind : Value → Prop} {options : WalkOptions} {recorder : Recorder}

/-- Following a line takes values over from the line. -/
theorem values_follow (texts : ∀ content, ofKind (.text content)) (sound : recorder.Sound)
    (values : recorder.state.model.Values ofKind) : ∀ line : Line,
    line.instruction.Values ofKind → (recorder.follow options line).state.model.Values ofKind
  | ⟨site, inside, .enter id⟩, _ => values.enter sound.resolved.nested id (sound.enclosed inside)
  | ⟨site, inside, .promote kind isStrict⟩, _ => by
      simp only [follow]
      split
      · exact values.promote _ kind isStrict
      · exact values
  | ⟨site, inside, .settle attrs⟩, carried => by
      simp only [follow]
      split
      · exact values.modify _ _ fun subgraph kept => kept.override carried
      · exact values
  | ⟨site, inside, .gather⟩, _ => by
      simp only [follow]
      split <;> exact values
  | ⟨site, inside, .mention id attrs defaults⟩, carried => values.mention id carried.1 carried.2 _
  | ⟨site, inside, .refer node defaults⟩, carried => by
      simp only [follow]
      split
      · exact values
      · exact values.mention node.id Attributes.values_empty carried _
  | ⟨site, inside, .skip diagnostic⟩, _ => ⟨values.nodes, values.edges, values.graphs⟩
  | ⟨site, inside, .blank⟩, _ => values
  | ⟨site, inside, .connect count attrs defaults⟩, carried =>
      values.createEdges _ (values_edgesAlong texts carried.1 carried.2 _)

theorem values_run (texts : ∀ content, ofKind (.text content)) {script : List Line}
    (carried : Tree.ScriptValues ofKind script) (sound : recorder.Sound)
    (values : recorder.state.model.Values ofKind) :
    (recorder.run options script).state.model.Values ofKind := by
  induction script generalizing recorder with
  | nil => exact values
  | cons line rest ih =>
      rw [Tree.ScriptValues, List.forall_mem_cons] at carried
      exact ih carried.2 (sound.follow line) (values_follow texts sound values line carried.1)

end Recorder

/-- What holds of all texts and of all values in a tree holds of all values in the model that a
lenient walk makes of it. -/
theorem Model.walk_values {options : WalkOptions} (lenient : options.isStrict = false)
    {tree : Tree} (named : tree.namesNodes) {ofKind : Value → Prop}
    (texts : ∀ content, ofKind (.text content)) (values : tree.Values ofKind) :
    (Model.walk options .plain tree ∅).model.Values ofKind := by
  rw [Model.walk_eq_record lenient named]
  exact Recorder.values_run texts (Tree.values_documentScript values) Recorder.sound_empty .empty

end DotLang
