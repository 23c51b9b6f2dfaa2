import DotLang.Proofs.Walk.Script

/-!
# What a record says about the model

Whatever happens in a walk, its record fits the model: the model is resolved, the
subgraphs that statements have entered are listed, the endpoints that wait for
their edges stand for nodes, and an edge was created inside the subgraph that was
entered at the innermost statement around it (`record_sound`). Each line of a
script keeps this, so it can be assumed of every state of a walk.
-/

namespace DotLang

namespace Recorder

structure Sound (recorder : Recorder) : Prop where
  resolved : recorder.state.model.Resolved
  /-- Entered subgraphs are listed. -/
  entered : ∀ entry ∈ recorder.entries, entry.key ∈ recorder.state.model.graphs.keys
  /-- Endpoints stand for nodes. -/
  known : ∀ group ∈ recorder.groups, ∀ node ∈ group.nodes,
    node ∈ recorder.state.model.nodes.keys
  /-- The owner of an edge was entered around its statement. -/
  owned : ∀ creation ∈ recorder.creations, ∀ owner ∈ creation.owner,
    ∃ entry ∈ recorder.entries, creation.inside = some entry.site ∧ owner = entry.key

variable {options : WalkOptions} {recorder : Recorder} {site : Site} {key : String}

theorem exists_entry_of_keyAt? (found : recorder.keyAt? site = some key) :
    ∃ entry ∈ recorder.entries, entry.site = site ∧ entry.key = key := by
  rw [keyAt?, Option.map_eq_some_iff] at found
  rcases found with ⟨entry, entry_found, key_eq⟩
  refine ⟨entry, ?_, by simpa using List.find?_some entry_found, key_eq⟩
  exact List.mem_reverse.mp (List.mem_of_find?_eq_some entry_found)

namespace Sound

theorem listed (sound : recorder.Sound) (found : recorder.keyAt? site = some key) :
    key ∈ recorder.state.model.graphs.keys := by
  rcases exists_entry_of_keyAt? found with ⟨entry, entry_mem, _, rfl⟩
  exact sound.entered entry entry_mem

theorem enclosed (sound : recorder.Sound) (inside : Option Site) :
    Walk.Enclosed (inside.bind recorder.keyAt?) recorder.state.model := by
  intro key key_mem
  rcases Option.bind_eq_some_iff.mp key_mem with ⟨site, _, found⟩
  exact sound.listed found

theorem change (sound : recorder.Sound) {state : WalkState} (resolved : state.model.Resolved)
    (grows : recorder.state.model.Grows state.model) : Sound { recorder with state } where
  resolved := resolved
  entered entry entry_mem := grows.graphs (sound.entered entry entry_mem)
  known group group_mem node node_mem := grows.nodes (sound.known group group_mem node node_mem)
  owned := sound.owned

theorem step (sound : recorder.Sound) (options : WalkOptions) {state : WalkState}
    (step : Walk.Step options recorder.state state) : Sound { recorder with state } :=
  sound.change (step.resolved sound.resolved) step.grows

theorem enter (sound : recorder.Sound) (parent id : Option String) (site : Site)
    (enclosed : Walk.Enclosed parent recorder.state.model) :
    let entry : Entry := { site, id, key := Walk.entryKey options id recorder.state }
    Sound { recorder with
      state := Walk.after (Walk.enter options parent id) recorder.state
      entries := recorder.entries ++ [entry] } := by
  intro entry
  have stepped := sound.step options (.enter parent id enclosed)
  have isListed : entry.key ∈
      (Walk.after (Walk.enter options parent id) recorder.state).model.graphs.keys :=
    Walk.entered_mem_keys parent id recorder.state
  refine ⟨stepped.resolved, ?_, stepped.known, ?_⟩
  · intro other other_mem
    rcases List.mem_append.mp other_mem with other_mem | other_mem
    · exact stepped.entered other other_mem
    · exact List.mem_singleton.mp other_mem ▸ isListed
  · intro creation creation_mem owner owner_mem
    rcases sound.owned creation creation_mem owner owner_mem with ⟨other, other_mem, owned⟩
    exact ⟨other, List.mem_append_left _ other_mem, owned⟩

theorem push (sound : recorder.Sound) {group : EndpointGroup}
    (known : ∀ node ∈ group.nodes, node ∈ recorder.state.model.nodes.keys) :
    Sound { recorder with groups := group :: recorder.groups } where
  resolved := sound.resolved
  entered := sound.entered
  known other other_mem := by
    rcases List.mem_cons.mp other_mem with rfl | other_mem
    · exact known
    · exact sound.known other other_mem
  owned := sound.owned

theorem gather (sound : recorder.Sound) (key : String) :
    Sound { recorder with
      groups := { nodes := recorder.state.model.graphs.allNodes key } :: recorder.groups } := by
  apply sound.push
  intro node node_mem
  rcases Forest.exists_member_of_mem_allNodes node_mem with ⟨handle, subgraph, found, member⟩
  exact sound.resolved.members found node member

theorem refer (sound : recorder.Sound) (node : NodeId) (defaults : Attributes)
    (parent : Option String) (enclosed : Walk.Enclosed parent recorder.state.model) :
    Sound { recorder with
      state := if node.id ∈ recorder.state.model.nodes.keys then recorder.state
        else Walk.after (Walk.mention node.id ∅ defaults parent) recorder.state
      groups := { nodes := [node.id], reference := some node } :: recorder.groups } := by
  split
  · next isKnown =>
      apply sound.push
      simpa using isKnown
  · have isNode := Walk.node_mem_keys_after_mention sound.resolved.toWellFormed node.id ∅ defaults
      parent
    refine (sound.step {} (.mention node.id ∅ defaults parent enclosed)).push ?_
    simpa using isNode

theorem connect (sound : recorder.Sound) (site : Site) (inside : Option Site) (count : Nat)
    (attrs defaults : Attributes) :
    Sound (recorder.follow options ⟨site, inside, .connect count attrs defaults⟩) := by
  let parent := inside.bind recorder.keyAt?
  let edges := edgesAlong attrs defaults (recorder.groups.take count).reverse
  have known (edge : Edge) (edge_mem : edge ∈ edges) :
      recorder.state.model.Knows edge.tail ∧ recorder.state.model.Knows edge.head := by
    have waits {group : EndpointGroup} (group_mem : group ∈ (recorder.groups.take count).reverse) :
        group ∈ recorder.groups := List.mem_of_mem_take (List.mem_reverse.mp group_mem)
    rcases Walk.mem_edgesAlong edge_mem with
      ⟨⟨tail, tail_mem, ends⟩, head, head_mem, starts⟩
    exact ⟨Or.inl (sound.known tail (waits tail_mem) _ ends),
      Or.inl (sound.known head (waits head_mem) _ starts)⟩
  have stepped := sound.step options (.createEdges parent edges
    (sound.enclosed inside) known)
  refine ⟨stepped.resolved, stepped.entered, ?_, ?_⟩
  · intro group group_mem
    exact stepped.known group (List.mem_of_mem_drop group_mem)
  · intro creation creation_mem owner owner_mem
    rcases List.mem_append.mp creation_mem with creation_mem | creation_mem
    · exact sound.owned creation creation_mem owner owner_mem
    · rcases List.mem_map.mp creation_mem with ⟨edge, _, rfl⟩
      rcases Option.bind_eq_some_iff.mp owner_mem with ⟨outer, inside_eq, found⟩
      rcases exists_entry_of_keyAt? found with ⟨entry, entry_mem, rfl, key_eq⟩
      exact ⟨entry, entry_mem, inside_eq, key_eq.symm⟩

theorem follow (sound : recorder.Sound) : ∀ line : Line, (recorder.follow options line).Sound
  | ⟨site, inside, .enter id⟩ => sound.enter _ id site (sound.enclosed inside)
  | ⟨site, inside, .promote kind isStrict⟩ => by
      simp only [Recorder.follow]
      split
      · next key found => exact sound.step options (.promote key kind isStrict (sound.listed found))
      · exact sound
  | ⟨site, inside, .settle attrs⟩ => by
      simp only [Recorder.follow]
      split
      · next key found => exact sound.step options (.settle key attrs (sound.listed found))
      · exact sound
  | ⟨site, inside, .gather⟩ => by
      simp only [Recorder.follow]
      split
      · next key found => exact sound.gather key
      · exact sound
  | ⟨site, inside, .mention id attrs defaults⟩ => by
      have stepped := sound.step options (.mention id attrs defaults _ (sound.enclosed inside))
      exact ⟨stepped.resolved, stepped.entered, stepped.known, stepped.owned⟩
  | ⟨site, inside, .refer node defaults⟩ => by
      have referred := sound.refer node defaults _ (sound.enclosed inside)
      exact ⟨referred.resolved, referred.entered, referred.known, referred.owned⟩
  | ⟨site, inside, .skip diagnostic⟩ => by
      have wellFormed : (recorder.state.skipped diagnostic).model.WellFormed :=
        ⟨sound.resolved.nested, sound.resolved.node_id, sound.resolved.root_id⟩
      exact sound.change (sound.resolved.transfer_graphs wellFormed rfl rfl fun found =>
        Model.Resolved.inherits_of_found found rfl rfl) (.of_eq rfl rfl)
  | ⟨site, inside, .blank⟩ => sound.push nofun
  | ⟨site, inside, .connect count attrs defaults⟩ => sound.connect site inside count attrs defaults

theorem run (sound : recorder.Sound) (script : List Line) :
    (recorder.run options script).Sound := by
  induction script generalizing recorder with
  | nil => exact sound
  | cons line rest ih => exact ih (sound.follow line)

end Sound

end Recorder

/-! ### Lines that change neither the edges nor the ids of subgraphs -/

/-- Whether an instruction neither enters a subgraph nor creates edges. -/
def Instruction.isQuiet : Instruction → Bool
  | .enter _ | .connect .. => false
  | _ => true

theorem Line.quiet_or_enter_or_connect : ∀ line : Line, line.instruction.isQuiet ∨
    (∃ site inside id, line = ⟨site, inside, .enter id⟩) ∨
    ∃ site inside count attrs defaults, line = ⟨site, inside, .connect count attrs defaults⟩
  | ⟨_, _, .enter _⟩ => Or.inr (Or.inl ⟨_, _, _, rfl⟩)
  | ⟨_, _, .connect _ _ _⟩ => Or.inr (Or.inr ⟨_, _, _, _, _, rfl⟩)
  | ⟨_, _, .promote _ _⟩ | ⟨_, _, .settle _⟩ | ⟨_, _, .gather⟩ | ⟨_, _, .mention _ _ _⟩
  | ⟨_, _, .refer _ _⟩ | ⟨_, _, .skip _⟩ | ⟨_, _, .blank⟩ => Or.inl rfl

/-- What a subgraph is called and which edges it lists. -/
def Subgraph.outline (subgraph : Subgraph) : Option String × List Nat :=
  (subgraph.id, subgraph.edges)

/-- Both models have the same edges, the same subgraphs, and the same edges in each. -/
structure Model.SameOutline (first second : Model) : Prop where
  edges_eq : second.edges = first.edges
  outline_eq : ∀ key, (second.graphs.get? key).map Subgraph.outline =
    (first.graphs.get? key).map Subgraph.outline

namespace Model.SameOutline

variable {first second : Model}

theorem of_eq (edges_eq : second.edges = first.edges) (graphs_eq : second.graphs = first.graphs) :
    first.SameOutline second :=
  ⟨edges_eq, fun key => by rw [graphs_eq]⟩

theorem of_modify (key : String) (change : Subgraph → Subgraph)
    (edges_eq : second.edges = first.edges)
    (graphs_eq : second.graphs = first.graphs.modify key change)
    (keeps : ∀ subgraph, (change subgraph).outline = subgraph.outline) :
    first.SameOutline second := by
  refine ⟨edges_eq, fun other => ?_⟩
  rw [graphs_eq]
  exact OrderedMap.map_get?_modify Subgraph.outline keeps first.graphs key other

end Model.SameOutline

theorem Walk.sameOutline_after_mention (id : String) (attrs defaults : Attributes)
    (parent : Option String) (state : WalkState) :
    state.model.SameOutline (after (mention id attrs defaults parent) state).model := by
  cases parent with
  | none => exact .of_eq rfl rfl
  | some key =>
      refine .of_modify key (·.addNode id) rfl rfl ?_
      intro subgraph
      rw [Subgraph.outline, Subgraph.outline, subgraph.edges_addNode,
        (subgraph.addNode_samePlace id).id]

namespace Recorder

variable {recorder : Recorder}

theorem follow_of_isQuiet (options : WalkOptions) : ∀ line : Line, line.instruction.isQuiet →
    recorder.state.model.SameOutline (recorder.follow options line).state.model ∧
      (recorder.follow options line).entries = recorder.entries ∧
      (recorder.follow options line).creations = recorder.creations
  | ⟨site, _, .promote kind isStrict⟩, _ => by
      simp only [follow]
      split
      · next key _ =>
          refine ⟨.of_modify key (fun subgraph => { subgraph with kind }) ?_ ?_ fun _ => rfl, rfl,
            rfl⟩ <;> simp [Walk.promoted]
      · exact ⟨.of_eq rfl rfl, rfl, rfl⟩
  | ⟨site, _, .settle attrs⟩, _ => by
      simp only [follow]
      split
      · next key _ =>
          exact ⟨.of_modify key
            (fun subgraph => { subgraph with attrs := subgraph.attrs.override attrs }) rfl rfl
            fun _ => rfl, rfl, rfl⟩
      · exact ⟨.of_eq rfl rfl, rfl, rfl⟩
  | ⟨site, _, .gather⟩, _ => by
      simp only [follow]
      split <;> exact ⟨.of_eq rfl rfl, rfl, rfl⟩
  | ⟨_, inside, .mention id attrs defaults⟩, _ =>
      ⟨Walk.sameOutline_after_mention id attrs defaults _ recorder.state, rfl, rfl⟩
  | ⟨_, inside, .refer node defaults⟩, _ => by
      refine ⟨?_, rfl, rfl⟩
      simp only [follow]
      split
      · exact .of_eq rfl rfl
      · exact Walk.sameOutline_after_mention node.id ∅ defaults _ recorder.state
  | ⟨_, _, .skip _⟩, _ => ⟨.of_eq rfl rfl, rfl, rfl⟩
  | ⟨_, _, .blank⟩, _ => ⟨.of_eq rfl rfl, rfl, rfl⟩

end Recorder

theorem Recorder.sound_empty : Sound { state := { model := ∅ } } where
  resolved := Model.resolved_empty
  entered _ entry_mem := nomatch entry_mem
  known _ group_mem := nomatch group_mem
  owned _ creation_mem := nomatch creation_mem

theorem Tree.record_sound (options : WalkOptions) (tree : Tree) : (tree.record options).Sound :=
  Recorder.sound_empty.run tree.documentScript

end DotLang
