import DotLang.Proofs.EdgeIndex
import DotLang.Proofs.Walk.Entries

/-!
# Which subgraph owns which edge

An edge is created once, in the order in which the edge statements are walked,
and belongs to the subgraph that the innermost graph or subgraph around its
statement has entered. No step of a walk separates the two indexes of edges from
the record of their creation: the edges of the model are those that were created,
and every subgraph lists the numbers of its own in the order of their creation
(`Model.edges_of_walk`).
-/

namespace DotLang

/-- The numbers of the edges that were created inside a subgraph. -/
def Creation.numbersIn (key : String) (creations : List Creation) : List Nat :=
  (creations.zipIdx.filter fun entry => entry.1.owner = some key).map Prod.snd

/-- The numbers of the edges that the subgraph with a key lists. -/
def Model.edgesOf (model : Model) (key : String) : List Nat :=
  ((model.graphs.get? key).map Subgraph.edges).getD []

theorem Creation.numbersIn_append (key : String) (earlier created : List Creation)
    (owner : Option String) (owned : ∀ creation ∈ created, creation.owner = owner) :
    numbersIn key (earlier ++ created) = numbersIn key earlier ++
      if owner = some key then List.range' earlier.length created.length else [] := by
  have numbered : (created.zipIdx earlier.length).filter (fun entry => entry.1.owner = some key) =
      if owner = some key then created.zipIdx earlier.length else [] := by
    split
    · next isOwner =>
        rw [List.filter_eq_self]
        intro entry entry_mem
        simpa [owned entry.1 (List.fst_mem_of_mem_zipIdx entry_mem)] using isOwner
    · next differs =>
        rw [List.filter_eq_nil_iff]
        intro entry entry_mem
        simpa [owned entry.1 (List.fst_mem_of_mem_zipIdx entry_mem)] using differs
  rw [numbersIn, List.zipIdx_append, List.filter_append, List.map_append, Nat.zero_add, numbered]
  congr 1
  split
  · exact List.zipIdx_map_snd _ _
  · rfl

theorem Creation.mem_numbersIn_iff {key : String} {creations : List Creation} {number : Nat} :
    number ∈ numbersIn key creations ↔
      ∃ creation, creations[number]? = some creation ∧ creation.owner = some key := by
  simp only [numbersIn, List.mem_map, List.mem_filter, decide_eq_true_eq, Prod.exists,
    List.mem_zipIdx_iff_getElem?]
  constructor
  · rintro ⟨creation, _, created, rfl⟩
    exact ⟨creation, created⟩
  · rintro ⟨creation, created⟩
    exact ⟨creation, number, created, rfl⟩

theorem Creation.sorted_numbersIn (key : String) (creations : List Creation) :
    (numbersIn key creations).Pairwise (· < ·) := by
  have numbers : (creations.zipIdx.map Prod.snd).Pairwise (· < ·) := by
    rw [List.zipIdx_map_snd]
    exact List.pairwise_lt_range'
  exact numbers.sublist (List.filter_sublist.map Prod.snd)

namespace Model

variable {first second : Model}

theorem SameOutline.edgesOf_eq (same : first.SameOutline second) (key : String) :
    second.edgesOf key = first.edgesOf key := by
  have edges_eq := congrArg (Option.map Prod.snd) (same.outline_eq key)
  rw [Option.map_map, Option.map_map] at edges_eq
  exact congrArg (·.getD []) edges_eq

theorem edgesOf_plant {model : Model} (parent id : Option String) {key : String}
    (absent : key ∉ model.graphs.keys) (other : String) :
    edgesOf { model with graphs := Walk.plant model.graphs parent { key, id } } other =
      model.edgesOf other :=
  Walk.getD_map_get?_plant Subgraph.edges model.graphs parent { key, id } absent
    (fun _ _ => rfl) (fun _ _ => rfl) other

end Model

theorem Walk.edgesOf_after_createEdges (parent : Option String) (edges : List Edge)
    (state : WalkState) (enclosed : Enclosed parent state.model) (key : String) :
    (after (createEdges parent edges) state).model.edgesOf key =
      state.model.edgesOf key ++
        if parent = some key then List.range' state.model.edges.length edges.length else [] := by
  cases parent with
  | none =>
      rw [if_neg nofun, List.append_nil]
      rfl
  | some above =>
      let numbers := List.range' state.model.edges.length edges.length
      have graphs_eq : (after (createEdges (some above) edges) state).model.graphs =
          state.model.graphs.modify above fun subgraph =>
            { subgraph with edges := subgraph.edges ++ numbers } := rfl
      rw [Model.edgesOf, Model.edgesOf, graphs_eq, OrderedMap.get?_modify]
      by_cases here : key = above
      · subst here
        rcases (OrderedMap.mem_keys_iff _ _).mp (enclosed key rfl) with ⟨old, found⟩
        rw [if_pos rfl, if_pos rfl, found]
        rfl
      · rw [if_neg here, if_neg fun same => here (Option.some.inj same).symm, List.append_nil]

namespace Recorder

variable {options : WalkOptions} {recorder : Recorder}

/-- The edges of the model are those that were created, and each is listed by its owner. -/
structure Owned (recorder : Recorder) : Prop where
  edges_eq : recorder.state.model.edges = recorder.creations.map Creation.edge
  listed : ∀ key, recorder.state.model.edgesOf key = Creation.numbersIn key recorder.creations

namespace Owned

theorem enter (owned : recorder.Owned) (site : Site) (inside : Option Site) (id : Option String) :
    (recorder.follow options ⟨site, inside, .enter id⟩).Owned := by
  have model_eq : (recorder.follow options ⟨site, inside, .enter id⟩).state.model = _ :=
    Walk.model_after_enter (inside.bind recorder.keyAt?) id recorder.state
  dsimp only at model_eq
  split at model_eq
  · exact ⟨model_eq ▸ owned.edges_eq, model_eq ▸ owned.listed⟩
  · next absent =>
      refine ⟨model_eq ▸ owned.edges_eq, fun key => ?_⟩
      rw [model_eq, Model.edgesOf_plant _ _ absent]
      exact owned.listed key

theorem connect (owned : recorder.Owned) (sound : recorder.Sound) (site : Site)
    (inside : Option Site) (count : Nat) (attrs defaults : Attributes) :
    (recorder.follow options ⟨site, inside, .connect count attrs defaults⟩).Owned := by
  let parent := inside.bind recorder.keyAt?
  let edges := edgesAlong attrs defaults (recorder.groups.take count).reverse
  have edges_eq : (Walk.after (Walk.createEdges parent edges) recorder.state).model.edges =
      recorder.state.model.edges ++ edges := by
    cases parent <;> rfl
  have length_eq : recorder.state.model.edges.length = recorder.creations.length := by
    rw [owned.edges_eq, List.length_map]
  constructor
  · change (Walk.after (Walk.createEdges parent edges) recorder.state).model.edges =
      (recorder.creations ++ edges.map _).map Creation.edge
    rw [edges_eq, owned.edges_eq, List.map_append, List.map_map]
    exact congrArg _ (List.map_id' edges).symm
  · intro key
    change (Walk.after (Walk.createEdges parent edges) recorder.state).model.edgesOf key =
      Creation.numbersIn key (recorder.creations ++ edges.map _)
    rw [Walk.edgesOf_after_createEdges parent edges _ (sound.enclosed inside),
      Creation.numbersIn_append key _ _ parent (by simp [parent]), owned.listed, length_eq,
      List.length_map]

theorem follow (owned : recorder.Owned) (sound : recorder.Sound) (line : Line) :
    (recorder.follow options line).Owned := by
  rcases line.quiet_or_enter_or_connect with quiet |
    ⟨site, inside, id, rfl⟩ | ⟨site, inside, count, attrs, defaults, rfl⟩
  · rcases follow_of_isQuiet options line quiet with ⟨same, _, creations_eq⟩
    refine ⟨?_, fun key => ?_⟩
    · rw [same.edges_eq, creations_eq, owned.edges_eq]
    · rw [same.edgesOf_eq, creations_eq, owned.listed]
  · exact owned.enter site inside id
  · exact owned.connect sound site inside count attrs defaults

theorem run (owned : recorder.Owned) (sound : recorder.Sound) (script : List Line) :
    (recorder.run options script).Owned := by
  induction script generalizing recorder with
  | nil => exact owned
  | cons line rest ih => exact ih (owned.follow sound line) (sound.follow line)

end Owned

theorem owned_empty : Owned { state := { model := ∅ } } where
  edges_eq := rfl
  listed _ := rfl

/-- Where no site is visited twice, an entry can be told from its site. -/
theorem keyAt?_of_mem (nodup : (recorder.entries.map Entry.site).Nodup) {entry : Entry}
    (entry_mem : entry ∈ recorder.entries) : recorder.keyAt? entry.site = some entry.key := by
  have isFound : (recorder.entries.reverse.find? fun other => other.site = entry.site).isSome := by
    rw [List.find?_isSome]
    exact ⟨entry, List.mem_reverse.mpr entry_mem, by simp⟩
  rcases Option.isSome_iff_exists.mp isFound with ⟨other, found⟩
  have other_mem := List.mem_reverse.mp (List.mem_of_find?_eq_some found)
  have same_site : other.site = entry.site := by simpa using List.find?_some found
  rw [keyAt?, found, List.inj_on_of_nodup_map nodup other_mem entry_mem same_site]
  rfl

end Recorder

theorem Tree.record_owned (options : WalkOptions) (tree : Tree) : (tree.record options).Owned :=
  Recorder.owned_empty.run Recorder.sound_empty tree.documentScript

theorem Tree.nodup_sites_record (options : WalkOptions) (tree : Tree) :
    ((tree.record options).entries.map Entry.site).Nodup := by
  have nodup := tree.nodup_documentScopes
  rwa [← tree.map_entries_record options, List.map_map] at nodup

namespace Model

/-- The edges of a document in the order of their creation. Each pair of end points that occurs is
indexed once and finds its edges, and each subgraph lists, in this order, the edges whose innermost
graph or subgraph statement has entered it. -/
theorem edges_of_walk {options : WalkOptions} (lenient : options.isStrict = false) {tree : Tree}
    (named : tree.namesNodes) :
    let walked := Model.walk options .plain tree ∅
    let record := tree.record options
    walked.failure = none ∧
      walked.model.edges = record.creations.map Creation.edge ∧
      (∀ tail head, walked.model.getEdges tail head =
        walked.model.edges.filter fun edge => edge.key = (tail, head)) ∧
      walked.model.edgeIndex.keys = (walked.model.edges.map Edge.key).eraseDups ∧
      (∀ key group, walked.model.edgeIndex.get? key = some group → group ≠ []) ∧
      (∀ creation ∈ record.creations, creation.owner = creation.inside.bind record.keyAt? ∧
        creation.owner.isNone = creation.inside.isNone ∧
        ∀ owner ∈ creation.owner, owner ∈ walked.model.graphs.keys) ∧
      ∀ key subgraph, walked.model.graphs.get? key = some subgraph →
        subgraph.edges.Pairwise (· < ·) ∧
        ∀ number, number ∈ subgraph.edges ↔
          ∃ creation, record.creations[number]? = some creation ∧ creation.owner = some key := by
  intro walked record
  have walked_eq : walked = ⟨record.state.model, _, none⟩ := walk_eq_record lenient named
  have sound : record.Sound := tree.record_sound options
  have owned : record.Owned := tree.record_owned options
  have placed : record.Placed := tree.record_placed lenient named
  rw [walked_eq]
  refine ⟨rfl, owned.edges_eq, getEdges_eq _, keys_edgeIndex _, fun _ _ => group_ne_nil, ?_, ?_⟩
  · intro creation creation_mem
    have outside := placed creation creation_mem
    cases owner_eq : creation.owner with
    | none =>
        rw [owner_eq, Option.isNone_none, Option.isNone_iff_eq_none] at outside
        simp [outside]
    | some owner =>
        rcases sound.owned creation creation_mem owner owner_eq with
          ⟨entry, entry_mem, inside_eq, rfl⟩
        have found := record.keyAt?_of_mem (tree.nodup_sites_record options) entry_mem
        refine ⟨?_, ?_, ?_⟩
        · rw [inside_eq, Option.bind_some, found]
        · rw [inside_eq, Option.isNone_some, Option.isNone_some]
        · rintro _ ⟨⟩
          exact sound.entered entry entry_mem
  · intro key subgraph found
    have edges_eq : subgraph.edges = Creation.numbersIn key record.creations := by
      rw [← owned.listed, edgesOf, found]
      rfl
    rw [edges_eq]
    exact ⟨Creation.sorted_numbersIn key _, fun _ => Creation.mem_numbersIn_iff⟩

/-- Parallel edges, the first of which is created inside an endpoint of the second. -/
theorem edges_of_walk_of_parallel :
    let ab := Tree.edgeStmt [.nodeId { id := "a" }, .nodeId { id := "b" }] []
    let tree := Tree.graph "digraph" (some "g") false [
      .edgeStmt [.nodeId { id := "a" }, .subgraph (some "s") [ab]] [],
      .subgraph (some "s") [ab]]
    let walked := Model.walk {} .plain tree ∅
    walked.model.edges.length = 3 ∧ walked.model.getEdges "a" "b" = walked.model.edges ∧
      walked.model.edgeIndex.keys = [("a", "b")] ∧
      ∃ subgraph, walked.model.graphs.get? "s" = some subgraph ∧
        ∀ number, number ∈ subgraph.edges ↔ number = 0 ∨ number = 2 := by
  intro ab tree walked
  rcases @edges_of_walk {} rfl tree rfl with
    ⟨_, edges_eq, getEdges_eq, keys_eq, _, _, listed⟩
  have keys : walked.model.edges.map Edge.key = [("a", "b"), ("a", "b"), ("a", "b")] := by
    decide +kernel
  have owners : (tree.record {}).creations.map Creation.owner = [some "s", some "g", some "s"] := by
    decide +kernel
  have isEntered : (walked.model.graphs.get? "s").isSome := by
    decide +kernel
  rcases Option.isSome_iff_exists.mp isEntered with ⟨subgraph, found⟩
  refine ⟨?_, ?_, ?_, subgraph, found, fun number => ?_⟩
  · simpa using congrArg List.length keys
  · rw [getEdges_eq, List.filter_eq_self]
    intro edge edge_mem
    have key_mem : edge.key ∈ walked.model.edges.map Edge.key := List.mem_map_of_mem edge_mem
    rw [keys] at key_mem
    simpa using key_mem
  · rw [keys_eq, keys]
    rfl
  · have owner_eq : (∃ creation, (tree.record {}).creations[number]? = some creation ∧
        creation.owner = some "s") ↔ [some "s", some "g", some "s"][number]? = some (some "s") := by
      rw [← owners, List.getElem?_map, Option.map_eq_some_iff]
    rw [(listed "s" subgraph found).2, owner_eq]
    rcases number with _ | _ | _ | number <;> simp

end Model

end DotLang
