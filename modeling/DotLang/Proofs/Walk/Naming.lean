import DotLang.Proofs.Walk.Consistency

/-!
# The keys of subgraphs

A subgraph with a declared id stands under that id. A subgraph without one gets a
generated key, and a generated key is always free: more numbers are tried than
there are subgraphs.

A document may declare an id that looks like a generated key. The last part of
this file bounds the harm in a walk that begins with an empty model: once there
is a subgraph without id, the first of the generated keys is taken, by whatever
subgraph, and it was taken no later (`Named.anonymous`). So no declared subgraph
below one without id is called by the first generated key.
-/

namespace DotLang

/-! ### Generated keys are free -/

theorem anonymousKey_injective (anonymousPrefix : String) :
    Function.Injective (anonymousKey anonymousPrefix) := by
  intro first second same
  have sameText : (anonymousPrefix ++ toString first).toList =
      (anonymousPrefix ++ toString second).toList := congrArg String.toList same
  simp only [String.toList_append, List.append_cancel_left_eq] at sameText
  have sameDigits : Nat.toDigits 10 first = Nat.toDigits 10 second := by
    simpa only [toString, Nat.toList_repr] using sameText
  calc
    first = Nat.ofDigitChars 10 (Nat.toDigits 10 first) 0 :=
      (Nat.ofDigitChars_ten_toDigits).symm
    _ = Nat.ofDigitChars 10 (Nat.toDigits 10 second) 0 := by rw [sameDigits]
    _ = second := Nat.ofDigitChars_ten_toDigits

theorem ne_anonymousKey {anonymousPrefix name : String}
    (differs : ¬anonymousPrefix.toList <+: name.toList) (number : Nat) :
    name ≠ anonymousKey anonymousPrefix number := by
  rintro rfl
  apply differs
  rw [anonymousKey, String.toList_append]
  exact List.prefix_append _ _

/-- A free number is found unless all that are tried are taken. -/
theorem firstFree_free (isTaken : Nat → Bool) (fuel start : Nat) :
    isTaken (firstFree isTaken fuel start) = false ∨
      ∀ number < fuel, isTaken (start + number) = true := by
  induction fuel generalizing start with
  | zero =>
      right
      intro number bounded
      omega
  | succ fuel ih =>
      simp only [firstFree]
      split
      · next taken =>
          apply (ih (start + 1)).imp_right
          intro later number bounded
          rcases number with _ | number
          · exact taken
          · have shifted : start + (number + 1) = start + 1 + number := by omega
            rw [shifted]
            exact later number (by omega)
      · next free =>
          left
          simpa using free

/-- No more keys with neighbouring numbers are taken than there are subgraphs. -/
theorem le_size_of_taken {anonymousPrefix : String} {graphs : Forest} {first count : Nat}
    (taken : ∀ offset < count, anonymousKey anonymousPrefix (first + offset) ∈ graphs.keys) :
    count ≤ graphs.size := by
  let tried := (List.range count).map fun offset => anonymousKey anonymousPrefix (first + offset)
  have nodup : tried.Nodup := by
    apply List.nodup_range.map
    intro left right same
    have sameNumber := anonymousKey_injective anonymousPrefix same
    omega
  have included : tried ⊆ graphs.keys := by
    intro key key_mem
    rcases List.mem_map.mp key_mem with ⟨offset, offset_mem, rfl⟩
    exact taken offset (List.mem_range.mp offset_mem)
  have bounded := (List.subperm_of_subset nodup included).length_le
  simpa [tried, OrderedMap.keys, OrderedMap.size] using bounded

theorem nextAnonymousNumber_free (anonymousPrefix : String) (graphs : Forest) (last : Nat) :
    anonymousKey anonymousPrefix (nextAnonymousNumber anonymousPrefix graphs last) ∉
      graphs.keys := by
  rcases firstFree_free (fun number => graphs.contains (anonymousKey anonymousPrefix number))
    (graphs.size + 1) (last + 1) with free | allTaken
  · intro listed
    have taken := (graphs.contains_iff _).mpr listed
    simp only [nextAnonymousNumber] at taken
    simp [free] at taken
  · -- More keys would be taken than there are.
    exfalso
    have bounded : graphs.size + 1 ≤ graphs.size := le_size_of_taken fun number tried =>
      (graphs.contains_iff _).mp (allTaken number tried)
    omega

/-- The first generated key is used unless it is taken. -/
theorem nextAnonymousNumber_zero {anonymousPrefix : String} {graphs : Forest}
    (free : anonymousKey anonymousPrefix 1 ∉ graphs.keys) :
    nextAnonymousNumber anonymousPrefix graphs 0 = 1 := by
  have notTaken : graphs.contains (anonymousKey anonymousPrefix 1) = false := by
    simpa using mt (graphs.contains_iff _).mp free
  simp [nextAnonymousNumber, firstFree, notTaken]

namespace Walk

variable {options : WalkOptions} {before later : WalkState}

/-- An anonymous entry is to a new subgraph. -/
theorem entryKey_none_free (options : WalkOptions) (state : WalkState) :
    entryKey options none state ∉ state.model.graphs.keys :=
  nextAnonymousNumber_free options.anonymousPrefix state.model.graphs state.anonymousCount

/-! ### Declared and generated keys -/

/-- The first generated key. -/
def firstKey (options : WalkOptions) : String :=
  anonymousKey options.anonymousPrefix 1

/-- How keys go with declared ids in a walk that began with an empty model. -/
structure Named (options : WalkOptions) (state : WalkState) : Prop where
  /-- A declared subgraph stands under its id. -/
  declared : ∀ {key subgraph id}, state.model.graphs.get? key = some subgraph →
    subgraph.id = some id → key = id
  /-- Once a key has been generated, the first generated key is taken. -/
  counted : state.anonymousCount ≠ 0 →
    firstKey options ∈ state.model.graphs.keys
  /-- It was taken no later than the key of any subgraph without id. -/
  anonymous : ∀ {key subgraph}, state.model.graphs.get? key = some subgraph →
    subgraph.id = none →
    firstKey options ∈ state.model.graphs.keys ∧
      state.model.graphs.rank (firstKey options) ≤
        state.model.graphs.rank key

theorem named_empty : Named options { model := ∅ } where
  declared found := nomatch found
  counted counted := absurd rfl counted
  anonymous found := nomatch found

/-- A step that enters nothing keeps keys and ids. -/
theorem Named.transfer (named : Named options before)
    (sameCount : later.anonymousCount = before.anonymousCount)
    (sameKeys : later.model.graphs.keys = before.model.graphs.keys)
    (source : ∀ {key new}, later.model.graphs.get? key = some new →
      ∃ old, before.model.graphs.get? key = some old ∧ new.id = old.id) :
    Named options later := by
  have sameRank (key : String) : later.model.graphs.rank key = before.model.graphs.rank key := by
    rw [Forest.rank, Forest.rank, sameKeys]
  constructor
  · intro key new id found id_eq
    rcases source found with ⟨old, oldFound, sameId⟩
    exact named.declared oldFound (sameId.symm.trans id_eq)
  · intro counted
    rw [sameKeys]
    exact named.counted (sameCount ▸ counted)
  · intro key new found id_eq
    rcases source found with ⟨old, oldFound, sameId⟩
    rw [sameKeys, sameRank, sameRank]
    exact named.anonymous oldFound (sameId.symm.trans id_eq)

theorem Named.transfer_modify (named : Named options before)
    (sameCount : later.anonymousCount = before.anonymousCount) (key : String)
    (change : Subgraph → Subgraph)
    (graphs_eq : later.model.graphs = before.model.graphs.modify key change)
    (keeps : ∀ subgraph, (change subgraph).id = subgraph.id) : Named options later := by
  apply named.transfer sameCount
  · simp only [graphs_eq, OrderedMap.keys_modify]
  · rw [graphs_eq]
    apply OrderedMap.forall_get?_modify fun key (new : Subgraph) =>
      ∃ old, before.model.graphs.get? key = some old ∧ new.id = old.id
    · intro other old found
      exact ⟨old, found, rfl⟩
    · intro old found
      exact ⟨old, found, keeps old⟩

/-- Either the first generated key is taken, or it is the next one to be generated. -/
theorem Named.firstKey_mem_or_eq (named : Named options before) :
    firstKey options ∈ before.model.graphs.keys ∨
      entryKey options none before = firstKey options := by
  by_cases taken : firstKey options ∈ before.model.graphs.keys
  · exact Or.inl taken
  · right
    have notCounted : before.anonymousCount = 0 := by
      by_contra counted
      exact taken (named.counted counted)
    simp only [entryKey, entryNumber, notCounted, Option.getD_none]
    rw [nextAnonymousNumber_zero taken, firstKey]

/-- Planting a subgraph under the key of its entry. -/
theorem Named.plant (named : Named options before) (wellFormed : before.model.WellFormed)
    {parent id : Option String} (enclosed : Enclosed parent before.model) {new : Subgraph}
    (key_eq : new.key = entryKey options id before) (id_eq : new.id = id)
    (absent : new.key ∉ before.model.graphs.keys)
    (graphs_eq : later.model.graphs = Walk.plant before.model.graphs parent new)
    (count_eq : later.anonymousCount = entryNumber options id before) : Named options later := by
  have mem_keys (key : String) : key ∈ later.model.graphs.keys ↔
      key = new.key ∨ key ∈ before.model.graphs.keys := by
    rw [graphs_eq, keys_plant, OrderedMap.mem_keys_insert]
  have sameRank {key : String} (key_mem : key ∈ before.model.graphs.keys) :
      later.model.graphs.rank key = before.model.graphs.rank key := by
    rw [graphs_eq]
    exact rank_plant_of_mem absent key_mem
  have first (noId : id = none) : firstKey options ∈ later.model.graphs.keys ∧
      later.model.graphs.rank (firstKey options) ≤ later.model.graphs.rank new.key := by
    subst noId
    rw [mem_keys]
    rcases named.firstKey_mem_or_eq with taken | isNew
    · refine ⟨Or.inr taken, ?_⟩
      rw [sameRank taken, graphs_eq, rank_plant_self absent]
      exact Nat.le_of_lt (List.idxOf_lt_length_of_mem taken)
    · rw [key_eq, isNew]
      exact ⟨Or.inl rfl, Nat.le_refl _⟩
  have everywhere (property : String → Subgraph → Prop) :=
    forall_get?_plant property wellFormed.nested absent enclosed
  rw [← graphs_eq] at everywhere
  constructor
  · intro key subgraph declaredId found declared
    refine everywhere (fun key subgraph => subgraph.id = some declaredId → key = declaredId)
      ?_ ?_ found declared
    · exact fun oldFound isDeclared => named.declared oldFound isDeclared
    · intro isDeclared
      rw [id_eq] at isDeclared
      rw [key_eq, isDeclared]
      rfl
  · intro counted
    rw [count_eq] at counted
    cases id with
    | none => exact (first rfl).1
    | some id =>
        rw [mem_keys]
        exact Or.inr (named.counted counted)
  · intro key subgraph found
    refine everywhere (fun key subgraph => subgraph.id = none →
      firstKey options ∈ later.model.graphs.keys ∧
        later.model.graphs.rank (firstKey options) ≤ later.model.graphs.rank key) ?_ ?_ found
    · intro handle old children oldFound noId
      have earlier := named.anonymous oldFound noId
      rw [sameRank earlier.1, sameRank (OrderedMap.mem_keys_of_get? oldFound), mem_keys]
      exact ⟨Or.inr earlier.1, earlier.2⟩
    · intro noId
      exact first (id_eq.symm.trans noId)

theorem named_after_enter (named : Named options before) (wellFormed : before.model.WellFormed)
    (parent id : Option String) (enclosed : Enclosed parent before.model) :
    Named options (after (enter options parent id) before) := by
  have model_eq : (after (enter options parent id) before).model = _ :=
    model_after_enter parent id before
  have count_eq : (after (enter options parent id) before).anonymousCount = _ :=
    anonymousCount_after_enter parent id before
  dsimp only at model_eq
  by_cases listed : entryKey options id before ∈ before.model.graphs.keys
  · rw [if_pos listed] at model_eq
    cases id with
    | none => exact absurd listed (entryKey_none_free options before)
    | some id =>
        apply named.transfer count_eq
        · rw [model_eq]
        · rw [model_eq]
          exact fun found => ⟨_, found, rfl⟩
  · rw [if_neg listed] at model_eq
    exact named.plant wellFormed enclosed rfl rfl listed (congrArg Model.graphs model_eq) count_eq

theorem Step.named (named : Named options before) (wellFormed : before.model.WellFormed)
    (step : Step options before later) : Named options later := by
  cases step with
  | skip tree =>
      have graphs_eq : (after (Walk.skip options tree) before).model.graphs =
          before.model.graphs := by
        rw [model_after_skip]
        split <;> rfl
      apply named.transfer (anonymousCount_after_skip tree before)
      · rw [graphs_eq]
      · rw [graphs_eq]
        exact fun found => ⟨_, found, rfl⟩
  | enter parent id enclosed => exact named_after_enter named wellFormed parent id enclosed
  | promote key kind isStrict listed =>
      exact named.transfer_modify (anonymousCount_after_promote key kind isStrict before) key
        (fun subgraph => { subgraph with kind }) (by simp [promoted]) fun _ => rfl
  | settle key attrs listed =>
      exact named.transfer_modify rfl key
        (fun subgraph => { subgraph with attrs := subgraph.attrs.override attrs }) rfl fun _ => rfl
  | mention id attrs defaults parent enclosed =>
      cases parent with
      | none => exact named.transfer rfl rfl fun found => ⟨_, found, rfl⟩
      | some above =>
          exact named.transfer_modify rfl above (fun subgraph => subgraph.addNode id) rfl
            fun subgraph => (subgraph.addNode_samePlace id).id
  | createEdges parent edges enclosed known =>
      cases parent with
      | none => exact named.transfer rfl rfl fun found => ⟨_, found, rfl⟩
      | some above =>
          let numbers := List.range' before.model.edges.length edges.length
          exact named.transfer_modify rfl above
            (fun subgraph => { subgraph with edges := subgraph.edges ++ numbers }) rfl fun _ => rfl

theorem Steps.named (named : Named options before) (wellFormed : before.model.WellFormed)
    (steps : Steps options before later) : Named options later := by
  have both := steps.preserve (fun state => Named options state ∧ state.model.WellFormed)
    (fun invariant step =>
      ⟨step.named invariant.1 invariant.2, step.wellFormed invariant.2⟩) ⟨named, wellFormed⟩
  exact both.1

/-- No subgraph declared below another one has the id under which the other one would be entered
first in a new model. -/
theorem Named.id_below_ne {state : WalkState} (named : Named options state)
    (nested : state.model.graphs.Nested) {outer inner : String} {top below : Subgraph}
    (topFound : state.model.graphs.get? outer = some top)
    (belowFound : state.model.graphs.get? inner = some below)
    (encloses : state.model.graphs.Encloses outer inner) (differs : outer ≠ inner) :
    below.id ≠ some (entryKey options top.id { model := ∅ }) := by
  intro same
  have inner_eq := named.declared belowFound same
  cases id_eq : top.id with
  | some id =>
      have outer_eq := named.declared topFound id_eq
      apply differs
      rw [outer_eq, inner_eq, id_eq]
      rfl
  | none =>
      have first_eq : entryKey options none { model := ∅ } = firstKey options :=
        named_empty.firstKey_mem_or_eq.resolve_left List.not_mem_nil
      have earlier := (named.anonymous topFound id_eq).2
      rw [id_eq, first_eq] at inner_eq
      rcases nested.encloses_eq_or_rank_lt encloses with rfl | deeper
      · exact differs rfl
      · rw [inner_eq] at deeper
        omega

end Walk

end DotLang
