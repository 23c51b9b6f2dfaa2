import DotLang.Proofs.Walk.Naming
import Mathlib.Order.Bounds.Defs

/-!
# Generated keys

A subgraph without id gets the key with the least free number above the last one.
The search for it (`KeySearch`) is a loop without a bound of its own. It ends because
different numbers make different keys: among one more of them than there are
subgraphs, one is free (`keySearch_next`).

A walk counts on from one generated key to the next, and opens a subgraph under
each of them before it generates another. So no key is generated twice, and those
generated in a walk are the keys of the subgraphs without id that it adds
(`generated_keys`). This holds of every walk into any model, however far it gets.
-/

namespace DotLang

/-! ### One search -/

/-- The rounds of a search for a free number. A round counts on and stops at a free number. -/
inductive KeySearch (isTaken : Nat → Prop) : (last rounds number : Nat) → Prop where
  | found {last : Nat} (free : ¬isTaken (last + 1)) : KeySearch isTaken last 1 (last + 1)
  | next {last rounds number : Nat} (taken : isTaken (last + 1))
      (later : KeySearch isTaken (last + 1) rounds number) :
      KeySearch isTaken last (rounds + 1) number

namespace KeySearch

variable {isTaken : Nat → Prop} {last rounds number : Nat}

theorem number_eq (search : KeySearch isTaken last rounds number) : number = last + rounds := by
  induction search with
  | found free => rfl
  | next taken later ih => omega

theorem isLeast (search : KeySearch isTaken last rounds number) :
    IsLeast {number | last < number ∧ ¬isTaken number} number := by
  induction search with
  | @found last free =>
      refine ⟨⟨Nat.lt_succ_self last, free⟩, ?_⟩
      rintro other ⟨above, _⟩
      exact above
  | @next last rounds number taken later ih =>
      obtain ⟨⟨above, free⟩, least⟩ := ih
      refine ⟨⟨by omega, free⟩, ?_⟩
      rintro other ⟨otherAbove, otherFree⟩
      apply least
      refine ⟨?_, otherFree⟩
      have differs : other ≠ last + 1 := fun same => otherFree (same ▸ taken)
      omega

end KeySearch

theorem keySearch_firstFree {isTaken : Nat → Bool} {fuel last : Nat}
    (free : isTaken (firstFree isTaken fuel (last + 1)) = false) :
    ∃ rounds, KeySearch (isTaken · = true) last rounds (firstFree isTaken fuel (last + 1)) := by
  induction fuel generalizing last with
  | zero => exact ⟨1, .found (by simpa [firstFree] using free)⟩
  | succ fuel ih =>
      rw [firstFree] at free ⊢
      by_cases taken : isTaken (last + 1) = true
      · rw [if_pos taken] at free ⊢
        obtain ⟨rounds, search⟩ := ih free
        exact ⟨rounds + 1, .next taken search⟩
      · rw [if_neg taken]
        exact ⟨1, .found taken⟩

/-- The search for the next generated key ends after at most one round more than there are
subgraphs. -/
theorem keySearch_next (anonymousPrefix : String) (graphs : Forest) (last : Nat) :
    ∃ rounds ≤ graphs.size + 1,
      KeySearch (fun number => anonymousKey anonymousPrefix number ∈ graphs.keys) last rounds
        (nextAnonymousNumber anonymousPrefix graphs last) := by
  let isTaken (number : Nat) : Bool := graphs.contains (anonymousKey anonymousPrefix number)
  have free : isTaken (nextAnonymousNumber anonymousPrefix graphs last) = false :=
    Bool.eq_false_iff.mpr
      (mt (graphs.contains_iff _).mp (nextAnonymousNumber_free anonymousPrefix graphs last))
  obtain ⟨rounds, search⟩ := keySearch_firstFree free
  have taken_eq : (isTaken · = true) =
      fun number => anonymousKey anonymousPrefix number ∈ graphs.keys :=
    funext fun number => propext (graphs.contains_iff _)
  rw [taken_eq] at search
  refine ⟨rounds, ?_, search⟩
  -- All numbers before the last round are taken.
  have bounded : rounds - 1 ≤ graphs.size := le_size_of_taken fun offset early => by
    by_contra otherFree
    have above : last < last + 1 + offset := by omega
    have least := search.isLeast.2 ⟨above, otherFree⟩
    have number_eq := search.number_eq
    omega
  omega

/-! ### Subgraphs without id -/

namespace Forest

/-- The keys of the subgraphs without id. -/
def unnamedKeys (forest : Forest) : List String :=
  forest.keys.filter fun key => (forest.get? key).map Subgraph.id = some none

/-- Both forests list the same keys, and the same id under each. -/
structure SameIds (first second : Forest) : Prop where
  keys_eq : second.keys = first.keys
  id_eq : ∀ key, (second.get? key).map Subgraph.id = (first.get? key).map Subgraph.id

namespace SameIds

variable {first second : Forest}

theorem of_eq (same : second = first) : first.SameIds second := by
  subst same
  exact ⟨rfl, fun _ => rfl⟩

theorem modify (forest : Forest) (key : String) (change : Subgraph → Subgraph)
    (keeps : ∀ subgraph, (change subgraph).id = subgraph.id) :
    forest.SameIds (OrderedMap.modify forest key change) where
  keys_eq := OrderedMap.keys_modify forest key change
  id_eq := OrderedMap.map_get?_modify Subgraph.id keeps forest key

theorem unnamedKeys_eq (same : first.SameIds second) :
    second.unnamedKeys = first.unnamedKeys := by
  rw [unnamedKeys, unnamedKeys, same.keys_eq]
  apply List.filter_congr
  intro key _
  rw [same.id_eq key]

end SameIds

end Forest

namespace Walk

variable {α β : Type} {options : WalkOptions}

theorem unnamedKeys_plant {graphs : Forest} (parent : Option String) (subgraph : Subgraph)
    (absent : subgraph.key ∉ graphs.keys) :
    (plant graphs parent subgraph).unnamedKeys =
      graphs.unnamedKeys ++ if subgraph.id = none then [subgraph.key] else [] := by
  have old (handle : String) (handle_mem : handle ∈ graphs.keys) :
      ((plant graphs parent subgraph).get? handle).map Subgraph.id =
        (graphs.get? handle).map Subgraph.id := by
    rcases (graphs.mem_keys_iff handle).mp handle_mem with ⟨subgraph', found⟩
    rcases get?_plant_of_found parent subgraph absent found with ⟨children, found'⟩
    rw [found, found']
    rfl
  have new : ((plant graphs parent subgraph).get? subgraph.key).map Subgraph.id =
      some subgraph.id := by
    have planted : subgraph.key ∈ (plant graphs parent subgraph).keys := by
      rw [keys_plant, OrderedMap.mem_keys_insert]
      exact Or.inl rfl
    have id_eq := getD_map_get?_plant Subgraph.id graphs parent subgraph absent
      (fun _ _ => rfl) (fun _ _ => rfl) subgraph.key
    rcases (OrderedMap.mem_keys_iff _ _).mp planted with ⟨subgraph', found⟩
    rw [(graphs.get?_eq_none_iff _).mpr absent, found] at id_eq
    rw [found]
    exact congrArg some id_eq
  rw [Forest.unnamedKeys, Forest.unnamedKeys, keys_plant,
    OrderedMap.keys_insert_of_not_mem _ absent, List.filter_append]
  congr 1
  · apply List.filter_congr
    intro handle handle_mem
    rw [old handle handle_mem]
  · rw [List.filter_cons, new, List.filter_nil]
    simp only [Option.some_inj, decide_eq_true_eq]

/-! ### Where a walk generates keys -/

/-- The states in which a graph or subgraph without id is entered. -/
def entryGenerations (id : Option String) (state : WalkState) : List WalkState :=
  match id with
  | some _ => []
  | none => [state]

mutual

/-- The states in which a walk generates a key at a statement. -/
def generations (options : WalkOptions) (parent : Option String) (scope : Scope)
    (state : WalkState) : Tree → List WalkState
  | .graph kind id isStrict children =>
      let key := entryKey options id state
      let entered := after (enter options parent id) state
      let first := if parent.isNone then after (promote key kind isStrict) entered else entered
      entryGenerations id state ++ generationsIn options (some key) scope first children
  | .subgraph id children =>
      let key := entryKey options id state
      let entered := after (enter options parent id) state
      entryGenerations id state ++ generationsIn options (some key) scope entered children
  | .edgeStmt chain _ => endpointGenerationsIn options parent scope state chain
  | _ => []
termination_by structural tree => tree

/-- The states in which a walk generates a key at statements, up to where it stops. -/
def generationsIn (options : WalkOptions) (parent : Option String) (scope : Scope)
    (state : WalkState) : List Tree → List WalkState
  | [] => []
  | tree :: rest =>
      generations options parent scope state tree ++
        match (statement options parent scope tree).run state with
        | .ok changed behind => generationsIn options parent changed behind rest
        | .error _ _ => []
termination_by structural trees => trees

/-- The states in which a walk generates a key at an endpoint. -/
def endpointGenerations (options : WalkOptions) (parent : Option String) (scope : Scope)
    (state : WalkState) : Tree → List WalkState
  | .subgraph id children =>
      let key := entryKey options id state
      let entered := after (enter options parent id) state
      entryGenerations id state ++ generationsIn options (some key) scope entered children
  | _ => []
termination_by structural tree => tree

/-- The states in which a walk generates a key at endpoints, up to where it stops. -/
def endpointGenerationsIn (options : WalkOptions) (parent : Option String) (scope : Scope)
    (state : WalkState) : List Tree → List WalkState
  | [] => []
  | tree :: rest =>
      endpointGenerations options parent scope state tree ++
        match (endpoint options parent scope tree).run state with
        | .ok _ behind => endpointGenerationsIn options parent scope behind rest
        | .error _ _ => []
termination_by structural trees => trees

end

/-- The states in which the walk of a whole document into a model generates a key. -/
def documentGenerations (options : WalkOptions) (model : Model) : Tree → List WalkState
  | .list items => generationsIn options none ∅ { model } items
  | tree => generations options none ∅ { model } tree

/-- From a state, a walk generates keys in the listed states. It counts on from each of them to the
next and lists the new key behind those that were there. No other subgraph without id is added. -/
structure Generates (options : WalkOptions) (walk : Walk α) (state : WalkState)
    (calls : List WalkState) : Prop where
  counted : calls.map WalkState.anonymousCount ++ [(after walk state).anonymousCount] =
    state.anonymousCount :: calls.map (entryNumber options none)
  grows : state.model.graphs.keys <+: (after walk state).model.graphs.keys
  listed : ∀ call ∈ calls, state.model.graphs.keys <+: call.model.graphs.keys ∧
    call.model.graphs.keys ++ [entryKey options none call] <+:
      (after walk state).model.graphs.keys
  unnamed : (after walk state).model.graphs.unnamedKeys =
    state.model.graphs.unnamedKeys ++ calls.map (entryKey options none)

namespace Generates

variable {walk : Walk α} {next : α → Walk β} {state middle : WalkState} {result : α}
  {calls calls' : List WalkState}

theorem nothing (sameCount : (after walk state).anonymousCount = state.anonymousCount)
    (sameIds : state.model.graphs.SameIds (after walk state).model.graphs) :
    Generates options walk state [] where
  counted := by simp [sameCount]
  grows := sameIds.keys_eq ▸ List.prefix_rfl
  listed := nofun
  unnamed := by simp [sameIds.unnamedKeys_eq]

theorem pure (result : α) (state : WalkState) :
    Generates options (Pure.pure result) state [] :=
  nothing rfl (.of_eq rfl)

/-- Only where a walk leads to matters for what it has generated. -/
theorem of_after_eq {walk' : Walk β} (generates : Generates options walk state calls)
    (same : after walk' state = after walk state) : Generates options walk' state calls where
  counted := same ▸ generates.counted
  grows := same ▸ generates.grows
  listed := same ▸ generates.listed
  unnamed := same ▸ generates.unnamed

theorem bind (first : Generates options walk state calls)
    (run : walk.run state = .ok result middle)
    (second : Generates options (next result) middle calls') :
    Generates options (walk >>= next) state (calls ++ calls') := by
  have final_eq := after_bind_of_ok run next
  obtain ⟨counted, grows, listed, unnamed⟩ := first
  rw [after_of_ok run] at counted grows listed unnamed
  constructor
  case counted =>
    rw [final_eq, List.map_append, List.map_append, List.append_assoc, second.counted,
      ← List.singleton_append, ← List.append_assoc, counted, List.cons_append]
  case grows =>
    rw [final_eq]
    exact grows.trans second.grows
  case listed =>
    rw [final_eq]
    intro call call_mem
    rcases List.mem_append.mp call_mem with early | late
    · exact ⟨(listed call early).1, (listed call early).2.trans second.grows⟩
    · exact ⟨grows.trans (second.listed call late).1, (second.listed call late).2⟩
  case unnamed =>
    rw [final_eq, second.unnamed, unnamed, List.map_append, List.append_assoc]

theorem stopped (first : Generates options walk state calls) {error : WalkError}
    (run : walk.run state = .error error middle) :
    Generates options (walk >>= next) state calls :=
  first.of_after_eq (after_bind_of_error run next)

/-- What generates nothing can follow on any walk. -/
theorem followed (first : Generates options walk state calls)
    (second : ∀ result middle, Generates options (next result) middle []) :
    Generates options (walk >>= next) state calls := by
  cases run : walk.run state with
  | ok result middle => exact List.append_nil calls ▸ first.bind run (second result middle)
  | error error middle => exact first.stopped run

theorem skip (tree : Tree) (state : WalkState) :
    Generates options (Walk.skip options tree) state [] := by
  apply nothing (anonymousCount_after_skip tree state)
  rw [model_after_skip]
  split <;> exact .of_eq rfl

theorem skipped (tree : Tree) (result : α) (state : WalkState) :
    Generates options (do Walk.skip options tree; return result) state [] :=
  (skip tree state).followed fun _ _ => pure result _

theorem enter (parent id : Option String) (state : WalkState) :
    Generates options (Walk.enter options parent id) state (entryGenerations id state) := by
  let new : Subgraph := { key := entryKey options id state, id }
  have count_eq : (after (Walk.enter options parent id) state).anonymousCount = _ :=
    anonymousCount_after_enter parent id state
  have model_eq : (after (Walk.enter options parent id) state).model = _ :=
    model_after_enter parent id state
  dsimp only at model_eq
  by_cases known : new.key ∈ state.model.graphs.keys
  · rw [if_pos known] at model_eq
    cases id with
    | none => exact absurd known (entryKey_none_free options state)
    | some id => exact nothing count_eq (.of_eq (congrArg Model.graphs model_eq))
  · rw [if_neg known] at model_eq
    have graphs_eq : (after (Walk.enter options parent id) state).model.graphs =
        plant state.model.graphs parent new := congrArg Model.graphs model_eq
    have keys_eq : (after (Walk.enter options parent id) state).model.graphs.keys =
        state.model.graphs.keys ++ [new.key] := by
      rw [graphs_eq, keys_plant, OrderedMap.keys_insert_of_not_mem _ known]
    have unnamed := unnamedKeys_plant parent new known
    rw [← graphs_eq] at unnamed
    have grows : state.model.graphs.keys <+:
        (after (Walk.enter options parent id) state).model.graphs.keys :=
      keys_eq ▸ List.prefix_append _ _
    cases id with
    | none =>
        refine ⟨?_, grows, ?_, unnamed⟩
        · rw [count_eq]
          rfl
        · intro call call_mem
          obtain rfl := List.mem_singleton.mp call_mem
          exact ⟨List.prefix_rfl, keys_eq ▸ List.prefix_rfl⟩
    | some id =>
        refine ⟨?_, grows, nofun, unnamed⟩
        rw [count_eq]
        rfl

theorem promote (key kind : String) (isStrict : Bool) (state : WalkState) :
    Generates options (Walk.promote key kind isStrict) state [] := by
  apply nothing (anonymousCount_after_promote key kind isStrict state)
  rw [model_after_promote, promoted, Model.graphs_setRoot]
  exact .modify _ key (fun subgraph => { subgraph with kind }) fun _ => rfl

theorem settle (key : String) (attrs : Attributes) (state : WalkState) :
    Generates options (Walk.settle key attrs) state [] :=
  nothing rfl (.modify _ key
    (fun subgraph => { subgraph with attrs := subgraph.attrs.override attrs }) fun _ => rfl)

theorem mention (id : String) (attrs defaults : Attributes) (parent : Option String)
    (state : WalkState) : Generates options (Walk.mention id attrs defaults parent) state [] := by
  cases parent with
  | none => exact nothing rfl (.of_eq rfl)
  | some above =>
      exact nothing rfl (.modify _ above (fun subgraph => subgraph.addNode id)
        fun subgraph => (subgraph.addNode_samePlace id).id)

theorem createEdges (parent : Option String) (edges : List Edge) (state : WalkState) :
    Generates options (Walk.createEdges parent edges) state [] := by
  cases parent with
  | none => exact nothing rfl (.of_eq rfl)
  | some above =>
      let numbers := List.range' state.model.edges.length edges.length
      exact nothing rfl (.modify _ above
        (fun subgraph => { subgraph with edges := subgraph.edges ++ numbers }) fun _ => rfl)

theorem resolveNode (node : NodeId) (scope : Scope) (parent : Option String)
    (state : WalkState) : Generates options (Walk.resolveNode node scope parent) state [] := by
  have run := run_resolveNode node scope parent state
  split at run
  · exact (pure () state).of_after_eq (after_of_ok run)
  · exact (mention node.id ∅ scope.node parent state).of_after_eq (after_of_ok run)

/-- What a body generates is all that is generated until its attributes are settled. -/
theorem body (key : String) {inner : Walk Scope} {rest : Walk β}
    (walked : Generates options inner state calls)
    (behind : ∀ final, Generates options rest final []) :
    Generates options (do let scope ← inner; Walk.settle key scope.graph; rest) state calls :=
  walked.followed fun scope middle =>
    (settle key scope.graph middle).followed fun _ final => behind final

end Generates

mutual

/-- A walk generates keys at a statement in the states that are listed for it. -/
theorem statement_generates : ∀ (tree : Tree) (parent : Option String) (scope : Scope)
    (state : WalkState),
    Generates options (statement options parent scope tree) state
      (generations options parent scope state tree)
  | .graph kind id isStrict children, parent, scope, state => by
      rw [statement, generations]
      refine (Generates.enter parent id state).bind (run_enter parent id state) ?_
      let key := entryKey options id state
      have walked (first : WalkState) := Generates.body key
        (statements_generates children (some key) scope first) fun final => .pure scope final
      cases parent.isNone with
      | true =>
          exact (Generates.promote _ kind isStrict _).bind (run_promote _ kind isStrict _)
            (walked _)
      | false => exact walked _
  | .subgraph id children, parent, scope, state => by
      rw [statement, generations]
      exact (Generates.enter parent id state).bind (run_enter parent id state)
        (.body _ (statements_generates children _ scope _) fun final => .pure scope final)
  | .nodeStmt subject attrs, parent, scope, state => by
      rw [statement]
      cases subject.name? with
      | some id =>
          exact (Generates.mention id _ scope.node parent state).followed fun _ final =>
            .pure scope final
      | none => exact .nothing rfl (.of_eq rfl)
  | .edgeStmt chain attrs, parent, scope, state => by
      rw [statement]
      exact (endpoints_generates chain parent scope state).followed fun groups middle =>
        (Generates.createEdges parent _ middle).followed fun _ final => .pure scope final
  | .attrStmt target attrs, parent, scope, state => by
      rw [statement]
      cases scope.set? target (Attributes.ofAttrs attrs) with
      | some changed => exact .pure changed state
      | none => exact .skipped _ scope state
  | .nodeId _, _, scope, state => .skipped _ scope state
  | .attr _, _, scope, state => .skipped _ scope state
  | .unknown _ _ _, _, scope, state => .skipped _ scope state
  | .raw _, _, scope, state => .skipped _ scope state
  | .list _, _, scope, state => .skipped _ scope state
termination_by structural tree => tree

theorem statements_generates : ∀ (trees : List Tree) (parent : Option String) (scope : Scope)
    (state : WalkState),
    Generates options (statements options parent scope trees) state
      (generationsIn options parent scope state trees)
  | [], _, scope, state => .pure scope state
  | tree :: rest, parent, scope, state => by
      have first := statement_generates tree parent scope state
      rw [statements, generationsIn]
      cases run : (statement options parent scope tree).run state with
      | ok changed middle =>
          exact first.bind run (statements_generates rest parent changed middle)
      | error error middle => exact List.append_nil _ ▸ first.stopped run
termination_by structural trees => trees

theorem endpoint_generates : ∀ (tree : Tree) (parent : Option String) (scope : Scope)
    (state : WalkState),
    Generates options (endpoint options parent scope tree) state
      (endpointGenerations options parent scope state tree)
  | .subgraph id children, parent, scope, state => by
      rw [endpoint, endpointGenerations]
      exact (Generates.enter parent id state).bind (run_enter parent id state)
        (.body _ (statements_generates children _ scope _) fun final => .nothing rfl (.of_eq rfl))
  | .nodeId node, parent, scope, state => .resolveNode node scope parent state
  | .graph .., _, _, state => .skipped _ _ state
  | .nodeStmt .., _, _, state => .skipped _ _ state
  | .edgeStmt .., _, _, state => .skipped _ _ state
  | .attrStmt .., _, _, state => .skipped _ _ state
  | .attr _, _, _, state => .skipped _ _ state
  | .unknown .., _, _, state => .skipped _ _ state
  | .raw _, _, _, state => .skipped _ _ state
  | .list _, _, _, state => .skipped _ _ state
termination_by structural tree => tree

theorem endpoints_generates : ∀ (trees : List Tree) (parent : Option String) (scope : Scope)
    (state : WalkState),
    Generates options (endpoints options parent scope trees) state
      (endpointGenerationsIn options parent scope state trees)
  | [], _, _, state => .pure [] state
  | tree :: rest, parent, scope, state => by
      have first := endpoint_generates tree parent scope state
      rw [endpoints, endpointGenerationsIn]
      cases run : (endpoint options parent scope tree).run state with
      | ok group middle =>
          exact first.bind run ((endpoints_generates rest parent scope middle).followed
            fun groups final => .pure (group :: groups) final)
      | error error middle => exact List.append_nil _ ▸ first.stopped run
termination_by structural trees => trees

end

theorem document_generates (tree : Tree) (model : Model) :
    Generates options (document options tree) { model }
      (documentGenerations options model tree) := by
  cases tree with
  | list items => exact statements_generates items none ∅ { model }
  | _ => exact statement_generates _ none ∅ { model }

/-! ### The keys of a walk -/

theorem run_generateKey (options : WalkOptions) (state : WalkState) :
    (generateKey options).run state =
      .ok (entryKey options none state)
        { state with anonymousCount := entryNumber options none state } :=
  rfl

theorem lt_entryNumber (options : WalkOptions) (state : WalkState) :
    state.anonymousCount < entryNumber options none state := by
  obtain ⟨rounds, _, search⟩ :=
    keySearch_next options.anonymousPrefix state.model.graphs state.anonymousCount
  exact search.isLeast.1.1

/-- Where each search goes on from the one before, the numbers ascend. -/
theorem isChain_of_counted {calls : List WalkState} {first last : Nat}
    (counted : calls.map WalkState.anonymousCount ++ [last] =
      first :: calls.map (entryNumber options none)) :
    (first :: calls.map (entryNumber options none)).IsChain (· < ·) := by
  induction calls generalizing first with
  | nil => exact .singleton first
  | cons call rest ih =>
      rw [List.map_cons, List.map_cons, List.cons_append, List.cons.injEq] at counted
      obtain ⟨first_eq, counted⟩ := counted
      rw [List.map_cons, ← first_eq]
      exact (ih counted).cons_cons (lt_entryNumber options call)

/-- A generated key is the prefix with the least number above the counter whose key is free, which
is found within one round more than there are subgraphs. The keys that are generated in one walk are
the new keys of subgraphs without id. They have ascending numbers, so they are different, and each
of them is listed behind the keys that were there when it was generated and is none of those. -/
theorem generated_keys (options : WalkOptions) :
    (∀ state : WalkState,
      let isTaken (number : Nat) : Prop :=
        anonymousKey options.anonymousPrefix number ∈ state.model.graphs.keys
      ∃ rounds number, KeySearch isTaken state.anonymousCount rounds number ∧
        rounds ≤ state.model.graphs.size + 1 ∧
        IsLeast {number | state.anonymousCount < number ∧ ¬isTaken number} number ∧
        (generateKey options).run state =
          .ok (options.anonymousPrefix ++ toString number)
            { state with anonymousCount := number }) ∧
    ∀ (tree : Tree) (model : Model),
      let final := (model.walkPlain options tree).model
      let calls := documentGenerations options model tree
      let keys := calls.map (entryKey options none)
      final.graphs.unnamedKeys = model.graphs.unnamedKeys ++ keys ∧
        (calls.map (entryNumber options none)).Pairwise (· < ·) ∧ keys.Nodup ∧
        ∀ call ∈ calls,
          (generateKey options).run call =
              .ok (entryKey options none call)
                { call with anonymousCount := entryNumber options none call } ∧
            model.graphs.keys <+: call.model.graphs.keys ∧
            call.model.graphs.keys ++ [entryKey options none call] <+: final.graphs.keys ∧
            entryKey options none call ∉ call.model.graphs.keys := by
  refine ⟨fun state => ?_, fun tree model => ?_⟩
  · obtain ⟨rounds, bounded, search⟩ :=
      keySearch_next options.anonymousPrefix state.model.graphs state.anonymousCount
    exact ⟨rounds, _, search, bounded, search.isLeast, run_generateKey options state⟩
  · intro final calls keys
    have generates : Generates options (document options tree) { model } calls :=
      document_generates tree model
    have final_eq : final = (after (document options tree) { model }).model :=
      Model.model_walkPlain options tree model
    have ascending : (calls.map (entryNumber options none)).Pairwise (· < ·) :=
      (List.isChain_iff_pairwise.mp (isChain_of_counted generates.counted)).of_cons
    have keys_eq : keys =
        (calls.map (entryNumber options none)).map (anonymousKey options.anonymousPrefix) := by
      rw [List.map_map]
      rfl
    have distinct : (calls.map (entryNumber options none)).Nodup := ascending.imp Nat.ne_of_lt
    have nodup : keys.Nodup :=
      keys_eq ▸ distinct.map (anonymousKey_injective options.anonymousPrefix)
    rw [final_eq]
    refine ⟨generates.unnamed, ascending, nodup, fun call call_mem => ?_⟩
    obtain ⟨earlier, listed⟩ := generates.listed call call_mem
    exact ⟨run_generateKey options call, earlier, listed, entryKey_none_free options call⟩

/-- The model has a subgraph under the second key, and the document one under the third. The walk
stops before the last subgraph. -/
theorem generated_keys_of_taken_names :
    let options : WalkOptions := { isStrict := true }
    let model : Model := { graphs := .ofList [("__anon2", { key := "__anon2" })] }
    let tree := Tree.graph "digraph" (some "g") false [
      .subgraph none [],
      .subgraph (some "__anon3") [],
      .subgraph none [.edgeStmt [.subgraph none [], .nodeId { id := "a" }] []],
      .raw .null,
      .subgraph none []]
    let calls := documentGenerations options model tree
    calls.map (entryKey options none) = ["__anon1", "__anon4", "__anon5"] ∧
      (calls.map (entryNumber options none)).Pairwise (· < ·) ∧
      (model.walkPlain options tree).model.graphs.unnamedKeys =
        ["__anon2", "__anon1", "__anon4", "__anon5"] ∧
      ∃ call ∈ calls, entryKey options none call = "__anon4" ∧
        "__anon4" ∉ call.model.graphs.keys := by
  intro options model tree calls
  have keys_eq : calls.map (entryKey options none) = ["__anon1", "__anon4", "__anon5"] := by
    decide +kernel
  obtain ⟨unnamed, ascending, _, each⟩ := (generated_keys options).2 tree model
  rw [keys_eq] at unnamed
  have key_mem : "__anon4" ∈ calls.map (entryKey options none) := by
    rw [keys_eq]
    decide
  obtain ⟨call, call_mem, key_eq⟩ := List.mem_map.mp key_mem
  exact ⟨keys_eq, ascending, unnamed, call, call_mem, key_eq,
    key_eq ▸ (each call call_mem).2.2.2⟩

end Walk

end DotLang
