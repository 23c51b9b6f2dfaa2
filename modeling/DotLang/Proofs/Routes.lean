import DotLang.Proofs.Loading
import DotLang.Proofs.Results

/-!
# Two routes from plain data to a model

Plain data can be loaded as it stands, where loading guesses whether it is a
tagged form, or it can be read as a tagged form first and loaded afterwards. The
routes part when the data is no object and no list with an object in it: then
nothing in it is a statement, and what the routes make of it differs only in the
wording of the diagnostics (`load_read_agrees`).
-/

namespace DotLang

namespace Tree

/-- Whether a statement means nothing to any walk. -/
def isSkipped : Tree → Bool
  | .unknown .. => true
  | .raw _ => true
  | .list _ => true
  | _ => false

/-- The statements of a whole document. -/
def topLevel : Tree → List Tree
  | .list items => items
  | tree => [tree]

theorem isSkipped_ofRaw (value : Value) : (ofRaw value).isSkipped = true := by
  cases value <;> rfl

theorem isSkipped_ofRawItems (items : List Value) :
    ∀ tree ∈ ofRawItems items, tree.isSkipped = true := by
  induction items with
  | nil => exact List.forall_mem_nil _
  | cons item rest ih => exact List.forall_mem_cons.mpr ⟨isSkipped_ofRaw item, ih⟩

theorem length_ofRawItems (items : List Value) :
    (ofRawItems items).length = items.length := by
  induction items with
  | nil => rfl
  | cons item rest ih => rw [ofRawItems, List.length_cons, List.length_cons, ih]

end Tree

namespace Walk

variable {options : WalkOptions}

theorem document_eq (tree : Tree) :
    document options tree = statements options none ∅ tree.topLevel := by
  cases tree <;> simp [document, Tree.topLevel, statements]

theorem run_statement_skipped (lenient : options.isStrict = false) (parent : Option String)
    (scope : Scope) {tree : Tree} (skipped : tree.isSkipped = true) (state : WalkState) :
    (statement options parent scope tree).run state =
      .ok scope (after (skip options tree) state) := by
  have statement_eq : statement options parent scope tree = do
      skip options tree
      return scope := by
    cases tree <;> first | rfl | cases skipped
  rw [statement_eq, EStateM.run_bind, run_skip_of_lenient lenient]
  rfl

/-- Statements that mean nothing leave one diagnostic each. -/
theorem run_statements_skipped (lenient : options.isStrict = false) (parent : Option String)
    (scope : Scope) {trees : List Tree} (skipped : ∀ tree ∈ trees, tree.isSkipped = true)
    (state : WalkState) : ∃ events,
      (statements options parent scope trees).run state = .ok scope
        { state with
          model := { state.model with
            diagnostics := state.model.diagnostics ++ trees.map Tree.diagnostic }
          events } := by
  induction trees generalizing state with
  | nil => exact ⟨state.events, by simp [statements]⟩
  | cons tree rest ih =>
      rw [List.forall_mem_cons] at skipped
      have first := run_statement_skipped lenient parent scope skipped.1 state
      rcases ih skipped.2 (after (skip options tree) state) with ⟨events, others⟩
      refine ⟨events, ?_⟩
      rw [statements, EStateM.run_bind, first]
      dsimp only
      rw [others]
      simp [after, skip, lenient, report, modifyModel]

end Walk

namespace WalkResult

/-- Two results that differ in their diagnostics at most, and in the same number of these, or in the
reason why a part was refused. -/
inductive Alike : WalkResult → WalkResult → Prop where
  | refused {first second : WalkResult} {failure failure' : Failure}
      (first_eq : first.failure = some failure) (second_eq : second.failure = some failure')
      (first_refusal : failure.isRefusal = true) (second_refusal : failure'.isRefusal = true) :
      Alike first second
  | completed {first second : WalkResult} (first_eq : first.failure = none)
      (second_eq : second.failure = none)
      (same : { first.model with diagnostics := second.model.diagnostics } = second.model)
      (count : first.model.diagnostics.length = second.model.diagnostics.length) :
      Alike first second

theorem Alike.refl {result : WalkResult}
    (refusal : ∀ failure ∈ result.failure, failure.isRefusal = true) : Alike result result := by
  cases failure_eq : result.failure with
  | none => exact .completed failure_eq failure_eq rfl rfl
  | some failure =>
      have refusal := refusal failure failure_eq
      exact .refused failure_eq failure_eq refusal refusal

end WalkResult

namespace Model

variable {geometry : Geometry}

/-- A walk of plain statements into a new model fails only by refusing one. -/
theorem walk_refusals (options : WalkOptions) (total : geometry.IsTotal) {tree : Tree}
    (named : tree.namesNodes) :
    ∀ failure ∈ (Model.walk options geometry tree ∅).failure, failure.isRefusal = true := by
  rcases options with ⟨isStrict, anonymousPrefix⟩
  have agree := walk_empty_agree anonymousPrefix total named
  cases isStrict with
  | true => exact agree.2.2.refusal
  | false => simp [agree.1]

/-- A document without meaning leaves a model with nothing but diagnostics. -/
theorem walk_skipped {options : WalkOptions} (lenient : options.isStrict = false) {tree : Tree}
    (skipped : ∀ item ∈ tree.topLevel, item.isSkipped = true) : ∃ events,
      Model.walk options geometry tree ∅ =
        ⟨{ diagnostics := tree.topLevel.map Tree.diagnostic }, events, none⟩ := by
  have run : ∃ events, (Walk.document options tree).run { model := ∅ } =
      .ok ∅ { model := { diagnostics := tree.topLevel.map Tree.diagnostic }, events } := by
    rw [Walk.document_eq]
    exact Walk.run_statements_skipped lenient none ∅ skipped { model := ∅ }
  rcases run with ⟨events, run⟩
  refine ⟨events, ?_⟩
  rw [Model.walk, walkPlain, run]
  cases geometry <;> rfl

/-- A strict walk refuses a document without meaning unless there is nothing in it. -/
theorem strict_walk_skipped (anonymousPrefix : String) (total : geometry.IsTotal) {tree : Tree}
    (named : tree.namesNodes) (skipped : ∀ item ∈ tree.topLevel, item.isSkipped = true) :
    let strict := Model.walk { isStrict := true, anonymousPrefix } geometry tree ∅
    (tree.topLevel = [] →
      strict = Model.walk { isStrict := false, anonymousPrefix } geometry tree ∅) ∧
    (tree.topLevel ≠ [] → ∃ failure, strict.failure = some failure ∧ failure.isRefusal = true) := by
  intro strict
  have lenient : ({ isStrict := false, anonymousPrefix } : WalkOptions).isStrict = false := rfl
  have agree := (walk_empty_agree anonymousPrefix total named).2.2
  rcases walk_skipped lenient skipped with ⟨events, lenient_eq⟩
  have refused_iff : strict.failure.isSome = true ↔ tree.topLevel ≠ [] := by
    rw [agree.refused_iff, lenient_eq]
    simp
  constructor
  · intro empty
    apply agree.same
    simpa [empty] using refused_iff
  · intro filled
    rcases Option.isSome_iff_exists.mp (refused_iff.mpr filled) with ⟨failure, failure_eq⟩
    exact ⟨failure, failure_eq, agree.refusal failure failure_eq⟩

/-- Two documents without meaning have the same outcome if they have the same number of
statements. -/
theorem walk_skipped_alike (options : WalkOptions) (total : geometry.IsTotal) {first second : Tree}
    (first_named : first.namesNodes) (second_named : second.namesNodes)
    (first_skipped : ∀ item ∈ first.topLevel, item.isSkipped = true)
    (second_skipped : ∀ item ∈ second.topLevel, item.isSkipped = true)
    (count : first.topLevel.length = second.topLevel.length) :
    (Model.walk options geometry first ∅).Alike (Model.walk options geometry second ∅) := by
  rcases options with ⟨isStrict, anonymousPrefix⟩
  have alike : (Model.walk { isStrict := false, anonymousPrefix } geometry first ∅).Alike
      (Model.walk { isStrict := false, anonymousPrefix } geometry second ∅) := by
    have lenient : ({ isStrict := false, anonymousPrefix } : WalkOptions).isStrict = false := rfl
    rcases walk_skipped lenient first_skipped with ⟨events, first_eq⟩
    rcases walk_skipped lenient second_skipped with ⟨events', second_eq⟩
    rw [first_eq, second_eq]
    exact .completed rfl rfl rfl (by simpa using count)
  cases isStrict with
  | false => exact alike
  | true =>
      have first_strict := strict_walk_skipped anonymousPrefix total first_named first_skipped
      have second_strict := strict_walk_skipped anonymousPrefix total second_named second_skipped
      by_cases empty : first.topLevel = []
      · have empty' : second.topLevel = [] := by
          rw [← List.length_eq_zero_iff, ← count, empty]
          rfl
        rw [first_strict.1 empty, second_strict.1 empty']
        exact alike
      · have filled : second.topLevel ≠ [] := by
          rw [← List.length_pos_iff, ← count, List.length_pos_iff]
          exact empty
        rcases first_strict.2 empty with ⟨failure, first_eq, first_refusal⟩
        rcases second_strict.2 filled with ⟨failure', second_eq, second_refusal⟩
        exact .refused first_eq second_eq first_refusal second_refusal

end Model

/-- Reads plain data as a tagged form and loads what it says. -/
def loadRead (options : WalkOptions) (geometry : Geometry) (value : Value) : WalkResult :=
  match Tree.ofValue options.isStrict value with
  | .ok tree => load options geometry tree
  | .error malformed => ⟨∅, [], some (.malformed malformed)⟩

namespace Tree

variable {isStrict : Bool}

/-- Whether all that a reading makes is something else than a tagged form. -/
def Typed (reading : Except Malformed Tree) : Prop :=
  ∀ tree, reading = .ok tree → tree.isTaggedForm = false

namespace Typed

theorem ok {tree : Tree} (typed : tree.isTaggedForm = false) : Typed (.ok tree) := by
  rintro _ ⟨⟩
  exact typed

theorem error (malformed : Malformed) : Typed (.error malformed) :=
  fun _ => nofun

theorem bind {α : Type} {first : Except Malformed α} {next : α → Except Malformed Tree}
    (each : ∀ part, Typed (next part)) : Typed (first >>= next) := by
  intro tree read
  rcases exists_of_bind_eq_ok read with ⟨part, _, read⟩
  exact each part tree read

theorem orUnknown {data kind : Value} {statement : Except Malformed Tree}
    (typed : Typed statement) : Typed (orUnknown isStrict data kind statement) := by
  cases statement with
  | ok tree => exact typed
  | error malformed =>
      cases isStrict with
      | true => exact error malformed
      | false => exact ok rfl

theorem ofObject (fields : List (String × Value)) :
    Typed (ofValue isStrict (.object fields)) := by
  rw [ofValue]
  apply orUnknown
  split
  · split
    · exact bind fun _ => ok rfl
    · split
      · exact bind fun _ => ok rfl
      · split
        · exact bind fun _ => bind fun _ => bind fun _ => ok rfl
        · split
          · exact bind fun _ => bind fun _ => ok rfl
          · split
            · apply bind
              intro target
              split
              · split
                · exact bind fun _ => ok rfl
                · exact error _
              · exact error _
            · split
              · exact bind fun _ => ok rfl
              · exact error _
  · exact error _

end Typed

/-- What is neither list nor object is not understood. -/
theorem ofValue_scalar {value : Value} (notList : ∀ items, value ≠ .list items)
    (notObject : ∀ fields, value ≠ .object fields) {tree : Tree}
    (read : ofValue isStrict value = .ok tree) :
    ∃ kind data reason, tree = .unknown kind data reason := by
  rw [ofValue] at read
  · cases isStrict <;> cases read
    exact ⟨_, _, _, rfl⟩
  · exact notList
  · exact notObject

theorem isObject_of_ofValue {value : Value} {tree : Tree}
    (read : ofValue isStrict value = .ok tree) : tree.isObject = false := by
  cases value with
  | list items =>
      rcases exists_of_bind_eq_ok read with ⟨trees, _, tree_eq⟩
      cases tree_eq
      rfl
  | object fields =>
      have typed := Typed.ofObject fields tree read
      cases tree with
      | list items => rfl
      | _ => exact typed
  | _ =>
      rcases ofValue_scalar (by simp) (by simp) read with ⟨_, _, _, rfl⟩
      rfl

theorem isSkipped_of_ofValue {value : Value} {tree : Tree}
    (notObject : (ofRaw value).isObject = false) (read : ofValue isStrict value = .ok tree) :
    tree.isSkipped = true := by
  cases value with
  | list items =>
      rcases exists_of_bind_eq_ok read with ⟨trees, _, tree_eq⟩
      cases tree_eq
      rfl
  | object fields => cases notObject
  | _ =>
      rcases ofValue_scalar (by simp) (by simp) read with ⟨_, _, _, rfl⟩
      rfl

theorem isSkipped_of_ofItems : ∀ {items : List Value} {trees : List Tree},
    (ofRawItems items).any isObject = false → ofItems isStrict items = .ok trees →
      (∀ tree ∈ trees, tree.isSkipped = true) ∧ trees.length = items.length
  | [], _, _, read => by
      cases read
      exact ⟨List.forall_mem_nil _, rfl⟩
  | item :: rest, _, notTagged, read => by
      rcases exists_of_bind_eq_ok read with ⟨tree, tree_eq, read⟩
      rcases exists_of_bind_eq_ok read with ⟨trees, trees_eq, read⟩
      cases read
      rw [ofRawItems, List.any_cons, Bool.or_eq_false_iff] at notTagged
      rcases isSkipped_of_ofItems notTagged.2 trees_eq with ⟨skipped, count⟩
      exact ⟨List.forall_mem_cons.mpr ⟨isSkipped_of_ofValue notTagged.1 tree_eq, skipped⟩,
        congrArg Nat.succ count⟩

theorem isTaggedForm_of_ofItems : ∀ {items : List Value} {trees : List Tree},
    ofItems isStrict items = .ok trees → trees.any isObject = false
  | [], _, read => by
      cases read
      rfl
  | item :: rest, _, read => by
      rcases exists_of_bind_eq_ok read with ⟨tree, tree_eq, read⟩
      rcases exists_of_bind_eq_ok read with ⟨trees, trees_eq, read⟩
      cases read
      rw [List.any_cons, isObject_of_ofValue tree_eq, isTaggedForm_of_ofItems trees_eq]
      rfl

/-- What was read is not taken for a tagged form again. -/
theorem isTaggedForm_of_ofValue {value : Value} {tree : Tree}
    (read : ofValue isStrict value = .ok tree) : tree.isTaggedForm = false := by
  cases value with
  | list items =>
      rcases exists_of_bind_eq_ok read with ⟨trees, trees_eq, tree_eq⟩
      cases tree_eq
      exact isTaggedForm_of_ofItems trees_eq
  | object fields => exact Typed.ofObject fields tree read
  | _ =>
      rcases ofValue_scalar (by simp) (by simp) read with ⟨_, _, _, rfl⟩
      rfl

theorem isSkipped_topLevel_ofRaw {value : Value}
    (notTagged : (ofRaw value).isTaggedForm = false) :
    ∀ item ∈ (ofRaw value).topLevel, item.isSkipped = true := by
  cases value with
  | list items => exact isSkipped_ofRawItems items
  | _ => exact List.forall_mem_singleton.mpr rfl

theorem eq_nil_of_topLevel {value : Value} (empty : (ofRaw value).topLevel = []) :
    value = .list [] := by
  cases value with
  | list items =>
      have none : items.length = 0 := by
        rw [← length_ofRawItems]
        exact congrArg List.length empty
      rw [List.eq_nil_of_length_eq_zero none]
  | _ => cases empty

/-- Data without a statement in it is read as a document without meaning. -/
theorem topLevel_of_ofValue {value : Value} (notTagged : (ofRaw value).isTaggedForm = false)
    {tree : Tree} (read : ofValue isStrict value = .ok tree) :
    (∀ item ∈ tree.topLevel, item.isSkipped = true) ∧
      tree.topLevel.length = (ofRaw value).topLevel.length := by
  cases value with
  | list items =>
      rcases exists_of_bind_eq_ok read with ⟨trees, trees_eq, tree_eq⟩
      cases tree_eq
      rcases isSkipped_of_ofItems notTagged trees_eq with ⟨skipped, count⟩
      exact ⟨skipped, count.trans (length_ofRawItems items).symm⟩
  | object fields => cases notTagged
  | _ =>
      rcases ofValue_scalar (by simp) (by simp) read with ⟨_, _, _, rfl⟩
      exact ⟨List.forall_mem_singleton.mpr rfl, rfl⟩

/-- All that is read names its nodes. -/
theorem namesNodes_of_ofValue {value : Value} {tree : Tree}
    (read : ofValue isStrict value = .ok tree) : tree.namesNodes = true := by
  have readings := ofValue_readings value
  cases isStrict with
  | false => exact readings.named tree read
  | true =>
      rcases readings.related with same | ⟨⟨malformed, strict_eq⟩, _⟩
      · exact readings.named tree (same.symm.trans read)
      · cases strict_eq.symm.trans read

end Tree

variable {options : WalkOptions} {geometry : Geometry}

/-- What was read is walked as it stands. -/
theorem load_of_ofValue {isStrict : Bool} {value : Value} {tree : Tree}
    (read : Tree.ofValue isStrict value = .ok tree) :
    load options geometry tree = Model.walk options geometry tree ∅ := by
  rw [load, Tree.isTaggedForm_of_ofValue read]
  rfl

theorem loadRead_of_ok {value : Value} {tree : Tree}
    (read : Tree.ofValue options.isStrict value = .ok tree) :
    loadRead options geometry value = Model.walk options geometry tree ∅ := by
  simp only [loadRead, read, load_of_ofValue read]

theorem loadRead_refusals (total : geometry.IsTotal) (value : Value) :
    ∀ failure ∈ (loadRead options geometry value).failure, failure.isRefusal = true := by
  cases read : Tree.ofValue options.isStrict value with
  | error malformed => simp [loadRead, read, Failure.isRefusal]
  | ok tree =>
      rw [loadRead_of_ok read]
      exact Model.walk_refusals options total (Tree.namesNodes_of_ofValue read)

/-- A tagged form goes through the same steps on both routes. -/
theorem load_eq_loadRead {value : Value} (tagged : (Tree.ofRaw value).isTaggedForm = true) :
    load options geometry (.ofRaw value) = loadRead options geometry value := by
  rw [load, if_pos tagged, Tree.interpret_ofRaw]
  cases read : Tree.ofValue options.isStrict value with
  | error malformed => simp only [loadRead, read]
  | ok tree => rw [loadRead_of_ok read]

/-- On both routes the same is loaded or something is refused. -/
theorem load_alike (total : geometry.IsTotal) (value : Value) :
    (load options geometry (.ofRaw value)).Alike (loadRead options geometry value) := by
  cases tagged : (Tree.ofRaw value).isTaggedForm with
  | true =>
      rw [load_eq_loadRead tagged]
      exact .refl (loadRead_refusals total value)
  | false =>
      have guessed : load options geometry (.ofRaw value) =
          Model.walk options geometry (.ofRaw value) ∅ := by
        rw [load, tagged]
        rfl
      have named := Tree.namesNodes_ofRaw value
      have skipped := Tree.isSkipped_topLevel_ofRaw tagged
      rw [guessed]
      cases read : Tree.ofValue options.isStrict value with
      | ok tree =>
          rcases Tree.topLevel_of_ofValue tagged read with ⟨tree_skipped, count⟩
          rw [loadRead_of_ok read]
          exact Model.walk_skipped_alike options total named (Tree.namesNodes_of_ofValue read)
            skipped tree_skipped count.symm
      | error malformed =>
          rcases options with ⟨isStrict, anonymousPrefix⟩
          cases isStrict with
          | false =>
              rcases Tree.ofValue_lenient value with ⟨tree, lenient_eq⟩
              cases lenient_eq.symm.trans read
          | true =>
              have filled : (Tree.ofRaw value).topLevel ≠ [] := by
                intro empty
                rw [Tree.eq_nil_of_topLevel empty] at read
                cases read
              have refused :
                  (loadRead { isStrict := true, anonymousPrefix } geometry value).failure =
                    some (.malformed malformed) := by
                simp only [loadRead, read]
              rcases (Model.strict_walk_skipped anonymousPrefix total named skipped).2 filled with
                ⟨failure, failure_eq, refusal⟩
              exact .refused failure_eq refused refusal rfl

end DotLang
