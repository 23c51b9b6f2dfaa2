import DotLang.Proofs.Walk.Growth
import DotLang.Proofs.Walk.SideBySide

/-!
# Where a strict walk stops

A strict walk does what the lenient walk of the same tree does until that leaves
its first diagnostic, and stops there with that diagnostic for its message. What
it has recorded by then is how the record of the lenient walk begins
(`strict_walk_stops`). A tree without anything to report is walked alike.

The two walks are compared operation by operation (`Leads`). Only skipping tells
them apart; everything behind it is done by the lenient walk alone, which does no
more than add to the model.
-/

namespace DotLang

namespace Walk

variable {α β : Type}

/-- A walk takes nothing away from the tables of the model, wherever it ends. -/
def OnlyAdds (walk : Walk α) : Prop :=
  ∀ state : WalkState, state.model.Precedes (after walk state).model

/-- What is done behind a walk adds to what the walk leaves. -/
theorem OnlyAdds.behind {next : α → Walk β} (adds : ∀ result, OnlyAdds (next result))
    (walk : Walk α) (state : WalkState) :
    (after walk state).model.Precedes (after (walk >>= next) state).model := by
  cases run : walk.run state with
  | ok result middle =>
      rw [after_bind_of_ok run, after_of_ok run]
      exact adds result middle
  | error error stopped =>
      rw [after_bind_of_error run]
      exact .refl _

/-- How a strict walk and a lenient one from the same state compare. -/
inductive Compares (strict lenient : Walk α) (state : WalkState) : Prop where
  /-- Both go through alike and report nothing. -/
  | through {result : α} {final : WalkState} (strictRun : strict.run state = .ok result final)
      (lenientRun : lenient.run state = .ok result final)
      (quiet : final.model.diagnostics = state.model.diagnostics)
  /-- Both meet a node statement without a name before anything is reported. -/
  | unnamed {subject : Tree} {final : WalkState}
      (strictRun : strict.run state = .error (.unnamed subject) final)
      (lenientRun : lenient.run state = .error (.unnamed subject) final)
      (quiet : final.model.diagnostics = state.model.diagnostics)
  /-- The strict one stops before anything is reported, where the lenient one goes on with a
  diagnostic. -/
  | parts {statement : Tree} {stopped : WalkState}
      (strictRun : strict.run state = .error (.unrecognized statement) stopped)
      (quiet : stopped.model.diagnostics = state.model.diagnostics)
      (precedes : stopped.model.Precedes (after lenient state).model)
      (reports : state.model.diagnostics ++ [statement.diagnostic] <+:
        (after lenient state).model.diagnostics)

/-- The strict walk leads the way of the lenient one up to its first diagnostic, from every
state. -/
structure Leads (strict lenient : Walk α) : Prop where
  adds : OnlyAdds lenient
  compares : ∀ state, Compares strict lenient state

namespace Leads

/-- A walk that only adds and reports nothing. -/
theorem quiet {walk : Walk α} (goes : ∀ state, ∃ result final,
    walk.run state = .ok result final ∧ state.model.Precedes final.model ∧
      final.model.diagnostics = state.model.diagnostics) : Leads walk walk where
  adds := by
    intro state
    obtain ⟨result, final, run, precedes, _⟩ := goes state
    rw [after, run]
    exact precedes
  compares := by
    intro state
    obtain ⟨result, final, run, _, same⟩ := goes state
    exact .through run run same

theorem modifyModel {change : Model → Model}
    (precedes : ∀ model : Model, model.Precedes (change model))
    (same : ∀ model, (change model).diagnostics = model.diagnostics) :
    Leads (Walk.modifyModel change) (Walk.modifyModel change) :=
  quiet fun state => ⟨(), _, run_modifyModel change state, precedes _, same _⟩

theorem bind {strict lenient : Walk α} {next next' : α → Walk β} (early : Leads strict lenient)
    (late : ∀ result, Leads (next result) (next' result)) :
    Leads (strict >>= next) (lenient >>= next') := by
  have behind := OnlyAdds.behind (fun result => (late result).adds) lenient
  refine ⟨fun state => (early.adds state).trans (behind state), fun state => ?_⟩
  cases early.compares state with
  | unnamed strictRun lenientRun quiet =>
      exact .unnamed (run_bind_of_error strictRun next) (run_bind_of_error lenientRun next') quiet
  | parts strictRun quiet precedes reports =>
      exact .parts (run_bind_of_error strictRun next) quiet (precedes.trans (behind state))
        (reports.trans (behind state).diagnostics)
  | @through result middle strictRun lenientRun quiet =>
      have strict_eq := run_bind_of_ok strictRun next
      have lenient_eq := run_bind_of_ok lenientRun next'
      have after_eq := after_bind_of_ok lenientRun next'
      cases (late result).compares middle with
      | through strictRun' lenientRun' quiet' =>
          exact .through (strict_eq.trans strictRun') (lenient_eq.trans lenientRun')
            (quiet'.trans quiet)
      | unnamed strictRun' lenientRun' quiet' =>
          exact .unnamed (strict_eq.trans strictRun') (lenient_eq.trans lenientRun')
            (quiet'.trans quiet)
      | parts strictRun' quiet' precedes reports =>
          rw [← after_eq] at precedes reports
          exact .parts (strict_eq.trans strictRun') (quiet'.trans quiet) precedes (quiet ▸ reports)

theorem skip (anonymousPrefix : String) (tree : Tree) :
    Leads (Walk.skip { isStrict := true, anonymousPrefix } tree)
      (Walk.skip { isStrict := false, anonymousPrefix } tree) := by
  let lenient : WalkOptions := { isStrict := false, anonymousPrefix }
  have model_eq (state : WalkState) : (after (Walk.skip lenient tree) state).model =
      { state.model with diagnostics := state.model.diagnostics ++ [tree.diagnostic] } :=
    model_after_skip tree state
  have adds : OnlyAdds (Walk.skip lenient tree) := by
    intro state
    rw [model_eq]
    exact (Model.KeptIn.addDiagnostic _ _).toPrecedes
  refine ⟨adds, fun state => ?_⟩
  have stops : (Walk.skip { isStrict := true, anonymousPrefix } tree).run state =
      .error (.unrecognized tree) state := by simp [Walk.skip]
  have reported : (after (Walk.skip lenient tree) state).model.diagnostics =
      state.model.diagnostics ++ [tree.diagnostic] := congrArg Model.diagnostics (model_eq state)
  exact .parts stops rfl (adds state) (reported ▸ List.prefix_rfl)

theorem enter (anonymousPrefix : String) (parent id : Option String) :
    Leads (Walk.enter { isStrict := true, anonymousPrefix } parent id)
      (Walk.enter { isStrict := false, anonymousPrefix } parent id) := by
  -- Which key is generated does not depend on how strict a walk is.
  apply quiet
  intro state
  refine ⟨_, _, run_enter parent id state, ?_⟩
  rw [model_after_enter]
  dsimp only
  split
  · exact ⟨.refl _, rfl⟩
  · exact ⟨.plant _ parent _, rfl⟩

theorem promote (key kind : String) (isStrict : Bool) :
    Leads (Walk.promote key kind isStrict) (Walk.promote key kind isStrict) := by
  apply quiet
  intro state
  refine ⟨(), _, run_promote key kind isStrict state, ?_⟩
  rw [model_after_promote, promoted]
  refine ⟨((Model.KeptIn.modify _ key fun old => .retitle old kind).trans
    (.setRoot _ key isStrict)).toPrecedes, ?_⟩
  rw [Model.setRoot]
  split
  · rfl
  · split <;> rfl

theorem mention (id : String) (attrs defaults : Attributes) (parent : Option String) :
    Leads (Walk.mention id attrs defaults parent) (Walk.mention id attrs defaults parent) := by
  refine modifyModel (fun model => ?_) fun model => by cases parent <;> rfl
  have written := Model.Precedes.putNode model
  cases parent with
  | none => exact written _
  | some above =>
      exact (written _).trans (Model.KeptIn.modify _ above fun old => .addNode old id).toPrecedes

theorem createEdges (parent : Option String) (edges : List Edge) :
    Leads (Walk.createEdges parent edges) (Walk.createEdges parent edges) := by
  refine modifyModel (fun model => ?_) fun model => by cases parent <;> rfl
  have added := Model.KeptIn.addEdges model edges
  cases parent with
  | none => exact added.toPrecedes
  | some above =>
      exact (added.trans (.modify _ above fun old => .addEdges old _)).toPrecedes

theorem settle (key : String) (attrs : Attributes) :
    Leads (Walk.settle key attrs) (Walk.settle key attrs) :=
  modifyModel
    (fun model => (Model.KeptIn.modify model key fun old => .override old attrs).toPrecedes)
    fun _ => rfl

theorem unnamed (subject : Tree) :
    Leads (throw (.unnamed subject) : Walk α) (throw (.unnamed subject)) where
  adds state := .refl state.model
  compares _ := .unnamed rfl rfl rfl

end Leads

/-- Strict walks lead the way of lenient ones. -/
theorem leads_relates (anonymousPrefix : String) :
    Relates { isStrict := true, anonymousPrefix } { isStrict := false, anonymousPrefix } Leads where
  pure result := .quiet fun state => ⟨result, state, rfl, .refl _, rfl⟩
  bind early late := early.bind late
  get := .quiet fun state => ⟨state, state, rfl, .refl _, rfl⟩
  unnamed := .unnamed
  skip := .skip anonymousPrefix
  enter := .enter anonymousPrefix
  promote := .promote
  settle := .settle
  mention := .mention
  createEdges := .createEdges

end Walk

namespace Model

/-- A strict walk into a new model stops exactly if the lenient walk of the same tree reports
something, with the first report for its message and with a model that precedes the other one.
Otherwise the two walks are the same. -/
theorem strict_walk_stops (anonymousPrefix : String) (tree : Tree) :
    let strict := walkPlain { isStrict := true, anonymousPrefix } tree ∅
    let lenient := walkPlain { isStrict := false, anonymousPrefix } tree ∅
    ((∃ statement, strict.failure = some (.walk (.unrecognized statement))) ↔
      lenient.model.diagnostics ≠ []) ∧
    (∀ statement, strict.failure = some (.walk (.unrecognized statement)) →
      lenient.model.diagnostics.head? = some (WalkError.unrecognized statement).message ∧
      strict.model.diagnostics = [] ∧ strict.model.Precedes lenient.model ∧
      ∀ tail head, strict.model.getEdges tail head <+: lenient.model.getEdges tail head) ∧
    ((∀ statement, strict.failure ≠ some (.walk (.unrecognized statement))) →
      strict = lenient) := by
  intro strict lenient
  cases ((Walk.leads_relates anonymousPrefix).document tree).compares { model := ∅ } with
  | @through scope final strictRun lenientRun quiet =>
      have strict_eq : strict = _ := walkPlain_of_ok strictRun
      have lenient_eq : lenient = _ := walkPlain_of_ok lenientRun
      have silent : final.model.diagnostics = [] := quiet
      simp [lenient_eq, strict_eq, silent]
  | @unnamed subject final strictRun lenientRun quiet =>
      have strict_eq : strict = _ := walkPlain_of_error strictRun
      have lenient_eq : lenient = _ := walkPlain_of_error lenientRun
      have silent : final.model.diagnostics = [] := quiet
      simp [lenient_eq, strict_eq, silent]
  | @parts statement stopped strictRun quiet precedes reports =>
      have strict_eq : strict = _ := walkPlain_of_error strictRun
      have lenient_model : lenient.model = _ := model_walkPlain _ tree ∅
      have silent : strict.model.diagnostics = [] := by
        rw [strict_eq]
        exact quiet
      have begins : strict.model.Precedes lenient.model := by
        rw [strict_eq, lenient_model]
        exact precedes
      obtain ⟨later, reported⟩ : [statement.diagnostic] <+: lenient.model.diagnostics := by
        rw [lenient_model]
        exact reports
      refine ⟨?stops, ?first, ?same⟩
      case stops => simp [strict_eq, ← reported]
      case first =>
        intro other failure_eq
        have same : statement = other := by simpa [strict_eq] using failure_eq
        refine ⟨?_, silent, begins, begins.getEdges⟩
        rw [← reported, ← same]
        rfl
      case same =>
        intro never
        exact absurd (by rw [strict_eq]) (never statement)

end Model

end DotLang
