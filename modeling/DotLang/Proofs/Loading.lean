import DotLang.Proofs.TaggedForm
import DotLang.Proofs.TypedPass

/-!
# Strict and lenient loading

Loading has two strict modes, that of reading the tagged form and that of the
walk. They line up: whatever strict loading refuses, in either of them, leaves a
diagnostic when it is loaded leniently, and nothing else does
(`load_strict_agrees`). A malformed part refused by reading becomes a statement
that the lenient walk cannot understand, so its diagnostic comes from the walk
in any case.
-/

namespace DotLang

/-- Whether a failure is about a part of the document that means nothing. -/
def Failure.isRefusal : Failure → Bool
  | .malformed _ => true
  | .walk (.unrecognized _) => true
  | _ => false

namespace WalkResult

/-- A strict result is the lenient one, or something was refused that the lenient one reports. -/
structure Agree (strict lenient : WalkResult) : Prop where
  completes : lenient.failure = none
  refused_iff : strict.failure.isSome = true ↔ lenient.model.diagnostics ≠ []
  refusal : ∀ failure ∈ strict.failure, failure.isRefusal = true
  same : strict.failure = none → strict = lenient

variable {strict lenient : WalkResult}

theorem agree_of_quiet (completes : lenient.failure = none)
    (quiet : lenient.model.diagnostics = []) : Agree lenient lenient := by
  refine ⟨completes, ?_, ?_, fun _ => rfl⟩
  · simp [completes, quiet]
  · simp [completes]

theorem agree_of_refusal {failure : Failure} (refused : strict.failure = some failure)
    (refusal : failure.isRefusal = true) (completes : lenient.failure = none)
    (reported : lenient.model.diagnostics ≠ []) : Agree strict lenient := by
  refine ⟨completes, ?_, ?_, ?_⟩
  · simp [refused, reported]
  · rintro other other_mem
    rw [refused] at other_mem
    cases other_mem
    exact refusal
  · simp [refused]

end WalkResult

namespace Model

variable {geometry : Geometry}

/-- A typed pass that does not stop keeps the outcome and the diagnostics. -/
theorem retypeResult_of_isTotal (total : geometry.IsTotal) {result : WalkResult}
    (wellFormed : result.model.WellFormed) :
    (retypeResult geometry result).failure = result.failure ∧
      (retypeResult geometry result).model.diagnostics = result.model.diagnostics := by
  unfold retypeResult
  split
  · next completes =>
      rw [wellFormed.retype_eq total, completes]
      exact ⟨rfl, rfl⟩
  · exact ⟨rfl, rfl⟩

/-- A lenient walk reports nothing exactly if it understands everything; then a strict walk is the
same, and otherwise a strict walk stops at something that it does not understand. -/
theorem walk_empty_agree (anonymousPrefix : String) (total : geometry.IsTotal) {tree : Tree}
    (named : tree.namesNodes) :
    let strict := Model.walk { isStrict := true, anonymousPrefix } geometry tree ∅
    let lenient := Model.walk { isStrict := false, anonymousPrefix } geometry tree ∅
    lenient.failure = none ∧ (lenient.model.diagnostics = [] ↔ tree.isUnderstoodDocument = true) ∧
      strict.Agree lenient := by
  intro strict lenient
  have wellFormed (options : WalkOptions) := wellFormed_empty.walkPlain options tree
  rcases Walk.document_agree anonymousPrefix tree named { model := ∅ } with
    ⟨scope, final, run, understood, skipped⟩
  have lenient_eq : Model.walkPlain { isStrict := false, anonymousPrefix } tree ∅ =
      ⟨final.model, final.events, none⟩ := by
    rw [walkPlain, run]
  have kept := retypeResult_of_isTotal total (wellFormed { isStrict := false, anonymousPrefix })
  rw [lenient_eq] at kept
  have completes : lenient.failure = none := by
    change (retypeResult geometry _).failure = none
    rw [lenient_eq]
    exact kept.1
  have diagnostics_eq : lenient.model.diagnostics = final.model.diagnostics := by
    change (retypeResult geometry _).model.diagnostics = _
    rw [lenient_eq]
    exact kept.2
  cases understands : tree.isUnderstoodDocument with
  | true =>
      rcases understood understands with ⟨strictRun, quiet⟩
      have same : strict = lenient := by
        change retypeResult geometry _ = retypeResult geometry _
        rw [lenient_eq, walkPlain, strictRun]
      have noDiagnostics : lenient.model.diagnostics = [] := diagnostics_eq.trans quiet
      refine ⟨completes, by simp [noDiagnostics], ?_⟩
      rw [same]
      exact WalkResult.agree_of_quiet completes noDiagnostics
  | false =>
      rcases skipped understands with ⟨⟨statement, stopped, strictRun⟩, more⟩
      have reported : lenient.model.diagnostics ≠ [] := by
        rw [diagnostics_eq]
        exact List.ne_nil_of_length_pos (Nat.zero_lt_of_lt more)
      have strictKept := retypeResult_of_isTotal total
        (wellFormed { isStrict := true, anonymousPrefix })
      have refused : strict.failure = some (.walk (.unrecognized statement)) := by
        refine strictKept.1.trans ?_
        rw [walkPlain, strictRun]
      refine ⟨completes, by simp [reported], ?_⟩
      exact WalkResult.agree_of_refusal refused rfl completes reported

end Model

theorem Geometry.isTotal_plain : Geometry.plain.IsTotal :=
  fun _ _ => rfl

/-- Plain data is loaded strictly and leniently to the same result unless something in it is
refused; lenient loading then goes through all the same, and reports it. -/
theorem load_strict_agrees (anonymousPrefix : String) {geometry : Geometry}
    (isDouble : geometry = .plain ∨ ∃ scale : Float, geometry = .typed (.float scale))
    (value : Value) :
    let strict := load { isStrict := true, anonymousPrefix } geometry (.ofRaw value)
    let lenient := load { isStrict := false, anonymousPrefix } geometry (.ofRaw value)
    lenient.failure = none ∧
      (strict.failure.isSome = true ↔ lenient.model.diagnostics ≠ []) ∧
      (∀ failure ∈ strict.failure, failure.isRefusal = true) ∧
      (strict.failure = none → strict = lenient) := by
  intro strict lenient
  have total : geometry.IsTotal := by
    rcases isDouble with rfl | ⟨scale, rfl⟩
    · exact Geometry.isTotal_plain
    · exact Geometry.isTotal_of_float scale
  have agree : strict.Agree lenient := by
    simp only [strict, lenient, load]
    split
    · -- The tagged form is read before the walk, and either mode of reading may already differ.
      rw [Tree.interpret_ofRaw, Tree.interpret_ofRaw]
      have readings := Tree.ofValue_readings value
      rcases Tree.ofValue_lenient value with ⟨tree, lenient_eq⟩
      have named := readings.named tree lenient_eq
      have walked := Model.walk_empty_agree anonymousPrefix total named
      rcases readings.related with same | ⟨⟨malformed, strict_eq⟩, notUnderstood⟩
      · simp only [same, lenient_eq]
        exact walked.2.2
      · simp only [strict_eq, lenient_eq]
        refine WalkResult.agree_of_refusal rfl rfl walked.1 ?_
        rw [ne_eq, walked.2.1, notUnderstood tree lenient_eq]
        exact Bool.false_ne_true
    · exact (Model.walk_empty_agree anonymousPrefix total (Tree.namesNodes_ofRaw value)).2.2
  exact ⟨agree.completes, agree.refused_iff, agree.refusal, agree.same⟩

/-- A node statement without node, in a subgraph that is an endpoint of an edge. Lenient loading
keeps the edge statement and reports the one part; strict loading refuses the whole. -/
theorem load_strict_agrees_of_malformed_endpoint :
    let node (id : String) := Value.object [("type", .text "node_id"), ("id", .text id)]
    let value := Value.list [.object [("type", .text "digraph"), ("children", .list [
      .object [("type", .text "edge_stmt"), ("edge_list", .list [node "a",
        .object [("type", .text "subgraph"), ("children", .list [
          .object [("type", .text "node_stmt")], node "b"])]])]])]]
    let strict := load { isStrict := true } (.typed (.float 72.0)) (.ofRaw value)
    let lenient := load { isStrict := false } (.typed (.float 72.0)) (.ofRaw value)
    lenient.model.edges.map Edge.key = [("a", "b")] ∧
      lenient.model.diagnostics ≠ [] ∧ strict.failure.isSome = true := by
  intro node value strict lenient
  have agrees := load_strict_agrees "__anon" (Or.inr ⟨72.0, rfl⟩) value
  have reported : lenient.model.diagnostics ≠ [] := by decide
  exact ⟨by decide, reported, agrees.2.1.mpr reported⟩

end DotLang
