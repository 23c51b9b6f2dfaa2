import DotLang.Proofs.CommandLine.Sending
import DotLang.Proofs.Json.Blank
import DotLang.Proofs.Json.Oversized
import DotLang.Proofs.Routes

/-!
# The program and the library

The program reads its input as a tagged form before it loads it, and the library
loads plain data as it stands. The two routes agree (`load_read_agrees`): for all
data the same is loaded, up to the wording of diagnostics, or something is
refused on both. So what the program shows is the text that converting the data
gives. The other way round, the program shows that text if its input can be read
and standard output can hold the text; both can fail where converting does not
(`convert_not_shown`).
-/

namespace DotLang

namespace Model

variable {first second : Model} {encode : Encoder}

mutual

theorem body_congr
    (own : ∀ subgraph, ownStmts encode first subgraph = ownStmts encode second subgraph) :
    ∀ hierarchy : Hierarchy, body encode first hierarchy = body encode second hierarchy
  | .scope top children => by rw [body, body, subgraphStmts_congr own children, own]

theorem subgraphStmts_congr
    (own : ∀ subgraph, ownStmts encode first subgraph = ownStmts encode second subgraph) :
    ∀ hierarchies : List Hierarchy,
      subgraphStmts encode first hierarchies = subgraphStmts encode second hierarchies
  | [] => rfl
  | hierarchy :: rest => by
      rw [subgraphStmts, subgraphStmts, body_congr own hierarchy, subgraphStmts_congr own rest]

end

/-- The text of a model does not depend on its diagnostics. -/
theorem toText_of_same (same : { first with diagnostics := second.diagnostics } = second)
    (geometry : Geometry) (indent : String) :
    first.toText geometry indent = second.toText geometry indent := by
  let changed : Model := { first with diagnostics := second.diagnostics }
  have root_eq : rootBody geometry.encode first = rootBody geometry.encode changed := by
    have below : changed.root.bind changed.graphs.hierarchy? =
        first.root.bind first.graphs.hierarchy? := rfl
    rw [rootBody, rootBody, below]
    cases first.root.bind first.graphs.hierarchy? with
    | none => rfl
    | some hierarchy =>
        have own : ∀ subgraph, ownStmts geometry.encode first subgraph =
            ownStmts geometry.encode changed subgraph := fun _ => rfl
        exact body_congr own hierarchy
  have tree_eq : first.toTree geometry.encode = changed.toTree geometry.encode := by
    rw [toTree, toTree, root_eq]
    rfl
  rw [← same, toText, toText, tree_eq]

end Model

namespace CommandLine

variable {surroundings : Surroundings} {command : Command} {arguments : Arguments}

theorem isTotal_geometry (arguments : Arguments) : arguments.geometry.IsTotal := by
  rw [Arguments.geometry]
  split
  · cases arguments.scale with
    | none => exact Geometry.isTotal_of_float 72.0
    | some scale => exact Geometry.isTotal_of_float scale
  · exact Geometry.isTotal_plain

theorem inputText_filled {input : Option String} {document : String}
    (given : surroundings.stdin = .ok document) (filled : Text.isBlankText document = false)
    (noFile : input.getD "" = "") : inputText surroundings input = .ok document := by
  have stdinText_eq : stdinText surroundings = .ok document := by
    simp [stdinText, given, filled]
  cases input with
  | none => exact stdinText_eq
  | some path =>
      have path_eq : path = "" := noFile
      subst path_eq
      exact stdinText_eq

theorem inputText_stdin {input : Option String} {document : String} {value : Value}
    (given : surroundings.stdin = .ok document) (json : Json.read document = .ok value)
    (noFile : input.getD "" = "") : inputText surroundings input = .ok document := by
  have filled : Text.isBlankText document = false := by
    rw [← Bool.not_eq_true]
    intro blank
    rcases Json.read_blank blank with ⟨error, error_eq⟩
    cases error_eq.symm.trans json
  exact inputText_filled given filled noFile

theorem treeOfText_of_read {isStrict : Bool} {text : String} {value : Value} {tree : Tree}
    (json : Json.read text = .ok value) (read : Tree.ofValue isStrict value = .ok tree) :
    treeOfText isStrict text = .ok tree := by
  simp only [treeOfText, json, read]
  rfl

/-- Data on standard input is read as a tagged form first. -/
theorem answer_stdin {document : String} {value : Value}
    (unexhausted : surroundings.exhaustion = none) (given : surroundings.stdin = .ok document)
    (json : Json.read document = .ok value) (noFile : arguments.input.getD "" = "") :
    answer surroundings command arguments = textOfResult surroundings command arguments
      (loadRead { isStrict := arguments.strict } arguments.geometry value) := by
  rw [answer, inputText_stdin given json noFile]
  change readTree surroundings arguments.strict document >>= _ = _
  rw [readTree_eq (exhausts_eq_false unexhausted .reading)]
  cases read : Tree.ofValue arguments.strict value with
  | error malformed =>
      simp only [treeOfText, json, textOfResult, loadStop?, loadRead, read,
        exhausts_eq_false unexhausted]
      rfl
  | ok tree =>
      simp only [treeOfText_of_read json read, loadRead, read]
      rfl

/-- An integer with too many digits ends a run without a report. -/
theorem answer_oversized (command : Command) (arguments : Arguments) {document : String}
    {position : Nat} (unexhausted : surroundings.exhaustion = none)
    (given : inputText surroundings arguments.input = .ok document)
    (refused : Json.read document = .error ⟨.oversizedInteger, position⟩) :
    answer surroundings command arguments = .error (.crashed .oversizedInteger) := by
  rw [answer, given]
  change readTree surroundings arguments.strict document >>= _ = _
  rw [readTree_eq (exhausts_eq_false unexhausted .reading), treeOfText, refused]
  rfl

/-- With a scale at hand and enough of the stack, nothing but a failure ends loading. -/
theorem loadStop?_eq (unexhausted : surroundings.exhaustion = none)
    (scaled : arguments.xdot = true → arguments.scale.isSome = true) (result : WalkResult) :
    loadStop? surroundings arguments result = result.failure.map Stop.ofFailure := by
  rw [loadStop?, exhausts_eq_false unexhausted, if_neg Bool.false_ne_true]
  cases result.failure with
  | some failure => rfl
  | none =>
      have atHand : (arguments.xdot && arguments.scale.isNone && result.model.hasSize) = false := by
        cases xdot : arguments.xdot with
        | false => rfl
        | true =>
            rcases Option.isSome_iff_exists.mp (scaled xdot) with ⟨scale, scale_eq⟩
            simp [scale_eq]
      dsimp only
      rw [atHand]
      rfl

theorem writtenText_eq {indent : String} (indented : arguments.indent = some indent)
    (model : Model) : writtenText arguments model =
      (do return (← model.toText arguments.geometry indent) ++ "\n").mapError Stop.ofFailure := by
  rw [writtenText, indented, Model.toText]
  cases model.toTree arguments.geometry.encode with
  | error fault => rfl
  | ok tree =>
      dsimp only
      cases tree.toText indent 0 true <;> rfl

/-- The program writes the text that converting gives. -/
theorem answer_write_iff {document : String} {value : Value} {indent : String}
    (unexhausted : surroundings.exhaustion = none) (given : surroundings.stdin = .ok document)
    (json : Json.read document = .ok value) (noFile : arguments.input.getD "" = "")
    (indented : arguments.indent = some indent)
    (scaled : arguments.xdot = true → arguments.scale.isSome = true) (text : String) :
    answer surroundings .write arguments = .ok text ↔
      convert { isStrict := arguments.strict } arguments.geometry indent (.ofRaw value) =
        .ok text := by
  have alike : (load { isStrict := arguments.strict } arguments.geometry (.ofRaw value)).Alike
      (loadRead { isStrict := arguments.strict } arguments.geometry value) :=
    load_alike (isTotal_geometry arguments) value
  rw [answer_stdin unexhausted given json noFile, textOfResult, loadStop?_eq unexhausted scaled,
    convert]
  cases alike with
  | refused first_eq second_eq first_refusal second_refusal => simp [first_eq, second_eq]
  | completed first_eq second_eq same count =>
      simp only [first_eq, second_eq, Option.map_none, commandText,
        exhausts_eq_false unexhausted, Bool.false_eq_true, if_false, writtenText_eq indented,
        Model.toText_of_same same]
      cases Model.toText _ _ _ <;> simp [Except.mapError]

end CommandLine

open CommandLine in
/-- Loading plain data as it stands and reading it first give the same model, up to the wording of
the diagnostics, or refuse something on both routes. So what the program shows is the text that
converting the data gives, and it shows this text wherever standard output can hold it. -/
theorem load_read_agrees :
    (∀ (options : WalkOptions) (geometry : Geometry) (value : Value),
      (geometry = .plain ∨ ∃ scale : Float, geometry = .typed (.float scale)) →
      (load options geometry (.ofRaw value)).Alike (loadRead options geometry value) ∧
        ((Tree.ofRaw value).isTaggedForm = true →
          (load options geometry (.ofRaw value)).model.diagnostics =
            (loadRead options geometry value).model.diagnostics)) ∧
    ∀ (surroundings : Surroundings) (argv : List String) (arguments : Arguments)
      (document indent : String) (value : Value),
      Arguments.read surroundings.rules argv = .ok arguments → arguments.command = some .write →
      arguments.input.getD "" = "" → arguments.indent = some indent →
      (arguments.xdot = true → arguments.scale.isSome = true) →
      surroundings.stdin = .ok document → Json.read document = .ok value →
      let converted := convert { isStrict := arguments.strict } arguments.geometry indent
        (.ofRaw value)
      let outcome := run surroundings argv
      (outcome.exit = .code 0 → outcome.stdout ≠ "" → converted = .ok outcome.stdout) ∧
        ∀ text, converted = .ok text → surroundings.exhaustion = none →
          surroundings.unshown? text = none → arguments.output.getD "" = "" →
          outcome.exit = .code 0 ∧ outcome.stdout = text := by
  constructor
  · intro options geometry value isDouble
    have total : geometry.IsTotal := by
      rcases isDouble with rfl | ⟨scale, rfl⟩
      · exact Geometry.isTotal_plain
      · exact Geometry.isTotal_of_float scale
    refine ⟨load_alike total value, ?_⟩
    intro tagged
    rw [load_eq_loadRead tagged]
  · intro surroundings argv arguments document indent value read chosen noFile indented scaled
      given json converted outcome
    have answer_iff (unexhausted : surroundings.exhaustion = none) :=
      answer_write_iff unexhausted given json noFile indented scaled
    rcases runCommand_eq surroundings .write arguments with ⟨lines, run_eq⟩
    simp only [outcome, run_exit, run_stdout, outcomeOf_of_read read chosen, run_eq]
    constructor
    · intro _ shown
      cases answered : answer surroundings .write arguments with
      | error stop =>
          rw [answered] at shown
          exact absurd (ofStop_silent _ stop).1 shown
      | ok written =>
          rw [answered, Outcome.ofAnswer] at shown
          have written_eq : converted = .ok written :=
            (answer_iff (exhaustion_eq_none_of_answered answered) written).mp answered
          rcases (emit_sending surroundings arguments.output _ written).stdout_eq with
            silent | text_eq
          · exact absurd silent shown
          · exact written_eq.trans (congrArg Except.ok text_eq.symm)
    · intro text converted_eq unexhausted fits unset
      rw [(answer_iff unexhausted text).mpr converted_eq, Outcome.ofAnswer, emit_shown unset fits]
      exact ⟨rfl, rfl⟩

open CommandLine in
/-- A list that is no statement is skipped with another diagnostic on either route, and a graph with
such a list in it is written. -/
theorem load_read_agrees_of_nested_list :
    let nested := Value.list [.list [.text "a"], .text "b"]
    let graph := Value.object [("type", .text "graph"), ("children", nested)]
    let document := "\x7b\"type\": \"graph\", \"children\": [[\"a\"], \"b\"]\x7d"
    let surroundings : Surroundings :=
      { stdin := .ok document, lookup := fun _ => .nothing, opening := fun _ => .refused }
    (load {} (.typed (.float 72.0)) (.ofRaw nested)).model.diagnostics ≠
      (loadRead {} (.typed (.float 72.0)) nested).model.diagnostics ∧
    (load {} (.typed (.float 72.0)) (.ofRaw nested)).Alike
      (loadRead {} (.typed (.float 72.0)) nested) ∧
    convert {} .plain "  " (.ofRaw graph) = .ok "graph \x7b\n\x7d\n" ∧
    (run surroundings ["write"]).stdout = "graph \x7b\n\x7d\n" := by
  intro nested graph document surroundings
  have routes := load_read_agrees.1 {} (.typed (.float 72.0)) nested (Or.inr ⟨72.0, rfl⟩)
  have converted : convert {} .plain "  " (.ofRaw graph) = .ok "graph \x7b\n\x7d\n" := rfl
  have json : Json.read document = .ok graph := by
    simp only [document, graph, nested]
    rfl
  have shown := load_read_agrees.2 surroundings ["write"] { command := some .write } document "  "
    graph rfl rfl rfl rfl (by decide) rfl json
  exact ⟨by decide, routes.1, converted, (shown.2 _ converted rfl rfl rfl).2⟩

/-- A graph whose name is a lone surrogate. -/
def loneName : Value :=
  .object [("type", .text "digraph"), ("id", .text (Text.ofCodePoints [.surrogate 0]))]

theorem read_loneName : Json.read (Json.write .compact loneName) = .ok loneName := by
  rfl

theorem convert_loneName : ∃ text fault, convert {} .plain "  " (.ofRaw loneName) = .ok text ∧
    Utf8.unencodable? CodePoint.isSurrogate text = some fault :=
  ⟨"digraph \"" ++ Text.ofCodePoints [.surrogate 0] ++ "\" \x7b\n\x7d\n",
    ⟨9, 1, .surrogate 0⟩, rfl, rfl⟩

open CommandLine in
/-- Converting gives a text for a name that is a lone surrogate and for an integer of any size. But
standard output cannot hold the one, and the other is not read from its JSON document. -/
theorem convert_not_shown :
    let large := Value.int (tenPow 4300)
    let surroundings (value : Value) : Surroundings :=
      { stdin := .ok (Json.write .compact value)
        lookup := fun _ => .nothing
        opening := fun _ => .refused }
    (∃ text, convert {} .plain "  " (.ofRaw loneName) = .ok text) ∧
    (∃ fault, (run (surroundings loneName) ["write"]).exit = .crashed (.unencodable fault)) ∧
    (∃ text, convert {} .plain "  " (.ofRaw large) = .ok text) ∧
    (run (surroundings large) ["write"]).exit = .crashed .oversizedInteger := by
  intro large surroundings
  let arguments : Arguments := { command := some .write }
  have large_converted (number : Int) :
      convert {} .plain "  " (.ofRaw (.int number)) = .ok "digraph \x7b\n\x7d\n" := rfl
  rcases convert_loneName with ⟨text, fault, converted, unfit⟩
  refine ⟨⟨text, converted⟩, ⟨fault, ?_⟩, ⟨_, large_converted _⟩, ?_⟩
  · have answered : answer (surroundings loneName) .write arguments = .ok text :=
      (answer_write_iff rfl rfl read_loneName rfl rfl (by decide) text).mpr converted
    rcases run_of_answer ["write"] rfl rfl answered with ⟨log, run_eq⟩
    rw [run_eq]
    simp [Outcome.ofAnswer, emit, sendToStdout, Surroundings.unshown?, surroundings, unfit,
      Outcome.ofStop, Outcome.encoded]
  · have filled (exponent : Nat) :
        Text.isBlankText (Json.write .compact (.int (tenPow exponent))) = false := by
      rw [Json.write_tenPow, Text.isBlankText, String.toList_ofList, List.all_cons]
      rfl
    have given : inputText (surroundings large) none = .ok (Json.write .compact large) :=
      inputText_filled rfl (filled _) rfl
    have answered := answer_oversized .write arguments rfl given
      (Json.read_write_tenPow (Nat.le_refl _))
    rcases run_of_answer ["write"] rfl rfl answered with ⟨log, run_eq⟩
    rw [run_eq]
    rfl

end DotLang
