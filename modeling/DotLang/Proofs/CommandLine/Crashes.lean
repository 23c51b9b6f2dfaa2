import DotLang.Proofs.CommandLine.Agreement
import DotLang.Proofs.ReEncoding
import DotLang.Proofs.RestatedShape

/-!
# Failures without a report

A run meets a few failures that the program does not report itself: in its input
(`ReadCrash`), in writing what it has loaded (`WriteCrash`), in sending the text
(`SendCrash`), or because the stack is used up. `RunCrash` lists all of them, each
with its condition on what surrounds the run, on the arguments and on the model
(`runCommand_crashed_iff`).

That the list is complete rests on two facts: loading what was read from JSON
fails only by refusing it (`load_refusals`), and a model of a typed pass can be
written back unless the scale is zero (`toTree_loaded`).
-/

namespace DotLang.CommandLine

/-- Failures of the input that are not reported. -/
inductive ReadCrash (surroundings : Surroundings) (input : Option String) : Crash → Prop where
  | undecodableStdin {fault : Utf8.Fault} (noFile : input.getD "" = "")
      (decoded : surroundings.stdin = .error fault) :
      ReadCrash surroundings input (.undecodable fault)
  | undecodableFile {path : String} {bytes : List UInt8} {fault : Utf8.Fault}
      (given : input = some path) (named : path ≠ "")
      (found : surroundings.lookup path = .file bytes)
      (decoded : Utf8.decode bytes = .error fault) :
      ReadCrash surroundings input (.undecodable fault)
  | exhausted {text : String} (given : inputText surroundings input = .ok text)
      (deep : surroundings.exhausts .reading = true) : ReadCrash surroundings input .exhausted
  | oversizedInteger {text : String} {error : Json.SyntaxError}
      (given : inputText surroundings input = .ok text)
      (shallow : surroundings.exhausts .reading = false) (read : Json.read text = .error error)
      (oversized : error.fault = .oversizedInteger) :
      ReadCrash surroundings input .oversizedInteger

/-- There is a size to be typed, but the value of the scale was dropped. -/
def Arguments.LacksScale (arguments : Arguments) (model : Model) : Prop :=
  arguments.xdot = true ∧ arguments.scale = none ∧ model.hasSize = true

/-- There is a size to be written back, but the scale is zero. -/
def Arguments.HasZeroScale (arguments : Arguments) (model : Model) : Prop :=
  arguments.xdot = true ∧ (∃ scale, arguments.scale = some scale ∧ (scale == 0.0) = true) ∧
    model.StatesSize

/-- Failures to write a loaded model that are not reported. -/
inductive WriteCrash (surroundings : Surroundings) (command : Command) (arguments : Arguments)
    (model : Model) : Crash → Prop where
  | noScale (lacks : arguments.LacksScale model) :
      WriteCrash surroundings command arguments model .noScale
  | exhausted (scaled : ¬arguments.LacksScale model)
      (deep : surroundings.exhausts .answering = true) :
      WriteCrash surroundings command arguments model .exhausted
  | zeroScale (shallow : surroundings.exhausts .answering = false) (chosen : command = .write)
      (zero : arguments.HasZeroScale model) :
      WriteCrash surroundings command arguments model (.failed (.number .floatDivisionByZero))
  | noIndent (shallow : surroundings.exhausts .answering = false) (chosen : command = .write)
      (scaled : ¬arguments.LacksScale model) (divides : ¬arguments.HasZeroScale model)
      (dropped : arguments.indent = none) :
      WriteCrash surroundings command arguments model .noIndent

/-- What a run reads before it loads it. -/
def Reads (surroundings : Surroundings) (arguments : Arguments) (tree : Tree) : Prop :=
  inputText surroundings arguments.input >>= readTree surroundings arguments.strict = .ok tree

/-- What a run has loaded when it comes to write. -/
def Loads (surroundings : Surroundings) (arguments : Arguments) (model : Model) : Prop :=
  ∃ tree, Reads surroundings arguments tree ∧ surroundings.exhausts .loading = false ∧
    let result := load { isStrict := arguments.strict } arguments.geometry tree
    result.failure = none ∧ result.model = model

/-- Failures to send a text that are not reported. -/
inductive SendCrash (surroundings : Surroundings) (path text : String) : Crash → Prop where
  | unshown {fault : Utf8.Unencodable} (unset : path = "")
      (unfit : surroundings.unshown? text = some fault) :
      SendCrash surroundings path text (.unencodable fault)
  | unnameable {fault : Utf8.Unencodable} (named : path ≠ "")
      (unfit : (Path.ofText path).unencodable? = some fault) :
      SendCrash surroundings path text (.unencodable fault)
  | invalidPath (nameable : (Path.ofText path).unencodable? = none)
      (invalid : '\x00' ∈ path.toList) : SendCrash surroundings path text .invalidPath
  | unwritten {room : Option Nat} {fault : Utf8.Unencodable} (opens : Opens surroundings path room)
      (unfit : Utf8.unencodable? CodePoint.isSurrogate text = some fault) :
      SendCrash surroundings path text (.unencodable fault)

/-- Failures of a run that are not reported. -/
inductive RunCrash (surroundings : Surroundings) (command : Command) (arguments : Arguments) :
    Crash → Prop where
  | reading {crash : Crash} (crashes : ReadCrash surroundings arguments.input crash) :
      RunCrash surroundings command arguments crash
  | loading {tree : Tree} (reads : Reads surroundings arguments tree)
      (deep : surroundings.exhausts .loading = true) :
      RunCrash surroundings command arguments .exhausted
  | writing {model : Model} {crash : Crash} (loads : Loads surroundings arguments model)
      (crashes : WriteCrash surroundings command arguments model crash) :
      RunCrash surroundings command arguments crash
  | sending {text : String} {crash : Crash}
      (answered : answer surroundings command arguments = .ok text)
      (crashes : SendCrash surroundings (arguments.output.getD "") text crash) :
      RunCrash surroundings command arguments crash

variable {surroundings : Surroundings} {command : Command} {arguments : Arguments} {crash : Crash}

/-! ### Reading -/

theorem stdinText_crashed_iff :
    stdinText surroundings = .error (.crashed crash) ↔
      ∃ fault, surroundings.stdin = .error fault ∧ crash = .undecodable fault := by
  rw [stdinText]
  cases surroundings.stdin with
  | error fault => simp [eq_comm]
  | ok text => cases blank : Text.isBlankText text <;> simp [blank]

theorem fileText_crashed_iff {path : String} :
    fileText surroundings path = .error (.crashed crash) ↔
      ∃ bytes fault, surroundings.lookup path = .file bytes ∧ Utf8.decode bytes = .error fault ∧
        crash = .undecodable fault := by
  rw [fileText]
  cases surroundings.lookup path with
  | nothing => simp
  | unreadable => simp
  | file bytes => cases decoded : Utf8.decode bytes <;> simp [decoded, eq_comm]

theorem inputText_crashed_iff {input : Option String} :
    inputText surroundings input = .error (.crashed crash) ↔
      (input.getD "" = "" ∧ stdinText surroundings = .error (.crashed crash)) ∨
        ∃ path, input = some path ∧ path ≠ "" ∧
          fileText surroundings path = .error (.crashed crash) := by
  cases input with
  | none => simp [inputText]
  | some path => by_cases empty : path = "" <;> simp [inputText, empty]

theorem treeOfText_crashed_iff {isStrict : Bool} {text : String} :
    treeOfText isStrict text = .error (.crashed crash) ↔
      ∃ error, Json.read text = .error error ∧ error.fault = .oversizedInteger ∧
        crash = .oversizedInteger := by
  rw [treeOfText]
  cases Json.read text with
  | error error =>
      by_cases oversized : error.fault = .oversizedInteger
      · simp [oversized, eq_comm]
      · simp [oversized]
  | ok value =>
      cases tree_eq : Tree.ofValue isStrict value <;>
        simp [tree_eq, Except.mapError, Stop.ofFailure]

theorem readTree_crashed_iff {isStrict : Bool} {text : String} :
    readTree surroundings isStrict text = .error (.crashed crash) ↔
      (surroundings.exhausts .reading = true ∧ crash = .exhausted) ∨
        (surroundings.exhausts .reading = false ∧
          treeOfText isStrict text = .error (.crashed crash)) := by
  rw [readTree]
  cases surroundings.exhausts .reading <;> simp [eq_comm]

theorem read_crashed_iff :
    inputText surroundings arguments.input >>= readTree surroundings arguments.strict =
        .error (.crashed crash) ↔
      ReadCrash surroundings arguments.input crash := by
  rw [bind_eq_error_iff]
  simp only [inputText_crashed_iff, stdinText_crashed_iff, fileText_crashed_iff,
    readTree_crashed_iff, treeOfText_crashed_iff]
  constructor
  · rintro ((⟨noFile, fault, decoded, rfl⟩ | ⟨path, given, named, bytes, fault, found, decoded, rfl⟩)
      | ⟨text, given, ⟨deep, rfl⟩ | ⟨shallow, error, read, oversized, rfl⟩⟩)
    · exact .undecodableStdin noFile decoded
    · exact .undecodableFile given named found decoded
    · exact .exhausted given deep
    · exact .oversizedInteger given shallow read oversized
  · rintro (⟨noFile, decoded⟩ | ⟨given, named, found, decoded⟩ | ⟨given, deep⟩ |
      ⟨given, shallow, read, oversized⟩)
    · exact Or.inl (Or.inl ⟨noFile, _, decoded, rfl⟩)
    · exact Or.inl (Or.inr ⟨_, given, named, _, _, found, decoded, rfl⟩)
    · exact Or.inr ⟨_, given, Or.inl ⟨deep, rfl⟩⟩
    · exact Or.inr ⟨_, given, Or.inr ⟨shallow, _, read, oversized, rfl⟩⟩

/-! ### Loading -/

theorem exists_value_of_reads {tree : Tree} (reads : Reads surroundings arguments tree) :
    ∃ value, Tree.ofValue arguments.strict value = .ok tree := by
  obtain ⟨text, _, read⟩ := exists_of_bind_eq_ok reads
  rw [readTree] at read
  split at read
  · cases read
  rw [treeOfText] at read
  cases json : Json.read text with
  | error error =>
      rw [json] at read
      by_cases oversized : error.fault = .oversizedInteger <;> simp [oversized] at read
  | ok value =>
      refine ⟨value, ?_⟩
      cases tree_eq : Tree.ofValue arguments.strict value with
      | error malformed => simp [json, tree_eq, Except.mapError] at read
      | ok other => simpa [json, tree_eq, Except.mapError] using read

/-- Loading what was read fails only by refusing it. -/
theorem load_refusals {tree : Tree} (reads : Reads surroundings arguments tree) :
    ∀ failure ∈ (load { isStrict := arguments.strict } arguments.geometry tree).failure,
      failure.isRefusal = true := by
  obtain ⟨value, tree_eq⟩ := exists_value_of_reads reads
  rw [load_of_ofValue tree_eq]
  exact Model.walk_refusals _ (isTotal_geometry arguments) (Tree.namesNodes_of_ofValue tree_eq)

theorem ofFailure_reports {failure : Failure} (refusal : failure.isRefusal = true) :
    Stop.ofFailure failure ≠ .crashed crash := by
  cases failure with
  | malformed malformed => simp [Stop.ofFailure]
  | walk error => cases error <;> simp [Stop.ofFailure, Failure.isRefusal] at refusal ⊢
  | _ => simp [Failure.isRefusal] at refusal

theorem textOfResult_of_completes (command : Command) (arguments : Arguments)
    {result : WalkResult} (shallow : surroundings.exhausts .loading = false)
    (completes : result.failure = none) :
    (arguments.LacksScale result.model →
      textOfResult surroundings command arguments result = .error (.crashed .noScale)) ∧
    (¬arguments.LacksScale result.model →
      textOfResult surroundings command arguments result =
        commandText surroundings command arguments result.model) := by
  have lacks_iff : (arguments.xdot && arguments.scale.isNone && result.model.hasSize) = true ↔
      arguments.LacksScale result.model := by
    simp [Arguments.LacksScale, and_assoc]
  constructor
  · intro lacks
    simp [textOfResult, loadStop?, shallow, completes, lacks_iff.mpr lacks]
  · intro scaled
    simp only [textOfResult, loadStop?, shallow, Bool.false_eq_true, if_false, completes,
      if_neg (mt lacks_iff.mp scaled)]

/-! ### Writing -/

/-- A loaded model has a tree unless it has a size and the scale is zero. -/
theorem toTree_loaded {model : Model} (loads : Loads surroundings arguments model) :
    Settles .floatDivisionByZero (arguments.HasZeroScale model)
      (model.toTree arguments.geometry.encode) := by
  obtain ⟨tree, reads, _, completes, rfl⟩ := loads
  obtain ⟨value, tree_eq⟩ := exists_value_of_reads reads
  rw [load_of_ofValue tree_eq] at completes ⊢
  cases typed : arguments.xdot with
  | false =>
      have geometry_eq : arguments.geometry = .plain := by simp [Arguments.geometry, typed]
      rw [geometry_eq]
      exact .of_ok (by simp [Arguments.HasZeroScale, typed]) ⟨_, Model.toTree_plain _⟩
  | true =>
      have geometry_eq : arguments.geometry = .typed (.float (arguments.scale.getD 72.0)) := by
        rw [Arguments.geometry, typed]
        cases arguments.scale <;> rfl
      rw [geometry_eq] at completes ⊢
      have default_ne : ((72.0 : Float) == 0.0) = false := by decide
      apply (Model.toTree_typed _ _ tree completes).of_iff
      cases scale_eq : arguments.scale with
      | none => simp [Arguments.HasZeroScale, typed, scale_eq, default_ne]
      | some scale => simp [Arguments.HasZeroScale, typed, scale_eq]

/-- With an indentation a loaded model has a text wherever it has a tree. -/
theorem writtenText_crashed_iff {model : Model} (loads : Loads surroundings arguments model) :
    writtenText arguments model = .error (.crashed crash) ↔
      (arguments.HasZeroScale model ∧ crash = .failed (.number .floatDivisionByZero)) ∨
        (¬arguments.HasZeroScale model ∧ arguments.indent = none ∧ crash = .noIndent) := by
  have settles := toTree_loaded loads
  rw [writtenText]
  by_cases zero : arguments.HasZeroScale model
  · rw [settles.error zero]
    simp [zero, Stop.ofFailure, eq_comm]
  · obtain ⟨tree, made⟩ := settles.ok zero
    rw [made]
    cases indent_eq : arguments.indent with
    | none => simp [zero, eq_comm]
    | some indent =>
        obtain ⟨text, text_eq⟩ := Model.exists_text_of_toTree made indent 0 true
        simp [text_eq, zero]

theorem commandText_crashed_iff {model : Model} :
    commandText surroundings command arguments model = .error (.crashed crash) ↔
      (surroundings.exhausts .answering = true ∧ crash = .exhausted) ∨
        (surroundings.exhausts .answering = false ∧ command = .write ∧
          writtenText arguments model = .error (.crashed crash)) := by
  cases deep : surroundings.exhausts .answering with
  | true => simp [commandText, deep, eq_comm]
  | false => cases command <;> simp [commandText, deep]

theorem writeCrash_iff_of_lacks {model : Model} (lacks : arguments.LacksScale model) :
    WriteCrash surroundings command arguments model crash ↔ crash = .noScale := by
  constructor
  · rintro (_ | ⟨scaled, _⟩ | ⟨_, _, _, ⟨scale, scale_eq, _⟩, _⟩ | ⟨_, _, scaled⟩)
    · rfl
    · exact absurd lacks scaled
    · simp [lacks.2.1] at scale_eq
    · exact absurd lacks scaled
  · rintro rfl
    exact .noScale lacks

theorem writeCrash_iff_of_scaled {model : Model} (loads : Loads surroundings arguments model)
    (scaled : ¬arguments.LacksScale model) :
    WriteCrash surroundings command arguments model crash ↔
      commandText surroundings command arguments model = .error (.crashed crash) := by
  rw [commandText_crashed_iff, writtenText_crashed_iff loads]
  constructor
  · rintro (lacks | ⟨_, deep⟩ | ⟨shallow, chosen, zero⟩ | ⟨shallow, chosen, _, divides, dropped⟩)
    · exact absurd lacks scaled
    · exact Or.inl ⟨deep, rfl⟩
    · exact Or.inr ⟨shallow, chosen, Or.inl ⟨zero, rfl⟩⟩
    · exact Or.inr ⟨shallow, chosen, Or.inr ⟨divides, dropped, rfl⟩⟩
  · rintro (⟨deep, rfl⟩ | ⟨shallow, chosen, ⟨zero, rfl⟩ | ⟨divides, dropped, rfl⟩⟩)
    · exact .exhausted scaled deep
    · exact .zeroScale shallow chosen zero
    · exact .noIndent shallow chosen scaled divides dropped

theorem textOfResult_crashed_iff {tree : Tree} (reads : Reads surroundings arguments tree) :
    let result := load { isStrict := arguments.strict } arguments.geometry tree
    textOfResult surroundings command arguments result = .error (.crashed crash) ↔
      (surroundings.exhausts .loading = true ∧ crash = .exhausted) ∨
        (surroundings.exhausts .loading = false ∧ result.failure = none ∧
          WriteCrash surroundings command arguments result.model crash) := by
  intro result
  cases deep : surroundings.exhausts .loading with
  | true => simp [textOfResult, loadStop?, deep, eq_comm]
  | false =>
      cases stopped : result.failure with
      | some failure =>
          have refused : Stop.ofFailure failure ≠ .crashed crash :=
            ofFailure_reports (load_refusals reads failure stopped)
          simp [textOfResult, loadStop?, deep, stopped, refused]
      | none =>
          have text_eq := textOfResult_of_completes command arguments deep stopped
          have loads : Loads surroundings arguments result.model :=
            ⟨tree, reads, deep, stopped, rfl⟩
          by_cases lacks : arguments.LacksScale result.model
          · rw [text_eq.1 lacks, writeCrash_iff_of_lacks lacks]
            simp [eq_comm]
          · rw [text_eq.2 lacks, writeCrash_iff_of_scaled loads lacks]
            simp

theorem answer_crashed_iff :
    answer surroundings command arguments = .error (.crashed crash) ↔
      ReadCrash surroundings arguments.input crash ∨
        (∃ tree, Reads surroundings arguments tree ∧ surroundings.exhausts .loading = true ∧
          crash = .exhausted) ∨
        ∃ model, Loads surroundings arguments model ∧
          WriteCrash surroundings command arguments model crash := by
  rw [answer, bind_eq_error_iff, read_crashed_iff]
  apply or_congr_right
  constructor
  · rintro ⟨tree, reads, failed⟩
    rcases (textOfResult_crashed_iff reads).mp failed with
      ⟨deep, rfl⟩ | ⟨shallow, completes, crashes⟩
    · exact Or.inl ⟨tree, reads, deep, rfl⟩
    · exact Or.inr ⟨_, ⟨tree, reads, shallow, completes, rfl⟩, crashes⟩
  · rintro (⟨tree, reads, deep, rfl⟩ | ⟨_, ⟨tree, reads, shallow, completes, rfl⟩, crashes⟩)
    · exact ⟨tree, reads, (textOfResult_crashed_iff reads).mpr (Or.inl ⟨deep, rfl⟩)⟩
    · exact ⟨tree, reads,
        (textOfResult_crashed_iff reads).mpr (Or.inr ⟨shallow, completes, crashes⟩)⟩

/-! ### Sending -/

theorem ofStop_crashed_iff {log : String} {stop : Stop} :
    (Outcome.ofStop log stop).exit = .crashed crash ↔ stop = .crashed crash := by
  cases stop <;> simp [Outcome.ofStop]

theorem pathCrash?_eq_some_iff {path : String} :
    pathCrash? path = some crash ↔
      (∃ fault, (Path.ofText path).unencodable? = some fault ∧ crash = .unencodable fault) ∨
        ((Path.ofText path).unencodable? = none ∧ '\x00' ∈ path.toList ∧
          crash = .invalidPath) := by
  rw [pathCrash?, Option.or_eq_some_iff]
  simp [@eq_comm _ crash]

theorem emit_crashed_iff {output : Option String} {log text : String} :
    (emit surroundings output log text).exit = .crashed crash ↔
      SendCrash surroundings (output.getD "") text crash := by
  constructor
  · intro crashes
    have sending := emit_sending surroundings output log text
    generalize emit surroundings output log text = outcome at sending crashes
    cases sending with
    | shown | saved => cases crashes
    | refused | cut => cases crashes
    | unshown unset unfit =>
        cases crashes
        exact .unshown unset unfit
    | emptied opens unfit =>
        cases crashes
        exact .unwritten opens unfit
    | unusable named unusable =>
        cases crashes
        rcases pathCrash?_eq_some_iff.mp unusable with
          ⟨fault, unfit, rfl⟩ | ⟨nameable, invalid, rfl⟩
        · exact .unnameable named unfit
        · exact .invalidPath nameable invalid
  · rintro (⟨unset, unfit⟩ | ⟨named, unfit⟩ | ⟨nameable, invalid⟩ | ⟨opens, unfit⟩)
    · simp [emit, unset, sendToStdout, unfit, ofStop_crashed_iff]
    · have crashes := pathCrash?_eq_some_iff.mpr (Or.inl ⟨_, unfit, rfl⟩)
      simp [emit, named, crashes, ofStop_crashed_iff]
    · have crashes := pathCrash?_eq_some_iff.mpr (Or.inr ⟨nameable, invalid, rfl⟩)
      have named : output.getD "" ≠ "" := by
        intro unset
        rw [unset] at invalid
        cases invalid
      simp [emit, named, crashes, ofStop_crashed_iff]
    · simp [emit, opens.named, opens.usable, sendToFile, opens.opening_eq, unfit, Outcome.ofStop]

theorem runCrash_iff :
    RunCrash surroundings command arguments crash ↔
      answer surroundings command arguments = .error (.crashed crash) ∨
        ∃ text, answer surroundings command arguments = .ok text ∧
          SendCrash surroundings (arguments.output.getD "") text crash := by
  rw [answer_crashed_iff]
  constructor
  · rintro (reading | ⟨reads, deep⟩ | ⟨loads, writing⟩ | ⟨answered, sending⟩)
    · exact Or.inl (Or.inl reading)
    · exact Or.inl (Or.inr (Or.inl ⟨_, reads, deep, rfl⟩))
    · exact Or.inl (Or.inr (Or.inr ⟨_, loads, writing⟩))
    · exact Or.inr ⟨_, answered, sending⟩
  · rintro ((reading | ⟨tree, reads, deep, rfl⟩ | ⟨model, loads, writing⟩) |
      ⟨text, answered, sending⟩)
    · exact .reading reading
    · exact .loading reads deep
    · exact .writing loads writing
    · exact .sending answered sending

theorem runCommand_crashed_iff :
    (runCommand surroundings command arguments).exit = .crashed crash ↔
      RunCrash surroundings command arguments crash := by
  obtain ⟨lines, run_eq⟩ := runCommand_eq surroundings command arguments
  rw [run_eq, runCrash_iff]
  cases answered : answer surroundings command arguments with
  | error stop => simp [Outcome.ofAnswer, ofStop_crashed_iff]
  | ok text => simp [Outcome.ofAnswer, emit_crashed_iff]

end DotLang.CommandLine
