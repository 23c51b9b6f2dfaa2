import DotLang.Proofs.CommandLine.Crashes
import DotLang.Proofs.CommandLine.Values

/-!
# How a run ends

A run ends with an exit code or with the help that was asked for, unless it meets
one of the failures that are not reported. Any other failure is reported, and the
exit code zero means that the answer was delivered (`run_crashes_or_reports`).
-/

namespace DotLang.CommandLine

variable {surroundings : Surroundings} {command : Command} {arguments : Arguments} {crash : Crash}

/-! ### Exit codes -/

/-- A stage that stops a run does so with a failure. -/
def StopsFail {α : Type} (stage : Except Stop α) : Prop :=
  ∀ stop, stage = .error stop → stop.Fails

namespace StopsFail

theorem ok {α : Type} (made : α) : StopsFail (.ok made) :=
  fun _ => nofun

theorem error {α : Type} {stop : Stop} (fails : stop.Fails) :
    StopsFail (.error stop : Except Stop α) := by
  rintro _ ⟨⟩
  exact fails

theorem bind {α β : Type} {first : Except Stop α} {next : α → Except Stop β}
    (before : StopsFail first) (after : ∀ part, StopsFail (next part)) :
    StopsFail (first >>= next) := by
  intro stop stopped
  obtain stopped | ⟨part, _, stopped⟩ := bind_eq_error_iff.mp stopped
  · exact before stop stopped
  · exact after part stop stopped

theorem ofFailure (failure : Failure) : (Stop.ofFailure failure).Fails := by
  cases failure with
  | walk error => cases error <;> simp [Stop.ofFailure, Stop.Fails, treeCode]
  | _ => simp [Stop.ofFailure, Stop.Fails, treeCode]

theorem inputText (surroundings : Surroundings) (input : Option String) :
    StopsFail (inputText surroundings input) := by
  have noInput (message : String) : (Stop.reported message inputCode).Fails := by
    simp [Stop.Fails, inputCode]
  have stdin : StopsFail (stdinText surroundings) := by
    rw [stdinText]
    split
    · split
      · exact error (noInput _)
      · exact ok _
    · exact error trivial
  have file (path : String) : StopsFail (fileText surroundings path) := by
    rw [fileText]
    split
    · exact error (noInput _)
    · exact error (noInput _)
    · split
      · exact ok _
      · exact error trivial
  cases input with
  | none => exact stdin
  | some path =>
      rw [CommandLine.inputText]
      split
      · exact stdin
      · exact file path

theorem treeOfText (isStrict : Bool) (text : String) : StopsFail (treeOfText isStrict text) := by
  rw [CommandLine.treeOfText]
  cases Json.read text with
  | error error' =>
      dsimp only
      split
      · exact error trivial
      · exact error (by simp [Stop.Fails, inputCode])
  | ok value =>
      dsimp only
      cases Tree.ofValue isStrict value with
      | error malformed => exact error (ofFailure _)
      | ok tree => exact ok tree

theorem readTree (surroundings : Surroundings) (isStrict : Bool) (text : String) :
    StopsFail (readTree surroundings isStrict text) := by
  rw [CommandLine.readTree]
  split
  · exact error trivial
  · exact treeOfText isStrict text

theorem writtenText (arguments : Arguments) (model : Model) :
    StopsFail (writtenText arguments model) := by
  rw [CommandLine.writtenText]
  split
  · exact error (ofFailure _)
  · exact error trivial
  · split
    · exact error (ofFailure _)
    · exact ok _

theorem commandText (surroundings : Surroundings) (command : Command) (arguments : Arguments)
    (model : Model) : StopsFail (commandText surroundings command arguments model) := by
  unfold CommandLine.commandText
  split
  · exact error trivial
  · cases command with
    | write => exact writtenText arguments model
    | model => exact ok _

theorem textOfResult (surroundings : Surroundings) (command : Command) (arguments : Arguments)
    (result : WalkResult) : StopsFail (textOfResult surroundings command arguments result) := by
  rw [CommandLine.textOfResult]
  split
  · next stop stopped =>
      rw [loadStop?] at stopped
      split at stopped
      · cases stopped
        exact error trivial
      · split at stopped
        · cases stopped
          exact error (ofFailure _)
        · split at stopped <;> cases stopped
          exact error trivial
  · exact commandText surroundings command arguments result.model

theorem answer (surroundings : Surroundings) (command : Command) (arguments : Arguments) :
    StopsFail (answer surroundings command arguments) :=
  ((inputText surroundings arguments.input).bind (readTree surroundings arguments.strict)).bind
    fun _ => textOfResult surroundings command arguments _

end StopsFail

/-- Nothing is shown but a log and, behind it, a line about an error. -/
def Outcome.Reports (surroundings : Surroundings) (outcome : Outcome) : Prop :=
  outcome.stdout = "" ∧ ∃ verbose lines message, outcome.stderr =
    surroundings.stderrText (logText verbose lines ++ "error: " ++ message ++ "\n")

theorem ofStop_code {verbose : Bool} {lines : List LogLine} {stop : Stop} (fails : stop.Fails)
    {code : Nat} (ended : (Outcome.ofStop (logText verbose lines) stop).exit = .code code) :
    code ≠ 0 ∧ ∀ file, Outcome.Reports surroundings
      ({ Outcome.ofStop (logText verbose lines) stop with file }.encoded surroundings) := by
  cases stop with
  | reported message other =>
      cases ended
      exact ⟨fails, fun _ => ⟨rfl, verbose, lines, message, rfl⟩⟩
  | crashed crash => cases ended

theorem unwritten_fails (path : String) : (Stop.unwritten path).Fails := by
  simp [Stop.unwritten, Stop.Fails, outputCode]

theorem emit_code {output : Option String} {verbose : Bool} {lines : List LogLine} {text : String}
    {code : Nat}
    (ended : (emit surroundings output (logText verbose lines) text).exit = .code code) :
    let outcome := (emit surroundings output (logText verbose lines) text).encoded surroundings
    (code = 0 ∧ outcome.Delivers (output.getD "") text) ∨
      (code ≠ 0 ∧ outcome.Reports surroundings) := by
  have sending := emit_sending surroundings output (logText verbose lines) text
  generalize emit surroundings output (logText verbose lines) text = outcome at sending ended ⊢
  cases sending with
  | shown unset =>
      cases ended
      exact Or.inl ⟨rfl, .shown unset⟩
  | saved opens =>
      cases ended
      exact Or.inl ⟨rfl, .saved opens.named⟩
  | refused =>
      obtain ⟨failed, reports⟩ := ofStop_code (unwritten_fails _) ended
      exact Or.inr ⟨failed, reports none⟩
  | cut =>
      obtain ⟨failed, reports⟩ := ofStop_code (unwritten_fails _) ended
      exact Or.inr ⟨failed, reports _⟩
  | unshown | unusable | emptied => cases ended

/-- A run either delivers its answer and ends with zero, or reports why it does not. -/
theorem runCommand_code {code : Nat}
    (ended : (runCommand surroundings command arguments).exit = .code code) :
    let outcome := (runCommand surroundings command arguments).encoded surroundings
    (code = 0 ∧ ∃ text, answer surroundings command arguments = .ok text ∧
      outcome.Delivers (arguments.output.getD "") text) ∨
    (code ≠ 0 ∧ outcome.Reports surroundings) := by
  obtain ⟨lines, run_eq⟩ := runCommand_eq surroundings command arguments
  rw [run_eq] at ended ⊢
  cases answered : answer surroundings command arguments with
  | error stop =>
      rw [answered] at ended
      obtain ⟨failed, reports⟩ := ofStop_code (StopsFail.answer _ _ _ stop answered) ended
      exact Or.inr ⟨failed, reports (Outcome.ofStop _ stop).file⟩
  | ok text =>
      rw [answered, Outcome.ofAnswer] at ended
      rw [Outcome.ofAnswer]
      refine (emit_code ended).imp_left ?_
      rintro ⟨zero, delivers⟩
      exact ⟨zero, text, rfl, delivers⟩

/-- A run never ends with help once its arguments are read. -/
theorem runCommand_exit_ne_help : (runCommand surroundings command arguments).exit ≠ .help := by
  intro ended
  obtain ⟨lines, run_eq⟩ := runCommand_eq surroundings command arguments
  rw [run_eq] at ended
  cases answered : answer surroundings command arguments with
  | error stop =>
      rw [answered] at ended
      cases stop <;> cases ended
  | ok text =>
      rw [answered, Outcome.ofAnswer] at ended
      have sending := emit_sending surroundings arguments.output
        (logText arguments.verbose lines) text
      generalize emit surroundings arguments.output (logText arguments.verbose lines) text =
        outcome at sending ended
      cases sending <;> cases ended

/-- Arguments that cannot be used end a run with a report, unless they ask for help. -/
theorem ofArgumentError_ends (surroundings : Surroundings) (error : ArgumentError) :
    (∃ topic, error = .help topic ∧
      Outcome.ofArgumentError error = { exit := .help, stdout := helpText topic }) ∨
    ((∀ topic, error ≠ .help topic) ∧ (Outcome.ofArgumentError error).exit = .code usageCode ∧
      ((Outcome.ofArgumentError error).encoded surroundings).Reports surroundings) := by
  have noLog (message : String) : ∃ verbose lines other,
      surroundings.stderrText ("" ++ "error: " ++ message ++ "\n") =
        surroundings.stderrText (logText verbose lines ++ "error: " ++ other ++ "\n") :=
    ⟨false, [], message, rfl⟩
  cases error with
  | help topic => exact Or.inl ⟨topic, rfl, rfl⟩
  | _ => exact Or.inr ⟨nofun, rfl, rfl, noLog _⟩

theorem run_crashed_iff {argv : List String} :
    (run surroundings argv).exit = .crashed crash ↔
      ∃ arguments command, Arguments.read surroundings.rules argv = .ok arguments ∧
        arguments.command = some command ∧ RunCrash surroundings command arguments crash := by
  rw [run_exit]
  rcases outcomeOf_cases surroundings argv with
    ⟨arguments, command, read, chosen, outcome_eq⟩ | ⟨error, outcome_eq, _, uncommanded⟩
  · simp [outcome_eq, runCommand_crashed_iff, read, chosen]
  · rw [outcome_eq]
    constructor
    · intro crashes
      rcases ofArgumentError_ends surroundings error with
        ⟨topic, rfl, _⟩ | ⟨_, ended, _⟩
      · cases crashes
      · cases ended.symm.trans crashes
    · rintro ⟨arguments, command, read, chosen, _⟩
      cases (uncommanded arguments read).symm.trans chosen

/-- By the late rules no value is missing. -/
theorem not_runCrash_of_valued (valued : arguments.Valued) :
    ¬RunCrash surroundings command arguments .noScale ∧
      ¬RunCrash surroundings command arguments .noIndent := by
  constructor
  · intro crashes
    cases crashes with
    | reading crashes => cases crashes
    | sending _ crashes => cases crashes
    | writing _ crashes =>
        cases crashes with
        | noScale lacks =>
            have given := valued.scale
            simp [lacks.2.1] at given
  · intro crashes
    cases crashes with
    | reading crashes => cases crashes
    | sending _ crashes => cases crashes
    | writing _ crashes =>
        cases crashes with
        | noIndent _ _ _ _ dropped =>
            have given := valued.indent
            simp [dropped] at given

theorem run_help_iff {argv : List String} :
    (run surroundings argv).exit = .help ↔
      ∃ topic, Arguments.read surroundings.rules argv = .error (.help topic) := by
  rw [run_exit]
  rcases outcomeOf_cases surroundings argv with
    ⟨arguments, command, read, chosen, outcome_eq⟩ | ⟨error, outcome_eq, help_iff, _⟩
  · simp [outcome_eq, runCommand_exit_ne_help, read]
  · simp only [outcome_eq, help_iff]
    rcases ofArgumentError_ends surroundings error with
      ⟨topic, rfl, _⟩ | ⟨notHelp, ended, _⟩
    · exact ⟨fun _ => ⟨topic, rfl⟩, fun _ => rfl⟩
    · simp [ended, notHelp]

theorem run_code {argv : List String} {code : Nat}
    (ended : (run surroundings argv).exit = .code code) :
    (code = 0 ∧ ∃ path text, Answers surroundings argv path text ∧
      (run surroundings argv).Delivers path text) ∨
    (code ≠ 0 ∧ (run surroundings argv).Reports surroundings) := by
  rw [run] at ended ⊢
  rcases outcomeOf_cases surroundings argv with
    ⟨arguments, command, read, chosen, outcome_eq⟩ | ⟨error, outcome_eq, _⟩
  · rw [outcome_eq] at ended ⊢
    refine (runCommand_code ended).imp_left ?_
    rintro ⟨zero, text, answered, delivers⟩
    exact ⟨zero, _, text, ⟨arguments, command, read, chosen, answered, rfl⟩, delivers⟩
  · rw [outcome_eq] at ended ⊢
    rcases ofArgumentError_ends surroundings error with ⟨topic, rfl, _⟩ | ⟨_, usage, reports⟩
    · cases ended
    · cases usage.symm.trans ended
      exact Or.inr ⟨by decide, reports⟩

/-- A run crashes exactly on the listed failures, and by the late rules never for the lack of a
value. It shows help exactly if help is asked for. Otherwise it reports an error with another exit
code than zero, or it has delivered what was asked for. -/
theorem run_crashes_or_reports (surroundings : Surroundings) (argv : List String) :
    let outcome := run surroundings argv
    (∀ crash, outcome.exit = .crashed crash ↔
      ∃ arguments command, Arguments.read surroundings.rules argv = .ok arguments ∧
        arguments.command = some command ∧ RunCrash surroundings command arguments crash) ∧
    (surroundings.rules = .late →
      outcome.exit ≠ .crashed .noScale ∧ outcome.exit ≠ .crashed .noIndent) ∧
    (outcome.exit = .help ↔
      ∃ topic, Arguments.read surroundings.rules argv = .error (.help topic)) ∧
    (∀ code, outcome.exit = .code code → code ≠ 0 → outcome.Reports surroundings) ∧
    (outcome.exit = .code 0 →
      ∃ path text, Answers surroundings argv path text ∧ outcome.Delivers path text) := by
  intro outcome
  refine ⟨fun _ => run_crashed_iff, ?_, run_help_iff, ?_, ?_⟩
  · intro late
    have neither {crash : Crash} (crashed : outcome.exit = .crashed crash) :
        crash ≠ .noScale ∧ crash ≠ .noIndent := by
      obtain ⟨arguments, command, read, _, crashes⟩ := run_crashed_iff.mp crashed
      rw [late] at read
      obtain ⟨noScale, noIndent⟩ := not_runCrash_of_valued (Arguments.read_valued read)
      constructor
      · rintro rfl
        exact noScale crashes
      · rintro rfl
        exact noIndent crashes
    exact ⟨fun crashed => (neither crashed).1 rfl, fun crashed => (neither crashed).2 rfl⟩
  · intro code ended failed
    rcases run_code ended with ⟨zero, _⟩ | ⟨_, reports⟩
    · exact absurd zero failed
    · exact reports
  · intro ended
    rcases run_code ended with ⟨_, delivered⟩ | ⟨failed, _⟩
    · exact delivered
    · exact absurd rfl failed

/-- A size is read and typed under the scale zero, but it cannot be written back. -/
theorem run_crashes_under_zero_scale :
    let attrs := "[\x7b\"id\":\"width\",\"eq\":\"1\"\x7d]"
    let document :=
      "\x7b\"type\":\"node_stmt\",\"node_id\":\"a\",\"attr_list\":" ++ attrs ++ "\x7d"
    let surroundings : Surroundings :=
      { stdin := .ok document, lookup := fun _ => .nothing, opening := fun _ => .refused }
    (run surroundings ["write", "--xdot", "--scale", "0"]).exit =
      .crashed (.failed (.number .floatDivisionByZero)) := by
  intro attrs document surroundings
  let scale := nearestFloat false 0 1
  let arguments : Arguments := { command := some .write, xdot := true, scale := some scale }
  let value := Value.object [("type", .text "node_stmt"), ("node_id", .text "a"),
    ("attr_list", .list [.object [("id", .text "width"), ("eq", .text "1")]])]
  let tree := Tree.nodeStmt (.nodeId { id := "a" }) [⟨"width", .text "1"⟩]
  have json : Json.read document = .ok value := by
    simp only [document, attrs, value]
    rfl
  have reads : Reads surroundings arguments tree := by
    rw [Reads, inputText_stdin rfl json rfl]
    change readTree surroundings false document = .ok tree
    rw [readTree_eq rfl]
    exact treeOfText_of_read json rfl
  have loads : Loads surroundings arguments _ := ⟨tree, reads, rfl, rfl, rfl⟩
  have stated : (load {} arguments.geometry tree).model.StatesSize :=
    Or.inl ⟨"a", by decide, "width", by decide, _, rfl⟩
  have zero : arguments.HasZeroScale _ := ⟨rfl, ⟨scale, rfl, by decide⟩, stated⟩
  have crashes := (run_crashes_or_reports surroundings ["write", "--xdot", "--scale", "0"]).1
    (.failed (.number .floatDivisionByZero))
  exact crashes.mpr ⟨arguments, .write, rfl, rfl, .writing loads (.zeroScale rfl rfl zero)⟩

/-- Bytes that are no text end a run without a report. -/
theorem run_crashes_on_undecodable_file :
    let surroundings : Surroundings :=
      { stdin := .ok "", lookup := fun _ => .file [0xff], opening := fun _ => .refused }
    let outcome := run surroundings ["write", "f"]
    (∃ fault, outcome.exit = .crashed (.undecodable fault)) ∧ outcome.stderr = "" := by
  exact ⟨⟨_, rfl⟩, rfl⟩

end DotLang.CommandLine
