import DotLang.CommandLine.Program
import DotLang.Proofs.Results

/-!
# What a command answers

A run of a command is a chain of stages, and each of them can end it: the input
is looked up and read, the tree in it is loaded, and the text of the model is
made. Log lines aside, a run shows the text that comes out of the last stage, or
the reason why a stage has ended it (`runCommand_eq`).
-/

namespace DotLang.CommandLine

/-- The text that a command makes of a loaded tree. -/
def textOfResult (surroundings : Surroundings) (command : Command) (arguments : Arguments)
    (result : WalkResult) : Except Stop String :=
  match loadStop? surroundings arguments result with
  | some stop => .error stop
  | none => commandText surroundings command arguments result.model

/-- The text that a command makes of its input. -/
def answer (surroundings : Surroundings) (command : Command) (arguments : Arguments) :
    Except Stop String := do
  let tree ← inputText surroundings arguments.input >>= readTree surroundings arguments.strict
  textOfResult surroundings command arguments
    (load { isStrict := arguments.strict } arguments.geometry tree)

/-- The outcome for an answer, behind what the log shows. -/
def Outcome.ofAnswer (surroundings : Surroundings) (output : Option String) (log : String)
    (answer : Except Stop String) : Outcome :=
  match answer with
  | .error stop => .ofStop log stop
  | .ok text => emit surroundings output log text

variable {surroundings : Surroundings} {command : Command} {arguments : Arguments}

/-- A run of a command shows the answer of the command. -/
theorem runCommand_eq (surroundings : Surroundings) (command : Command) (arguments : Arguments) :
    ∃ lines, runCommand surroundings command arguments =
      .ofAnswer surroundings arguments.output (logText arguments.verbose lines)
        (answer surroundings command arguments) := by
  rw [runCommand, answer]
  cases inputText surroundings arguments.input >>= readTree surroundings arguments.strict with
  | error stop => exact ⟨[], rfl⟩
  | ok tree =>
      let result := load { isStrict := arguments.strict } arguments.geometry tree
      let walkLog := (surroundings.reports result.events).map LogLine.ofEvent
      change ∃ lines, _ =
        Outcome.ofAnswer _ _ _ (textOfResult surroundings command arguments result)
      rw [textOfResult]
      dsimp only
      cases loadStop? surroundings arguments result with
      | some stop => exact ⟨walkLog, rfl⟩
      | none =>
          refine ⟨walkLog ++ [LogLine.ofModel result.model], ?_⟩
          dsimp only
          cases commandText surroundings command arguments result.model with
          | error stop => rfl
          | ok text => rfl

/-! ### The stack -/

theorem exhausts_eq_false (unexhausted : surroundings.exhaustion = none) (stage : Stage) :
    surroundings.exhausts stage = false := by
  rw [Surroundings.exhausts, unexhausted]
  rfl

theorem readTree_eq {isStrict : Bool} {text : String}
    (unexhausted : surroundings.exhausts .reading = false) :
    readTree surroundings isStrict text = treeOfText isStrict text := by
  rw [readTree, unexhausted, if_neg Bool.false_ne_true]

/-- A command answers only if the stack is large enough for all of its stages. -/
theorem exhaustion_eq_none_of_answered {text : String}
    (answered : answer surroundings command arguments = .ok text) :
    surroundings.exhaustion = none := by
  cases exhaustion_eq : surroundings.exhaustion with
  | none => rfl
  | some exhaustion =>
      have exhausted : surroundings.exhausts exhaustion.stage = true := by
        simp [Surroundings.exhausts, exhaustion_eq]
      rcases exists_of_bind_eq_ok answered with ⟨tree, read, made⟩
      cases stage_eq : exhaustion.stage with
      | reading =>
          rcases exists_of_bind_eq_ok read with ⟨input, _, read⟩
          simp [readTree, ← stage_eq, exhausted] at read
      | loading => simp [textOfResult, loadStop?, ← stage_eq, exhausted] at made
      | answering =>
          rw [textOfResult] at made
          split at made
          · cases made
          · simp [commandText, ← stage_eq, exhausted] at made

/-! ### Outcomes -/

theorem run_exit (surroundings : Surroundings) (argv : List String) :
    (run surroundings argv).exit = (outcomeOf surroundings argv).exit := rfl

theorem run_stdout (surroundings : Surroundings) (argv : List String) :
    (run surroundings argv).stdout = (outcomeOf surroundings argv).stdout := rfl

theorem outcomeOf_of_read {argv : List String}
    (read : Arguments.read surroundings.rules argv = .ok arguments)
    (chosen : arguments.command = some command) :
    outcomeOf surroundings argv = runCommand surroundings command arguments := by
  rw [outcomeOf, read]
  simp only [chosen]

/-- The command of the arguments answers with a text, to be sent to a path. The empty path stands for
standard output. -/
def Answers (surroundings : Surroundings) (argv : List String) (path text : String) : Prop :=
  ∃ arguments command, Arguments.read surroundings.rules argv = .ok arguments ∧
    arguments.command = some command ∧ answer surroundings command arguments = .ok text ∧
    arguments.output.getD "" = path

/-- The arguments name a command, or they cannot be used. -/
theorem outcomeOf_cases (surroundings : Surroundings) (argv : List String) :
    (∃ arguments command, Arguments.read surroundings.rules argv = .ok arguments ∧
      arguments.command = some command ∧
      outcomeOf surroundings argv = runCommand surroundings command arguments) ∨
    ∃ error, outcomeOf surroundings argv = .ofArgumentError error ∧
      (∀ topic, Arguments.read surroundings.rules argv = .error (.help topic) ↔
        error = .help topic) ∧
      ∀ arguments, Arguments.read surroundings.rules argv = .ok arguments →
        arguments.command = none := by
  rw [outcomeOf]
  cases Arguments.read surroundings.rules argv with
  | error error => exact Or.inr ⟨error, rfl, by simp, by simp⟩
  | ok arguments =>
      dsimp only
      cases chosen : arguments.command with
      | none => exact Or.inr ⟨.missingCommand, rfl, by simp, by simp [chosen]⟩
      | some command => exact Or.inl ⟨arguments, command, rfl, chosen, rfl⟩

/-- A run shows the answer of the command that its arguments name. -/
theorem run_of_answer (argv : List String) {answered : Except Stop String}
    (read : Arguments.read surroundings.rules argv = .ok arguments)
    (chosen : arguments.command = some command)
    (answer_eq : answer surroundings command arguments = answered) :
    ∃ log, run surroundings argv =
      (Outcome.ofAnswer surroundings arguments.output log answered).encoded surroundings := by
  rcases runCommand_eq surroundings command arguments with ⟨lines, run_eq⟩
  refine ⟨logText arguments.verbose lines, ?_⟩
  rw [run, outcomeOf_of_read read chosen, run_eq, answer_eq]

/-- A run that ends early shows nothing on standard output and opens no file. -/
theorem ofStop_silent (log : String) (stop : Stop) :
    (Outcome.ofStop log stop).stdout = "" ∧ (Outcome.ofStop log stop).file = none := by
  cases stop <;> exact ⟨rfl, rfl⟩

/-- Whether a run that stops so does not look like a success. -/
def Stop.Fails : Stop → Prop
  | .reported _ code => code ≠ 0
  | .crashed _ => True

end DotLang.CommandLine
