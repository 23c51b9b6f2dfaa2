import DotLang.CommandLine.Arguments
import DotLang.Proofs.Results

/-!
# Options with a value

The scale and the indentation have a value unless the early rules drop it. By the
late rules no argument takes it away (`read_valued`).
-/

namespace DotLang.CommandLine

namespace Arguments

/-- The options with a default have a value. -/
structure Valued (arguments : Arguments) : Prop where
  scale : arguments.scale.isSome = true
  indent : arguments.indent.isSome = true

namespace Valued

variable {arguments changed : Arguments}

theorem setFlag {setting : Setting} (valued : arguments.Valued)
    (set : arguments.setFlag setting = .ok changed) : changed.Valued := by
  cases setting <;> cases set <;> exact ⟨valued.scale, valued.indent⟩

theorem setFlags {settings : List Setting} (valued : arguments.Valued)
    (set : settings.foldlM Arguments.setFlag arguments = .ok changed) : changed.Valued := by
  induction settings generalizing arguments with
  | nil =>
      cases set
      exact valued
  | cons setting rest ih =>
      rcases exists_of_bind_eq_ok set with ⟨middle, first, others⟩
      exact ih (valued.setFlag first) others

theorem setValue {option : OptionSpec} {value : String} (valued : arguments.Valued)
    (set : arguments.setValue .late option value = .ok changed) : changed.Valued := by
  rw [Arguments.setValue, if_neg (by simp)] at set
  cases setting : option.setting <;> simp only [setting] at set
  case scale =>
    split at set <;> cases set
    exact ⟨rfl, valued.indent⟩
  case indent =>
    cases set
    exact ⟨valued.scale, rfl⟩
  all_goals
    cases set
    exact ⟨valued.scale, valued.indent⟩

theorem leaveOver (argument : String) (valued : arguments.Valued) :
    (arguments.leaveOver argument).Valued :=
  ⟨valued.scale, valued.indent⟩

theorem commandArguments {options : List OptionSpec} {taken : Bool}
    {roles : List (String × Role)} (valued : arguments.Valued)
    (read : commandArguments .late options taken arguments roles = .ok changed) :
    changed.Valued := by
  fun_induction CommandLine.commandArguments .late options taken arguments roles
  case case1 | case8 =>
    cases read
    exact valued
  -- What is no option is the input or left over.
  case case2 ih | case3 ih | case6 ih => exact ih (valued.leaveOver _) read
  case case4 ih | case5 ih | case7 ih => exact ih ⟨valued.scale, valued.indent⟩ read
  -- An option: its flags come first, and then what else its argument holds.
  case case9 | case14 => cases read
  case case10 ih =>
    rcases exists_of_bind_eq_ok read with ⟨flagged, flags, read⟩
    exact ih _ (valued.setFlags flags) read
  case case11 ih =>
    rcases exists_of_bind_eq_ok read with ⟨flagged, flags, read⟩
    exact ih _ ((valued.setFlags flags).leaveOver _) read
  case case12 ih | case13 ih =>
    rcases exists_of_bind_eq_ok read with ⟨flagged, flags, read⟩
    rcases exists_of_bind_eq_ok read with ⟨assigned, assign, read⟩
    exact ih _ ((valued.setFlags flags).setValue assign) read

theorem commandLine {name : String} {rest : List String} (valued : arguments.Valued)
    (read : commandLine .late arguments name rest = .ok changed) : changed.Valued := by
  rw [CommandLine.commandLine] at read
  split at read
  · cases read
  · next command _ =>
      rcases exists_of_bind_eq_ok read with ⟨roles, _, read⟩
      have chosen : Valued { arguments with command := some command } :=
        ⟨valued.scale, valued.indent⟩
      exact chosen.commandArguments read

theorem generalArguments {roles : List (String × Role)} (valued : arguments.Valued)
    (read : generalArguments .late arguments roles = .ok changed) : changed.Valued := by
  fun_induction CommandLine.generalArguments .late arguments roles
  case case1 =>
    cases read
    exact valued
  case case2 ih => exact ih (valued.leaveOver _) read
  case case3 | case5 => exact valued.commandLine read
  case case4 =>
    cases read
    exact valued.leaveOver _
  case case6 ih₂ ih₁ =>
    rcases exists_of_bind_eq_ok read with ⟨⟨settings, remainder⟩, _, read⟩
    rcases exists_of_bind_eq_ok read with ⟨flagged, flags, read⟩
    have flagged_valued := valued.setFlags flags
    cases remainder with
    | unknown letters => exact ih₂ flagged letters (flagged_valued.leaveOver letters) read
    | _ => exact ih₁ flagged flagged_valued read

end Valued

/-- By the late rules the scale and the indentation have a value in all arguments that are read. -/
theorem read_valued {argv : List String} {arguments : Arguments}
    (read : Arguments.read .late argv = .ok arguments) : arguments.Valued := by
  rcases exists_of_bind_eq_ok read with ⟨roles, _, read⟩
  rcases exists_of_bind_eq_ok read with ⟨general, general_eq, read⟩
  have initial : Valued {} := ⟨rfl, rfl⟩
  have general_valued := initial.generalArguments general_eq
  split at read
  · cases read
  · cases read
    exact general_valued

end Arguments

end DotLang.CommandLine
