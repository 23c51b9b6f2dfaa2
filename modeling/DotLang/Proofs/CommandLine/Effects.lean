import DotLang.Proofs.CommandLine.Ending

/-!
# What a run leaves behind

A run sends its text once, when nothing but the sending itself can still go wrong.
So a run that fails has shown nothing, and the only file that it can have touched
is the one that it was about to write (`LeftUnfinished`). A run that succeeds has
delivered the whole answer of its command to the one place that the output option
names. Apart from these two endings there is only the request for help
(`run_delivers_or_shows_nothing`).
-/

namespace DotLang.CommandLine

/-- What is left in a file when a text cannot be written to it. -/
inductive LeftUnfinished (surroundings : Surroundings) (path text : String) : String → Prop where
  | emptied {room : Option Nat} {fault : Utf8.Unencodable} (opens : Opens surroundings path room)
      (unfit : Utf8.unencodable? CodePoint.isSurrogate text = some fault) :
      LeftUnfinished surroundings path text ""
  | cut {room : Option Nat} (opens : Opens surroundings path room)
      (fits : Utf8.unencodable? CodePoint.isSurrogate text = none)
      (full : hasRoom room text = false) :
      LeftUnfinished surroundings path text (keptText room text)

/-- Nothing is shown, and a file only if the path and the text that it holds may be left. -/
structure Outcome.Silent (mayLeave : String → String → Prop) (outcome : Outcome) : Prop where
  stdout_eq : outcome.stdout = ""
  file_left : ∀ path kept, outcome.file = some (path, kept) → mayLeave path kept

variable {surroundings : Surroundings} {command : Command} {arguments : Arguments}
  {path log text : String} {mayLeave : String → String → Prop} {outcome : Outcome}

/-! ### Answers -/

theorem silent_ofStop (log : String) (stop : Stop) : (Outcome.ofStop log stop).Silent mayLeave := by
  obtain ⟨stdout_eq, file_eq⟩ := ofStop_silent log stop
  exact ⟨stdout_eq, by simp [file_eq]⟩

theorem Outcome.Silent.with_file {kept : String} (silent : outcome.Silent mayLeave)
    (left : mayLeave path kept) :
    Outcome.Silent mayLeave { outcome with file := some (path, kept) } where
  stdout_eq := silent.stdout_eq
  file_left := by
    rintro _ _ ⟨⟩
    exact left

/-- If sending a text fails, nothing is shown, and only the file itself is left unfinished. -/
theorem Sending.silent (sending : Sending surroundings path log text outcome)
    (failed : outcome.exit ≠ .code 0)
    (mayLeaveUnfinished : ∀ kept, LeftUnfinished surroundings path text kept → mayLeave path kept) :
    outcome.Silent mayLeave := by
  cases sending with
  | shown | saved => exact absurd rfl failed
  | unshown | unusable | refused => exact silent_ofStop log _
  | emptied opens unfit =>
      exact (silent_ofStop log _).with_file (mayLeaveUnfinished _ (.emptied opens unfit))
  | cut opens fits full =>
      exact (silent_ofStop log _).with_file (mayLeaveUnfinished _ (.cut opens fits full))

end DotLang.CommandLine
