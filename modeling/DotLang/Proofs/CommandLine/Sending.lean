import DotLang.Proofs.CommandLine.Answer

/-!
# Sending a text

A text that was made is sent once, to standard output or to one file. `Sending`
lists all that can come of it. Standard output takes a text as a whole or not at
all. A file is opened before the text is encoded and written, so it can be left
emptied or cut short.
-/

namespace DotLang.CommandLine

/-- A file can be opened for the output and has so much room. -/
structure Opens (surroundings : Surroundings) (path : String) (room : Option Nat) : Prop where
  named : path ≠ ""
  usable : pathCrash? path = none
  opening_eq : surroundings.opening path = .opened room

/-- The outcome is a success in which one place has received the text: a file if there is a path,
and standard output otherwise. The other place has received nothing. -/
inductive Outcome.Delivers (path text : String) : Outcome → Prop where
  | shown {log : String} (unset : path = "") :
      Delivers path text { exit := .code 0, stdout := text, stderr := log }
  | saved {log : String} (named : path ≠ "") :
      Delivers path text { exit := .code 0, stderr := log, file := some (path, text) }

/-- What comes of sending a text to a path, where the empty path stands for standard output. -/
inductive Sending (surroundings : Surroundings) (path log text : String) : Outcome → Prop where
  | shown (unset : path = "") (fits : surroundings.unshown? text = none) :
      Sending surroundings path log text { exit := .code 0, stdout := text, stderr := log }
  | unshown {fault : Utf8.Unencodable} (unset : path = "")
      (unfit : surroundings.unshown? text = some fault) :
      Sending surroundings path log text (.ofStop log (.crashed (.unencodable fault)))
  | unusable {crash : Crash} (named : path ≠ "") (crashes : pathCrash? path = some crash) :
      Sending surroundings path log text (.ofStop log (.crashed crash))
  | refused (named : path ≠ "") (usable : pathCrash? path = none)
      (refuses : surroundings.opening path = .refused) :
      Sending surroundings path log text (.ofStop log (.unwritten path))
  | emptied {room : Option Nat} {fault : Utf8.Unencodable} (opens : Opens surroundings path room)
      (unfit : Utf8.unencodable? CodePoint.isSurrogate text = some fault) :
      Sending surroundings path log text
        { Outcome.ofStop log (.crashed (.unencodable fault)) with file := some (path, "") }
  | cut {room : Option Nat} (opens : Opens surroundings path room)
      (fits : Utf8.unencodable? CodePoint.isSurrogate text = none)
      (full : hasRoom room text = false) :
      Sending surroundings path log text
        { Outcome.ofStop log (.unwritten path) with file := some (path, keptText room text) }
  | saved {room : Option Nat} (opens : Opens surroundings path room)
      (fits : Utf8.unencodable? CodePoint.isSurrogate text = none)
      (holds : hasRoom room text = true) :
      Sending surroundings path log text
        { exit := .code 0, stderr := log, file := some (path, text) }

variable {surroundings : Surroundings} {path : String}

theorem sendToFile_sending (log text : String) (named : path ≠ "")
    (usable : pathCrash? path = none) :
    Sending surroundings path log text (sendToFile surroundings path log text) := by
  rw [sendToFile]
  dsimp only
  split
  case h_1 refuses => exact .refused named usable refuses
  case h_2 room opening_eq =>
    have opens : Opens surroundings path room := ⟨named, usable, opening_eq⟩
    split
    case h_1 fault unfit => exact .emptied opens unfit
    case h_2 fits =>
      split
      case isTrue holds => exact .saved opens fits holds
      case isFalse full => exact .cut opens fits (by simpa using full)

theorem emit_sending (surroundings : Surroundings) (output : Option String) (log text : String) :
    Sending surroundings (output.getD "") log text (emit surroundings output log text) := by
  rw [emit]
  split
  case isTrue unset =>
    rw [String.isEmpty_iff] at unset
    rw [sendToStdout]
    split
    case h_1 fits => exact .shown unset fits
    case h_2 fault unfit => exact .unshown unset unfit
  case isFalse named =>
    rw [String.isEmpty_iff] at named
    split
    case h_1 crash crashes => exact .unusable named crashes
    case h_2 usable => exact sendToFile_sending log text named usable

theorem Sending.stdout_eq {log text : String} {outcome : Outcome}
    (sending : Sending surroundings path log text outcome) :
    outcome.stdout = "" ∨ outcome.stdout = text := by
  cases sending with
  | shown => exact Or.inr rfl
  | saved => exact Or.inl rfl
  | unshown | unusable | refused | emptied | cut => exact Or.inl (ofStop_silent log _).1

/-- A text that standard output can hold is shown. -/
theorem emit_shown {output : Option String} {text : String} (unset : output.getD "" = "")
    (fits : surroundings.unshown? text = none) (log : String) :
    emit surroundings output log text = { exit := .code 0, stdout := text, stderr := log } := by
  simp [emit, unset, sendToStdout, fits]

theorem Outcome.Delivers.encoded {text : String} {outcome : Outcome}
    (delivers : outcome.Delivers path text) (surroundings : Surroundings) :
    (outcome.encoded surroundings).Delivers path text := by
  cases delivers with
  | shown unset => exact .shown unset
  | saved named => exact .saved named

end DotLang.CommandLine
