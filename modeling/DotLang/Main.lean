import DotLang.CommandLine.Program

/-!
# Command line

Runs the program in the real world: looks up the input file, runs, and writes
what the run leaves behind.
-/

namespace DotLang.CommandLine

/-- What is at a path in the file system. -/
def lookUp (path : String) : IO Lookup := do
  match Text.unicode? path with
  | none => return .nothing
  | some name =>
      try
        return .file (← IO.FS.readBinFile name).toList
      catch error =>
        match error with
        | .noFileOrDirectory .. => return .nothing
        | _ => return .unreadable

/-- Writes the characters of an opened file. -/
def fill (file : IO.FS.Handle) (plain : String) : IO Opening := do
  try
    file.putStr plain
    file.flush
    return .opened none
  catch _ => return .opened (some 0)

/-- Writes a file and says how that went. The file is emptied even for a text that cannot be
encoded. -/
def writeOut (path text : String) : IO Opening := do
  try
    let file ← IO.FS.Handle.mk ((Text.unicode? path).getD "") .write
    fill file ((Text.unicode? text).getD "")
  catch _ => return .refused

/-- The path that the arguments name as input. -/
def inputPath (rules : ArgumentRules) (argv : List String) : String :=
  match Arguments.read rules argv with
  | .ok arguments => arguments.input.getD ""
  | .error _ => ""

/-- The text on standard input, if the arguments name no file. -/
def readStdin (path : String) : IO (Except Utf8.Fault String) := do
  if path.isEmpty then
    let bytes ← (← IO.getStdin).readBinToEnd
    return (Utf8.decode bytes.toList).map fun text =>
      String.ofList (normalizeLineBreaks text.toList)
  return .ok ""

/-- Shows the outcome of a run and returns the exit code of the process. A crash stands for an
exception that leaves the program: its message is shown in the place of the trace that is printed
for such an exception, and the process ends with code one. -/
def conclude (outcome : Outcome) : IO UInt32 := do
  IO.print ((Text.unicode? outcome.stdout).getD "")
  IO.eprint ((Text.unicode? outcome.stderr).getD "")
  match outcome.exit with
  | .code code => return code.toUInt32
  | .help => return 0
  | .crashed crash =>
      IO.eprintln crash.message
      return 1

end DotLang.CommandLine

open DotLang DotLang.CommandLine in
/-- Runs the program with the arguments of the process. The run is planned with a file that takes
all of its text, and run again with what became of the file. -/
def main (argv : List String) : IO UInt32 := do
  let texts := argv.map Text.ofUnicode
  let path := inputPath .late texts
  let found ← if path.isEmpty then pure Lookup.nothing else lookUp path
  let stdin ← readStdin path
  let surroundings (opening : Opening) : Surroundings :=
    { stdin, lookup := fun _ => found, opening := fun _ => opening }
  let planned := run (surroundings (.opened none)) texts
  match planned.file with
  | none => conclude planned
  | some (target, text) => conclude (run (surroundings (← writeOut target text)) texts)
