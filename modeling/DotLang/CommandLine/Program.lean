import DotLang.CommandLine.Arguments
import DotLang.CommandLine.Directory
import DotLang.Conversion
import DotLang.Json.Reader
import DotLang.Json.Writer
import DotLang.Model.Summary
import DotLang.Text.Utf8

/-!
# Program

What the program answers to its arguments: it reads a tree in tagged form as JSON
from a file or from standard input, resolves it, and writes the regenerated
graph or the summary of the model.

The answer is a value. Whoever runs the program looks up the one file that it
reads and writes the one file that it names. What can go wrong outside of the
program is part of what surrounds a run: a file that cannot be opened or has no
room for the text, a stream that cannot hold it, a stack that is too small for
deeply nested data. The values of `Arguments`, `Lookup` and the texts of standard
input are kept as `DotLang.Text.CodePoint` says.
-/

namespace DotLang.CommandLine

/-- What happens when a file is to be written. -/
inductive Opening where
  /-- The file cannot be opened, and stays as it was. -/
  | refused
  /-- The file is opened and emptied. It has room for so many code points, or for any number. Bytes
  of a code point that does not fit as a whole are left out. -/
  | opened (room : Option Nat)

/-- What the standard streams hold. A stream that breaks off is left out. -/
inductive Streams where
  /-- The streams of a process hold UTF-8. Standard error escapes what it cannot encode; standard
  output refuses it. -/
  | encoded
  /-- Streams in memory hold any text. -/
  | inMemory
deriving DecidableEq, Repr

/-- The parts of a run that go through nested data, each with a stack of its own depth. -/
inductive Stage where
  /-- Reading a tree from JSON. -/
  | reading
  /-- Loading the tree. -/
  | loading
  /-- Writing the answer. -/
  | answering
deriving DecidableEq, Repr

/-- Where the stack is used up in a run. -/
structure Exhaustion where
  stage : Stage
  /-- How many reports of the walk are made by then, if the stage is loading. -/
  reports : Nat := 0

/-- What surrounds a run of the program. -/
structure Surroundings where
  /-- The rules by which the arguments are read. -/
  rules : ArgumentRules := .late
  /-- The text on standard input, unless its bytes are no text. -/
  stdin : Except Utf8.Fault String
  /-- What is found at a path. -/
  lookup : String → Lookup
  /-- What happens when a file is to be written to a path. -/
  opening : String → Opening
  streams : Streams := .encoded
  /-- Where the stack is too small for the data, if it is. -/
  exhaustion : Option Exhaustion := none

namespace Surroundings

/-- Whether the stack is used up in a stage. -/
def exhausts (surroundings : Surroundings) (stage : Stage) : Bool :=
  surroundings.exhaustion.any fun exhaustion => exhaustion.stage = stage

/-- The reports that a walk makes before it ends, one way or the other. -/
def reports (surroundings : Surroundings) (events : List WalkEvent) : List WalkEvent :=
  match surroundings.exhaustion with
  | some exhaustion => if exhaustion.stage = .loading then events.take exhaustion.reports else events
  | none => events

/-- Why standard output cannot hold a text. -/
def unshown? (surroundings : Surroundings) (text : String) : Option Utf8.Unencodable :=
  match surroundings.streams with
  | .encoded => Utf8.unencodable? CodePoint.isSurrogate text
  | .inMemory => none

/-- What standard error shows of a text. -/
def stderrText (surroundings : Surroundings) (text : String) : String :=
  match surroundings.streams with
  | .encoded => Text.escapeSurrogates text
  | .inMemory => text

end Surroundings

/-- A failure without a message of its own. -/
inductive Crash where
  /-- The bytes of the input are no text. -/
  | undecodable (fault : Utf8.Fault)
  /-- The input holds an integer with too many digits. -/
  | oversizedInteger
  /-- The tree could not be resolved or written. -/
  | failed (failure : Failure)
  /-- The path of the output holds a NUL. -/
  | invalidPath
  /-- The text or the path of the output has a surrogate that cannot be encoded. -/
  | unencodable (fault : Utf8.Unencodable)
  /-- The scale is needed, but its value was dropped. -/
  | noScale
  /-- The indentation is needed, but its value was dropped. -/
  | noIndent
  /-- The data is nested too deeply. -/
  | exhausted

/-- The wording of a crash. -/
def Crash.message : Crash → String
  | .undecodable fault => fault.message
  | .oversizedInteger => Json.Fault.oversizedInteger.wording
  | .failed failure => failure.message
  | .invalidPath => "embedded null byte"
  | .unencodable fault => fault.message
  | .noScale => "can't multiply sequence by non-int of type 'float'"
  | .noIndent => "can only concatenate list (not \"str\") to list"
  | .exhausted => "maximum recursion depth exceeded"

/-- Why a run ends early. -/
inductive Stop where
  /-- With a message and an exit code. -/
  | reported (message : String) (code : Nat)
  /-- With a failure that the program does not report itself. -/
  | crashed (crash : Crash)

/-- How a run ends. -/
inductive Exit where
  /-- With an exit code. -/
  | code (code : Nat)
  /-- From inside the reading of the arguments, which ends the process with code zero once it has
  shown help. -/
  | help
  /-- With a failure that the program does not report itself. -/
  | crashed (crash : Crash)

/-- All that a run leaves behind. -/
structure Outcome where
  exit : Exit
  stdout : String := ""
  stderr : String := ""
  /-- The path of the file that was opened for the output, and the text that it holds in the end. -/
  file : Option (String × String) := none

/-- The exit code for arguments that cannot be used. -/
def usageCode : Nat := 2

/-- The exit code for input that cannot be read. -/
def inputCode : Nat := 2

/-- The exit code for a tree that cannot be resolved. -/
def treeCode : Nat := 1

/-- The exit code for output that cannot be written. -/
def outputCode : Nat := 4

/-- Every line break becomes a line feed. -/
def normalizeLineBreaks : List Char → List Char
  | '\r' :: '\n' :: rest => '\n' :: normalizeLineBreaks rest
  | char :: rest => (if char = '\r' then '\n' else char) :: normalizeLineBreaks rest
  | [] => []

/-- The text of the file at a path. -/
def fileText (surroundings : Surroundings) (path : String) : Except Stop String :=
  match surroundings.lookup path with
  | .nothing =>
      .error (.reported ("input file not found: " ++ (Path.ofText path).toText) inputCode)
  | .unreadable => .error (.reported ("failed to read input file: " ++ path) inputCode)
  | .file bytes =>
      match Utf8.decode bytes with
      | .ok text => .ok (String.ofList (normalizeLineBreaks text.toList))
      | .error fault => .error (.crashed (.undecodable fault))

/-- The text on standard input. -/
def stdinText (surroundings : Surroundings) : Except Stop String :=
  match surroundings.stdin with
  | .ok text =>
      if Text.isBlankText text then .error (.reported "stdin was empty" inputCode) else .ok text
  | .error fault => .error (.crashed (.undecodable fault))

/-- The text of the input; an empty path stands for standard input. -/
def inputText (surroundings : Surroundings) (input : Option String) : Except Stop String :=
  match input with
  | some path => if path.isEmpty then stdinText surroundings else fileText surroundings path
  | none => stdinText surroundings

/-- The stop for a failure: a malformed tree or statement is reported. -/
def Stop.ofFailure (failure : Failure) : Stop :=
  match failure with
  | .malformed malformed => .reported malformed.message treeCode
  | .walk (.unrecognized statement) => .reported statement.diagnostic treeCode
  | other => .crashed (.failed other)

/-- The tree that a text holds in tagged form as JSON. -/
def treeOfText (isStrict : Bool) (text : String) : Except Stop Tree :=
  match Json.read text with
  | .error error =>
      if error.fault = .oversizedInteger then .error (.crashed .oversizedInteger)
      else .error (.reported ("input is not valid JSON: " ++ error.message text) inputCode)
  | .ok value => (Tree.ofValue isStrict value).mapError fun fault => .ofFailure (.malformed fault)

/-- The tree that a text holds, if the stack is large enough to read it. -/
def readTree (surroundings : Surroundings) (isStrict : Bool) (text : String) : Except Stop Tree :=
  if surroundings.exhausts .reading then .error (.crashed .exhausted) else treeOfText isStrict text

/-- How much a line of the log matters. -/
inductive LogLevel where
  | debug
  | warning
deriving DecidableEq

/-- A line of the log. -/
structure LogLine where
  level : LogLevel
  /-- The part of the program that reports. -/
  source : String
  message : String

/-- The text of a line of the log with its line break. -/
def LogLine.toText (line : LogLine) : String :=
  let level :=
    match line.level with
    | .debug => "DEBUG"
    | .warning => "WARNING"
  level ++ " " ++ line.source ++ ": " ++ line.message ++ "\n"

/-- The line of the log for a report of the walk. -/
def LogLine.ofEvent : WalkEvent → LogLine
  | .skipped diagnostic => ⟨.warning, "dotgraph.walker", diagnostic⟩
  | .reentered key => ⟨.debug, "dotgraph.walker", "re-entering subgraph " ++ key⟩
  | .ignoredRoot key => ⟨.debug, "dotgraph.graph", "ignoring extra top-level graph " ++ key⟩

/-- The line of the log for a resolved model. -/
def LogLine.ofModel (model : Model) : LogLine :=
  ⟨.debug, "dotgraph.cli", "resolved " ++ toString model.nodes.size ++ " nodes, " ++
    toString model.edgeList.length ++ " edges"⟩

/-- The text of a log; only a verbose run shows what matters little. -/
def logText (verbose : Bool) (lines : List LogLine) : String :=
  String.join ((lines.filter fun line => verbose || line.level = .warning).map LogLine.toText)

/-- How the arguments say that geometry is held. -/
def Arguments.geometry (arguments : Arguments) : Geometry :=
  if arguments.xdot then .typed ((arguments.scale.map .float).getD Geometry.defaultScale)
  else .plain

/-- Why a tree cannot be loaded as the arguments say. Without a scale there are no typed sizes;
for a model that has no size the scale does not matter. -/
def loadStop? (surroundings : Surroundings) (arguments : Arguments) (result : WalkResult) :
    Option Stop :=
  if surroundings.exhausts .loading then some (.crashed .exhausted)
  else
    match result.failure with
    | some failure => some (.ofFailure failure)
    | none =>
        if arguments.xdot && arguments.scale.isNone && result.model.hasSize then
          some (.crashed .noScale)
        else none

/-- The text of a model with a line break at its end. The tree is regenerated before the
indentation is needed. -/
def writtenText (arguments : Arguments) (model : Model) : Except Stop String :=
  match model.toTree arguments.geometry.encode, arguments.indent with
  | .error fault, _ => .error (.ofFailure (.number fault))
  | .ok _, none => .error (.crashed .noIndent)
  | .ok tree, some indent =>
      match tree.toText indent 0 true with
      | .error missing => .error (.ofFailure (.unwritable missing))
      | .ok text => .ok (text ++ "\n")

/-- The text that a command writes about a model. -/
def commandText (surroundings : Surroundings) (command : Command) (arguments : Arguments)
    (model : Model) : Except Stop String :=
  if surroundings.exhausts .answering then .error (.crashed .exhausted)
  else
    match command with
    | .write => writtenText arguments model
    | .model => .ok (Json.write .indented model.summary ++ "\n")

/-- The outcome of a run that stops early, behind what the log shows. -/
def Outcome.ofStop (log : String) (stop : Stop) : Outcome :=
  match stop with
  | .reported message code =>
      { exit := .code code, stderr := log ++ "error: " ++ message ++ "\n" }
  | .crashed crash => { exit := .crashed crash, stderr := log }

/-- Sends a text to standard output. A text that cannot be encoded is refused as a whole. -/
def sendToStdout (surroundings : Surroundings) (log text : String) : Outcome :=
  match surroundings.unshown? text with
  | none => { exit := .code 0, stdout := text, stderr := log }
  | some fault => .ofStop log (.crashed (.unencodable fault))

/-- The failure to use the path of an output. -/
def pathCrash? (path : String) : Option Crash :=
  ((Path.ofText path).unencodable?.map .unencodable).or
    (if path.contains '\x00' then some .invalidPath else none)

/-- What a file with so much room keeps of a text. -/
def keptText (room : Option Nat) (text : String) : String :=
  match room with
  | some count => Text.ofCodePoints ((Text.codePoints text.toList).take count)
  | none => text

/-- Whether a text has room. -/
def hasRoom (room : Option Nat) (text : String) : Bool :=
  room.all fun count => (Text.codePoints text.toList).length ≤ count

/-- The stop for an output that cannot be written. -/
def Stop.unwritten (path : String) : Stop :=
  .reported ("failed to write output file: " ++ path) outputCode

/-- Sends a text to a file. The file is opened and emptied before the text is encoded and written,
and whatever happens then, it stays. -/
def sendToFile (surroundings : Surroundings) (path log text : String) : Outcome :=
  let unwritten := Outcome.ofStop log (.unwritten path)
  match surroundings.opening path with
  | .refused => unwritten
  | .opened room =>
      match Utf8.unencodable? CodePoint.isSurrogate text with
      | some fault =>
          { Outcome.ofStop log (.crashed (.unencodable fault)) with file := some (path, "") }
      | none =>
          if hasRoom room text then { exit := .code 0, stderr := log, file := some (path, text) }
          else { unwritten with file := some (path, keptText room text) }

/-- Sends a text to standard output or, unless the path is empty, to a file. -/
def emit (surroundings : Surroundings) (output : Option String) (log text : String) : Outcome :=
  let path := output.getD ""
  if path.isEmpty then sendToStdout surroundings log text
  else
    match pathCrash? path with
    | some crash => .ofStop log (.crashed crash)
    | none => sendToFile surroundings path log text

/-- Runs a command. -/
def runCommand (surroundings : Surroundings) (command : Command) (arguments : Arguments) :
    Outcome :=
  let isStrict := arguments.strict
  match inputText surroundings arguments.input >>= readTree surroundings isStrict with
  | .error stop => .ofStop "" stop
  | .ok tree =>
      let result := load { isStrict } arguments.geometry tree
      let walkLog := (surroundings.reports result.events).map LogLine.ofEvent
      match loadStop? surroundings arguments result with
      | some stop => .ofStop (logText arguments.verbose walkLog) stop
      | none =>
          let log := logText arguments.verbose (walkLog ++ [LogLine.ofModel result.model])
          match commandText surroundings command arguments result.model with
          | .error stop => .ofStop log stop
          | .ok text => emit surroundings arguments.output log text

/-- The outcome for arguments that cannot be used. -/
def Outcome.ofArgumentError (error : ArgumentError) : Outcome :=
  match error with
  | .help _ => { exit := .help, stdout := error.message }
  | _ => .ofStop "" (.reported error.message usageCode)

/-- The outcome of the arguments, with its log and report as they are written. -/
def outcomeOf (surroundings : Surroundings) (argv : List String) : Outcome :=
  match Arguments.read surroundings.rules argv with
  | .error error => .ofArgumentError error
  | .ok arguments =>
      match arguments.command with
      | none => .ofArgumentError .missingCommand
      | some command => runCommand surroundings command arguments

/-- The outcome as standard error shows it. -/
def Outcome.encoded (surroundings : Surroundings) (outcome : Outcome) : Outcome :=
  { outcome with stderr := surroundings.stderrText outcome.stderr }

/-- Runs the program. -/
def run (surroundings : Surroundings) (argv : List String) : Outcome :=
  (outcomeOf surroundings argv).encoded surroundings

end DotLang.CommandLine
