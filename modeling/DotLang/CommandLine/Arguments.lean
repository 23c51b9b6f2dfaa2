import DotLang.Number.Reading
import DotLang.Text.Literal

/-!
# Command-line arguments

The arguments are general options, one command, and the options of the command
with one input file. An option may be shortened to any beginning that no other
option shares, its value may follow it or an equals sign, and flags of one
letter may stand together. What no option and no operand takes is listed as
unrecognized.

The rules have changed in two places, and both sets of rules are in use
(`ArgumentRules`): in what becomes of the value `--`, and of letters behind a flag
that are no flags.
-/

namespace DotLang.CommandLine

/-- The rules by which arguments are read. -/
inductive ArgumentRules where
  /-- The rules of the first releases of 3.11. The value `--` of an option is dropped, which leaves
  the option without a value. What follows a flag in its argument has to be flags. -/
  | early
  /-- The rules of 3.11.10 and 3.12.3. The value `--` is a value like any other. What follows a flag
  in its argument and is no flag is left over, unless it begins with a hyphen or an equals sign. -/
  | late
deriving DecidableEq, Repr

/-- What the program does with the resolved model. -/
inductive Command where
  /-- Write the regenerated graph as DOT text. -/
  | write
  /-- Write the summary of the model as JSON. -/
  | model
deriving DecidableEq, Repr

/-- The commands by name. -/
def commands : List (String × Command) :=
  [("write", .write), ("model", .model)]

/-- What an option sets. -/
inductive Setting where
  | help
  | verbose
  | output
  | xdot
  | scale
  | strict
  | indent
deriving DecidableEq, Repr

/-- An option with its names. -/
structure OptionSpec where
  names : List String
  setting : Setting
  takesValue : Bool
deriving DecidableEq, Repr

/-- The option that asks for help. -/
def helpOption : OptionSpec := ⟨["-h", "--help"], .help, false⟩

/-- The options before the command. -/
def generalOptions : List OptionSpec :=
  [helpOption, ⟨["-v", "--verbose"], .verbose, false⟩]

/-- The options of a command. -/
def commandOptions (command : Command) : List OptionSpec :=
  let shared : List OptionSpec := [
    helpOption,
    ⟨["-o", "--output"], .output, true⟩,
    ⟨["--xdot"], .xdot, false⟩,
    ⟨["--scale"], .scale, true⟩,
    ⟨["--strict"], .strict, false⟩]
  match command with
  | .write => shared ++ [⟨["--indent"], .indent, true⟩]
  | .model => shared

/-- Why the arguments cannot be used. -/
inductive ArgumentError where
  /-- Help was asked for, about the program or about a command. -/
  | help (command : Option Command)
  /-- A shortened name is the beginning of several names. -/
  | ambiguous (argument : String) (names : List String)
  /-- The value of an option does not follow. -/
  | missingValue (option : OptionSpec)
  /-- A flag has a value. -/
  | superfluousValue (option : OptionSpec) (value : String)
  /-- The value of an option is no number. -/
  | invalidFloat (option : OptionSpec) (value : String)
  /-- There is no command with the name. -/
  | invalidCommand (name : String)
  /-- Nothing takes the arguments. -/
  | unrecognized (arguments : List String)
  /-- There is no command. -/
  | missingCommand
deriving DecidableEq, Repr

/-- What an error says about an option. -/
def OptionSpec.complaint (option : OptionSpec) (complaint : String) : String :=
  "argument " ++ "/".intercalate option.names ++ ": " ++ complaint

/-- The help about the program, laid out for lines of eighty characters. -/
def programHelp : String := "usage: dotgraph [-h] [-v] \x7bwrite,model\x7d ...

Resolve a parsed DOT/XDOT tree (JSON) into a graph model.

positional arguments:
  \x7bwrite,model\x7d
    write        Regenerate DOT text from the resolved model
    model        Print the resolved model as JSON

options:
  -h, --help     show this help message and exit
  -v, --verbose  Log debug output
"

/-- The help about a command with its name, laid out for lines of eighty characters. The last two
parts are the usage and the description of the options that only this command has. -/
def commandHelp (name usage description : String) : String :=
  "usage: dotgraph " ++ name ++ " [-h] [-o OUTPUT] [--xdot] [--scale SCALE] [--strict]\n" ++
    usage ++ "                      [input]

positional arguments:
  input                 JSON syntax tree (default: stdin)

options:
  -h, --help            show this help message and exit
  -o OUTPUT, --output OUTPUT
                        Output path (default: stdout)
  --xdot                Parse XDOT geometry attributes
  --scale SCALE
  --strict              Fail on unrecognized statements
" ++ description

/-- The help that is shown on request. -/
def helpText : Option Command → String
  | none => programHelp
  | some .write =>
      commandHelp "write" "                      [--indent INDENT]\n" "  --indent INDENT\n"
  | some .model => commandHelp "model" "" ""

/-- The wording of an error. -/
def ArgumentError.message : ArgumentError → String
  | .help command => helpText command
  | .ambiguous argument names =>
      "ambiguous option: " ++ argument ++ " could match " ++ ", ".intercalate names
  | .missingValue option => option.complaint "expected one argument"
  | .superfluousValue option value =>
      option.complaint ("ignored explicit argument " ++ Text.literal value)
  | .invalidFloat option value =>
      option.complaint ("invalid float value: " ++ Text.literal value)
  | .invalidCommand name =>
      "argument command: invalid choice: " ++ Text.literal name ++ " (choose from " ++
        ", ".intercalate (commands.map fun (known, _) => Text.literal known) ++ ")"
  | .unrecognized arguments => "unrecognized arguments: " ++ " ".intercalate arguments
  | .missingCommand => "a subcommand is required (write or model)"

/-- How an argument is understood before it is processed. -/
inductive Role where
  /-- The argument `--`, behind which there are no options. -/
  | separator
  | operand
  /-- An option under the given name, with what is written in the same argument, behind an equals
  sign or directly. -/
  | option (option : OptionSpec) (name : String) (attached : Option (Bool × List Char))
  /-- Something that looks like an option but is none. -/
  | unknownOption

/-- The names of all options with the options. -/
def namedOptions (options : List OptionSpec) : List (String × OptionSpec) :=
  options.flatMap fun option => option.names.map fun name => (name, option)

/-- Whether an argument is a negative number. -/
def isNegativeNumber (chars : List Char) : Bool :=
  let isDigit (char : Char) := (Text.decimalValue? char).isSome
  let withoutBreak := if chars.getLast? == some '\n' then chars.dropLast else chars
  match withoutBreak with
  | '-' :: magnitude =>
      let fraction := magnitude.dropWhile isDigit
      let digits := if fraction.isEmpty then magnitude else fraction.drop 1
      (fraction.isEmpty || fraction.head? == some '.') && !digits.isEmpty && digits.all isDigit
  | _ => false

/-- The options that an argument could stand for when it is no complete name. -/
def candidates (options : List OptionSpec) (chars : List Char) : List (String × Role) :=
  let named := namedOptions options
  if chars.take 2 == ['-', '-'] then
    let start := chars.takeWhile (· != '=')
    let attached :=
      if start.length < chars.length then some (true, chars.drop (start.length + 1)) else none
    (named.filter fun (name, _) => start.isPrefixOf name.toList).map fun (name, option) =>
      (name, .option option name attached)
  else
    named.filterMap fun (name, option) =>
      if name.toList == chars.take 2 then
        some (name, .option option name (some (false, chars.drop 2)))
      else if chars.isPrefixOf name.toList then some (name, .option option name none)
      else none

/-- The role of an argument that is not behind a separator. -/
def roleOf (options : List OptionSpec) (argument : String) : Except ArgumentError Role :=
  let chars := argument.toList
  let named := namedOptions options
  let start := chars.takeWhile (· != '=')
  match chars with
  | '-' :: _ :: _ =>
      match named.lookup argument with
      | some option => .ok (.option option argument none)
      | none =>
          let name := String.ofList start
          match if start.length < chars.length then named.lookup name else none with
          | some option => .ok (.option option name (some (true, chars.drop (start.length + 1))))
          | none =>
              match candidates options chars with
              | [(_, role)] => .ok role
              | [] =>
                  if isNegativeNumber chars || chars.contains ' ' then .ok .operand
                  else .ok .unknownOption
              | several => .error (.ambiguous argument (several.map Prod.fst))
  | _ => .ok .operand

/-- The roles of all arguments. -/
def rolesOf (options : List OptionSpec) :
    List String → Except ArgumentError (List (String × Role))
  | [] => .ok []
  | argument :: rest =>
      if argument = "--" then
        .ok ((argument, .separator) :: rest.map fun operand => (operand, .operand))
      else do
        let role ← roleOf options argument
        return (argument, role) :: (← rolesOf options rest)

/-- What the arguments ask for. -/
structure Arguments where
  verbose : Bool := false
  command : Option Command := none
  input : Option String := none
  output : Option String := none
  xdot : Bool := false
  /-- The factor for sizes, unless its value was dropped. -/
  scale : Option Float := some 72.0
  strict : Bool := false
  /-- The indentation of a level, unless its value was dropped. -/
  indent : Option String := some "  "
  /-- The arguments that nothing takes. -/
  unrecognized : List String := []

namespace Arguments

/-- Applies a flag. -/
def setFlag (arguments : Arguments) : Setting → Except ArgumentError Arguments
  | .help => .error (.help arguments.command)
  | .verbose => .ok { arguments with verbose := true }
  | .xdot => .ok { arguments with xdot := true }
  | .strict => .ok { arguments with strict := true }
  | _ => .ok arguments

/-- Applies an option whose value is dropped. -/
def clearValue (arguments : Arguments) : Setting → Arguments
  | .output => { arguments with output := none }
  | .indent => { arguments with indent := none }
  | .scale => { arguments with scale := none }
  | _ => arguments

/-- The value that the early rules drop. -/
def droppedValue : String := "--"

/-- Applies an option with its value. -/
def setValue (rules : ArgumentRules) (arguments : Arguments) (option : OptionSpec)
    (value : String) : Except ArgumentError Arguments :=
  if rules = .early ∧ value = droppedValue then .ok (arguments.clearValue option.setting)
  else
    match option.setting with
    | .output => .ok { arguments with output := some value }
    | .indent => .ok { arguments with indent := some value }
    | .scale =>
        match FloatText.read? value.toList with
        | some scale => .ok { arguments with scale := some scale }
        | none => .error (.invalidFloat option value)
    | _ => .ok arguments

/-- Lists an argument that nothing takes. -/
def leaveOver (arguments : Arguments) (argument : String) : Arguments :=
  { arguments with unrecognized := arguments.unrecognized ++ [argument] }

end Arguments

/-- What is still open once the flags of an argument are known. -/
inductive Remainder where
  | nothing
  /-- An option with its value. -/
  | value (option : OptionSpec) (value : String)
  /-- An option whose value has to follow. -/
  | awaiting (option : OptionSpec)
  /-- Letters behind a hyphen that are no flags. -/
  | unknown (argument : String)

/-- What an option without anything attached leaves to do. -/
def OptionSpec.alone (option : OptionSpec) : List Setting × Remainder :=
  if option.takesValue then ([], .awaiting option) else ([option.setting], .nothing)

/-- Takes apart what is attached to an option: its value, or further flags of one letter behind a
flag of one letter. Anything else is a value that the flag does not take or, by the late rules, left
over. -/
def expand (rules : ArgumentRules) (options : List OptionSpec) (option : OptionSpec)
    (isShort isAssigned : Bool) : List Char → Except ArgumentError (List Setting × Remainder)
  | [] =>
      if option.takesValue then .ok ([], .value option "") else .error (.superfluousValue option "")
  | char :: rest =>
      let attached := String.ofList (char :: rest)
      if option.takesValue then .ok ([], .value option attached)
      else if !isShort || (rules = .late && (isAssigned || char == '-')) then
        .error (.superfluousValue option attached)
      else
        match (namedOptions options).lookup (String.ofList ['-', char]), rules with
        | none, .early => .error (.superfluousValue option attached)
        | none, .late => .ok ([option.setting], .unknown ("-" ++ attached))
        | some next, _ => do
            let (settings, remainder) ←
              match rest, rules with
              | [], _ => pure next.alone
              | '=' :: value, .late => expand rules options next true true value
              | more, _ => expand rules options next true false more
            return (option.setting :: settings, remainder)

/-- Takes apart an argument that is an option. -/
def expandOption (rules : ArgumentRules) (options : List OptionSpec) (option : OptionSpec)
    (name : String) (attached : Option (Bool × List Char)) :
    Except ArgumentError (List Setting × Remainder) :=
  match attached with
  | some (isAssigned, chars) =>
      expand rules options option (name.toList[1]? != some '-') isAssigned chars
  | none => .ok option.alone

/-- Processes the arguments of a command. The first operand is the input, if none is `taken`. An
option whose value is missing is an error before the flags that stand with it take effect. -/
def commandArguments (rules : ArgumentRules) (options : List OptionSpec) (taken : Bool)
    (arguments : Arguments) : List (String × Role) → Except ArgumentError Arguments
  | [] => .ok arguments
  | (argument, .unknownOption) :: rest =>
      commandArguments rules options taken (arguments.leaveOver argument) rest
  | (argument, .operand) :: rest =>
      if taken then commandArguments rules options taken (arguments.leaveOver argument) rest
      else
        let chosen := { arguments with input := some argument }
        match rest with
        | (_, .separator) :: behind => commandArguments rules options true chosen behind
        | behind => commandArguments rules options true chosen behind
  | (argument, .separator) :: rest =>
      if taken then commandArguments rules options taken (arguments.leaveOver argument) rest
      else
        match rest with
        | (operand, _) :: behind =>
            commandArguments rules options true { arguments with input := some operand } behind
        | [] => .ok arguments
  | (_, .option option name attached) :: rest =>
      match expandOption rules options option name attached with
      | .error error => .error error
      | .ok (settings, remainder) =>
          let flagged := settings.foldlM Arguments.setFlag arguments
          match remainder with
          | .nothing => do commandArguments rules options taken (← flagged) rest
          | .unknown letters => do
              commandArguments rules options taken ((← flagged).leaveOver letters) rest
          | .value valued value => do
              commandArguments rules options taken (← (← flagged).setValue rules valued value) rest
          | .awaiting valued =>
              match rest with
              | (value, .operand) :: behind => do
                  let valuedArguments ← (← flagged).setValue rules valued value
                  commandArguments rules options taken valuedArguments behind
              | _ => .error (.missingValue valued)

/-- Processes the command and all that follows it. -/
def commandLine (rules : ArgumentRules) (arguments : Arguments) (name : String)
    (rest : List String) : Except ArgumentError Arguments :=
  match commands.lookup name with
  | none => .error (.invalidCommand name)
  | some command => do
      let options := commandOptions command
      commandArguments rules options false { arguments with command := some command }
        (← rolesOf options rest)

/-- Processes the arguments up to the command, and then the command. -/
def generalArguments (rules : ArgumentRules) (arguments : Arguments) :
    List (String × Role) → Except ArgumentError Arguments
  | [] => .ok arguments
  | (argument, .unknownOption) :: rest =>
      generalArguments rules (arguments.leaveOver argument) rest
  | (argument, .operand) :: rest => commandLine rules arguments argument (rest.map Prod.fst)
  | [(argument, .separator)] => .ok (arguments.leaveOver argument)
  | (argument, .separator) :: rest => commandLine rules arguments argument (rest.map Prod.fst)
  | (_, .option option name attached) :: rest => do
      let (settings, remainder) ← expandOption rules generalOptions option name attached
      let flagged ← settings.foldlM Arguments.setFlag arguments
      match remainder with
      | .unknown letters => generalArguments rules (flagged.leaveOver letters) rest
      | _ => generalArguments rules flagged rest

/-- Reads the arguments of the program. -/
def Arguments.read (rules : ArgumentRules) (argv : List String) :
    Except ArgumentError Arguments := do
  let arguments ← generalArguments rules {} (← rolesOf generalOptions argv)
  if !arguments.unrecognized.isEmpty then throw (.unrecognized arguments.unrecognized)
  return arguments

end DotLang.CommandLine
