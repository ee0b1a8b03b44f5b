import QuantumIR.Program

/-!
# Command Line

The arguments of the command, and what a run does with the text of its input.

Arguments are read from left to right, and the first thing that decides is what
counts: a mistake, or a request for help or for the version. Options can be
followed by their value or have it attached; every option and flag can be given
once. After `--` everything is an input.

Nothing here reads or writes files. A run is a function from the text of the input
to an effect, which the outer layer carries out.

## Main definitions

* `Argument`: The shape of one argument.
* `Event`: What one or two arguments ask for.
* `events`: What the arguments ask for, in order.
* `UsageError`: Why arguments are refused.
* `Invocation`: What is to be exported, and how.
* `Request`: A run, or a request for information.
* `parse`: The request that arguments make.
* `Invocation.run`: The effect of a run.
-/

namespace QuantumIR

namespace Command

/-- An option that takes a value. -/
inductive ValueOption where
  | function
  | block
  | target
  | output
deriving DecidableEq, Repr

/-- The long name of an option. -/
def ValueOption.name : ValueOption → String
  | function => "function"
  | block => "block"
  | target => "target"
  | output => "output"

/-- An option without a value. -/
inductive Flag where
  | json
  | list
  | help
  | version
deriving DecidableEq, Repr

/-- The long name of a flag. -/
def Flag.name : Flag → String
  | json => "json"
  | list => "list"
  | help => "help"
  | version => "version"

/-- An option or a flag. -/
inductive OptionKind where
  | value (option : ValueOption)
  | flag (flag : Flag)
deriving DecidableEq, Repr

/-- The option with a long name. -/
def OptionKind.ofName? (name : String) : Option OptionKind :=
  (([.function, .block, .target, .output].find? fun o => ValueOption.name o = name).map .value)
    |>.or (([.json, .list, .help, .version].find? fun f => Flag.name f = name).map .flag)

/-- The option with a short name. -/
def OptionKind.ofLetter? : Char → Option OptionKind
  | 't' => some (.value .target)
  | 'o' => some (.value .output)
  | 'h' => some (.flag .help)
  | 'V' => some (.flag .version)
  | _ => none

/-- Why arguments are refused. -/
inductive UsageError where
  | missingInput
  | missingValue (option : ValueOption)
  | unexpectedValue (flag : Flag)
  | repeated (name : String)
  | unknownOption (argument : String)
  | unexpectedArgument (argument : String)
  | invalidTarget (name : String)
  | emptyPath
deriving DecidableEq, Repr

/-- What is wrong with the arguments, in words. -/
def UsageError.message : UsageError → String
  | missingInput => "an input is required"
  | missingValue option => "--" ++ option.name ++ " needs a value"
  | unexpectedValue flag => "--" ++ flag.name ++ " takes no value"
  | repeated name => "--" ++ name ++ " can be given only once"
  | unknownOption argument => "unknown option " ++ argument
  | unexpectedArgument argument => "unexpected argument " ++ argument
  | invalidTarget name => "unknown target " ++ name
  | emptyPath => "a path must not be empty"

/-- The shape of one argument. -/
inductive Argument where
  /-- Two dashes, after which all is input. -/
  | endOfOptions
  /-- An option, with the value that is attached to it. -/
  | option (kind : OptionKind) (value : Option String)
  /-- Something that looks like an option and is none. -/
  | unknown
  /-- Anything else, a dash alone included. -/
  | plain (text : String)
deriving DecidableEq, Repr

/-- The value attached to a short option, if any: an equals sign in front of it
    is dropped. -/
def attached? : List Char → Option String
  | [] => none
  | '=' :: value => some (String.ofList value)
  | value => some (String.ofList value)

/-- An argument with two dashes and a text: a name, and a value after the first
    equals sign. -/
def Argument.ofLong (body : List Char) : Argument :=
  match OptionKind.ofName? (String.ofList (body.takeWhile (· != '='))) with
  | some kind => option kind ((body.dropWhile (· != '=')).tail?.map String.ofList)
  | none => unknown

/-- An argument with one dash, a letter and a rest. What follows a flag are more
    letters, which do not matter because both flags end the reading. -/
def Argument.ofShort (letter : Char) (rest : List Char) : Argument :=
  match OptionKind.ofLetter? letter with
  | some (.value o) => option (.value o) (attached? rest)
  | some (.flag f) => option (.flag f) none
  | none => unknown

/-- The shape of an argument. -/
def Argument.ofString (arg : String) : Argument :=
  match arg.toList with
  | ['-', '-'] => endOfOptions
  | '-' :: '-' :: body => ofLong body
  | '-' :: letter :: rest => ofShort letter rest
  | _ => plain arg

/-- What arguments ask for. -/
inductive Event where
  | input (path : String)
  | set (option : ValueOption) (value : String)
  | raise (flag : Flag)
  | fault (error : UsageError)
deriving DecidableEq, Repr

/-- What the arguments ask for, in order. An option without an attached value
    takes the next argument, which must not look like an option. -/
def events : List String → List Event
  | [] => []
  | arg :: rest =>
    match Argument.ofString arg with
    | .endOfOptions => rest.map .input
    | .plain text => .input text :: events rest
    | .unknown => [.fault (.unknownOption arg)]
    | .option (.flag f) none => .raise f :: events rest
    | .option (.flag f) (some _) => [.fault (.unexpectedValue f)]
    | .option (.value o) (some v) => .set o v :: events rest
    | .option (.value o) none =>
      match rest with
      | [] => [.fault (.missingValue o)]
      | next :: rest =>
        match Argument.ofString next with
        | .plain v => .set o v :: events rest
        | _ => [.fault (.missingValue o)]

/-- What the arguments so far have settled. -/
structure Settings where
  input : Option String := none
  function : Option String := none
  block : Option String := none
  target : Option Target := none
  output : Option String := none
  json : Bool := false
  list : Bool := false
deriving DecidableEq, Repr

/-- What is to be exported, and how. -/
structure Invocation where
  /-- The path of the program. -/
  input : String
  function : Option String := none
  block : Option String := none
  target : Target := .openQasm
  json : Bool := false
  /-- The path to write to, instead of printing. -/
  output : Option String := none
  /-- Whether the blocks are listed instead. -/
  list : Bool := false
deriving DecidableEq, Repr

/-- What the arguments ask for as a whole. -/
inductive Request where
  | help
  | version
  | run (invocation : Invocation)
deriving DecidableEq, Repr

/-- Fails if something is given for the second time. -/
def once (given : Bool) (name : String) : Except UsageError Unit :=
  if given then .error (.repeated name) else .ok ()

/-- A path, which must not be empty. -/
def path (text : String) : Except UsageError String :=
  if text = "" then .error .emptyPath else .ok text

namespace Settings

/-- Settles the input, of which there is one. -/
def setInput (s : Settings) (text : String) : Except UsageError Settings := do
  if s.input.isSome then
    throw (.unexpectedArgument text)
  return { s with input := some (← path text) }

/-- Settles the value of an option. -/
def set (s : Settings) (option : ValueOption) (value : String) : Except UsageError Settings :=
  match option with
  | .function => do
    once s.function.isSome option.name
    return { s with function := some value }
  | .block => do
    once s.block.isSome option.name
    return { s with block := some value }
  | .target => do
    once s.target.isSome option.name
    match Target.ofName? value with
    | some t => return { s with target := some t }
    | none => throw (.invalidTarget value)
  | .output => do
    once s.output.isSome option.name
    return { s with output := some (← path value) }

/-- The run that was settled. -/
def finish (s : Settings) : Except UsageError Request :=
  match s.input with
  | none => .error .missingInput
  | some input =>
    .ok (.run { input, function := s.function, block := s.block, target := s.target.getD .openQasm,
                json := s.json, output := s.output, list := s.list })

end Settings

/-- The request that events make, given what is settled already. The first event
    that decides ends the reading. -/
def request (s : Settings) : List Event → Except UsageError Request
  | [] => s.finish
  | .fault e :: _ => .error e
  | .raise .help :: _ => .ok .help
  | .raise .version :: _ => .ok .version
  | .raise .json :: rest => do
    once s.json "json"
    request { s with json := true } rest
  | .raise .list :: rest => do
    once s.list "list"
    request { s with list := true } rest
  | .input text :: rest => do request (← s.setInput text) rest
  | .set option value :: rest => do request (← s.set option value) rest

/-- The request that arguments make. -/
def parse (args : List String) : Except UsageError Request :=
  request {} (events args)

/-- What a run does to the outside. -/
inductive Effect where
  | print (text : String)
  | write (path text : String)
deriving DecidableEq, Repr

/-- The effect of a run on the program with the given text. The printed result is
    followed by a line feed; a listing ends in one already. -/
def Invocation.run (i : Invocation) (text : String) : Except ProgramError Effect := do
  let functions ← (Assembly.functions text).mapError .assembly
  if i.list then
    return .print (Program.summary functions.toList)
  let block ← (Program.select functions.toList i.function i.block).mapError .selection
  let artifact ← (Artifact.ofBlock i.target block).mapError .artifact
  let rendered := if i.json then artifact.toJson else artifact.render
  match i.output with
  | some path => return .write path rendered
  | none => return .print (rendered ++ "\n")

/-- The line that answers a request for the version. -/
def versionText : String := "qirx 0.0.0\n"

/-- The text that answers a request for help. -/
def helpText : String :=
  "Exports a basic block of a QIR program as OpenQASM 2.0 or as a circuit\n\n"
    ++ "Usage: qirx [OPTIONS] <INPUT>\n\n"
    ++ "      --function <FUNCTION>  Function containing the block [default: the first function]\n"
    ++ "      --block <BLOCK>        Label of the block [default: the entry block]\n"
    ++ "  -t, --target <TARGET>      openqasm2, circuit or qasm-circuit [default: openqasm2]\n"
    ++ "      --json                 Print the result as JSON\n"
    ++ "  -o, --output <OUTPUT>      Write the result to this file instead of stdout\n"
    ++ "      --list                 List the functions and blocks of the program and exit\n"
    ++ "  -h, --help                 Print help\n"
    ++ "  -V, --version              Print version\n"

end Command

end QuantumIR
