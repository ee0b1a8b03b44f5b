import QuantumIR.Command

/-!
# The Command

Reads the input file, carries out the effect of the run, and reports failures on
the standard error stream. The exit code is 2 for arguments that are refused and 1
for any other failure.
-/

open QuantumIR

/-- Reports a failure of a run. -/
def reportFailure (message : String) (help : Option String) : IO UInt32 := do
  IO.eprintln ("error: " ++ message)
  for hint in help do
    IO.eprintln ("help: " ++ hint)
  return 1

/-- Carries out an effect. -/
def carryOut (effect : Command.Effect) : IO UInt32 := do
  match effect with
  | .print text =>
    IO.print text
    return 0
  | .write path text =>
    try
      IO.FS.writeFile path text
      return 0
    catch _ => reportFailure ("could not write " ++ path) none

/-- Runs the command on a file. -/
def runInvocation (i : Command.Invocation) : IO UInt32 := do
  let text ← try pure (some (← IO.FS.readFile i.input)) catch _ => pure none
  match text with
  | none => reportFailure ("could not read " ++ i.input) none
  | some text =>
    match i.run text with
    | .ok effect => carryOut effect
    | .error e => reportFailure e.diagnostic.message e.diagnostic.help

/-- The command. -/
def main (args : List String) : IO UInt32 := do
  match Command.parse args with
  | .ok .help =>
    IO.print Command.helpText
    return 0
  | .ok .version =>
    IO.print Command.versionText
    return 0
  | .ok (.run i) => runInvocation i
  | .error e =>
    IO.eprintln ("error: " ++ e.message)
    return 2
