import QuantumIR.Assembly.Line
import QuantumIR.Diagnostic
import QuantumIR.Text.Lines

/-!
# Reading Assembly

Functions out of a text of assembly, line by line. Outside a function only the
line that opens the next one matters: declarations, attributes and metadata are
passed over. Inside a function every line counts until the one that holds the
closing brace alone, and a line that has no known shape is an error.

The reader is a state machine over the lines, and the state is all that earlier
lines can tell later ones: the functions that are finished, what is known of the
one that is open, and whether a table of jump targets goes on. An error is raised
at the first line that causes it, whatever comes after.

## Main definitions

* `Error`: Why a text is refused.
* `OpenFunction`: A function whose closing brace has not been met.
* `State`: The state between two lines.
* `step`: The effect of a line.
* `functions`: The functions of a text.
-/

namespace QuantumIR

namespace Assembly

open Text

/-- Why a text is refused. Lines are counted from one. -/
inductive Error where
  | unterminatedFunction (name : String)
  | malformedCall (line : Nat) (text : String)
  | malformedInstruction (line : Nat) (text : String)
deriving DecidableEq, Repr

namespace Error

/-- How an error is reported. -/
def diagnostic : Error → Diagnostic
  | unterminatedFunction name =>
    { message := s!"function `{name}` is missing its closing brace"
      code := "Qirx.Reader.UnterminatedFunction" }
  | malformedCall line text =>
    { message := s!"malformed call instruction on line {line}: {text}"
      code := "Qirx.Reader.MalformedCall"
      help := some "calls are expected in the form `call <type> @<name>(<args>)`" }
  | malformedInstruction line text =>
    { message := s!"malformed instruction on line {line}: {text}"
      code := "Qirx.Reader.MalformedInstruction" }

end Error

/-- A function whose closing brace has not been met. -/
structure OpenFunction where
  name : String
  /-- The blocks before the one being filled. -/
  earlier : Array Block := #[]
  /-- The block being filled; there is none before the first label or
      instruction. -/
  current : Option Block := none
deriving DecidableEq, Repr

namespace OpenFunction

/-- The name of a first block that has no label. -/
def implicitLabel : String := "0"

/-- All blocks so far. -/
def blocks (f : OpenFunction) : Array Block :=
  f.earlier ++ f.current.toArray

/-- The function as it is when it ends here. -/
def close (f : OpenFunction) : FunctionDef :=
  { name := f.name, blocks := f.blocks }

/-- Starts a block. -/
def startBlock (f : OpenFunction) (label : String) : OpenFunction :=
  { f with earlier := f.blocks, current := some { name := label } }

/-- Adds an instruction to the block being filled. -/
def push (f : OpenFunction) (i : Instruction) : OpenFunction :=
  { f with current := some ((f.current.getD { name := implicitLabel }).push i) }

theorem blocks_startBlock (f : OpenFunction) (label : String) :
    (f.startBlock label).blocks = f.blocks.push { name := label } := by
  simp [startBlock, blocks]

end OpenFunction

/-- The state of the reader between two lines. -/
structure State where
  /-- The functions that are finished. -/
  finished : Array FunctionDef := #[]
  /-- The function that is open, if any. -/
  current : Option OpenFunction := none
  /-- Whether the next line belongs to a table of jump targets. Only lines inside of
      functions look at this, and neither a header nor a closing brace changes it. -/
  inTable : Bool := false
deriving DecidableEq, Repr

/-- The instruction on a line, which must have the shape that its kind asks
    for. -/
def instruction (number : Nat) (line : List Char) : Except Error Instruction :=
  if mentionsCall line then
    match call? line with
    | some i => .ok i
    | none => .error (.malformedCall number (String.ofList line))
  else
    match plain? line with
    | some i => .ok i
    | none => .error (.malformedInstruction number (String.ofList line))

/-- The effect of a line that is not empty inside a function. The first of these
    decides: an open table, the closing brace, a label, a terminator, and last an
    instruction. -/
def stepInside (number : Nat) (line : List Char) (s : State) (f : OpenFunction) :
    Except Error State :=
  if s.inTable then
    .ok { s with inTable := !line.contains ']' }
  else if line = ['\x7d'] then
    .ok { s with finished := s.finished.push f.close, current := none }
  else
    match label? line with
    | some label => .ok { s with current := some (f.startBlock label) }
    | none =>
      if isTerminator line then
        .ok { s with inTable := opensTable line }
      else
        (instruction number line).map fun i => { s with current := some (f.push i) }

/-- The effect of a line that is not empty outside all functions. -/
def stepOutside (line : List Char) (s : State) : State :=
  match header? line with
  | some name => { s with current := some { name } }
  | none => s

/-- The effect of a line, whose content is given, on the state. -/
def step (number : Nat) (line : List Char) (s : State) : Except Error State :=
  if line.isEmpty then
    .ok s
  else
    match s.current with
    | none => .ok (stepOutside line s)
    | some f => stepInside number line s f

/-- The effect of lines, of which the first has the given number. -/
def run : Nat → List (List Char) → State → Except Error State
  | _, [], s => .ok s
  | number, line :: rest, s =>
    match step number (content line) s with
    | .ok s => run (number + 1) rest s
    | .error e => .error e

/-- The functions read, provided that none is still open. -/
def State.finish (s : State) : Except Error (Array FunctionDef) :=
  match s.current with
  | none => .ok s.finished
  | some f => .error (.unterminatedFunction f.name)

/-- The functions of a text, in the order written. -/
def functions (text : String) : Except Error (Array FunctionDef) :=
  match run 1 (lines text.toList) {} with
  | .ok s => s.finish
  | .error e => .error e

end Assembly

end QuantumIR
