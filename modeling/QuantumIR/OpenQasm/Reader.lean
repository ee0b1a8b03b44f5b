import QuantumIR.Circuit.Basic
import QuantumIR.OpenQasm.Statement
import QuantumIR.OpenQasm.Writer
import QuantumIR.Text.Lines

/-!
# Reading OpenQASM

A circuit from a text of OpenQASM 2.0, in the form in which texts are written by
this library: the version first, then at most one declaration of each kind of
register, gates without parameters on single qubits, measurements and comments.
Comments before the version belong to the text and are dropped; later ones become
remarks of the circuit.

Every line either changes the state or is refused, so the first line that is
refused decides the error, whatever comes after. A line that is wrong in itself
is reported with its number; an index that is out of range is reported as the
circuit reports it.

## Main definitions

* `Fault`: What is wrong with a line.
* `Error`: Why a text is refused.
* `State`: The state between two lines.
* `State.read`: What a line says.
* `step`: The effect of a line.
* `circuit`: The circuit of a text.
-/

namespace QuantumIR

namespace OpenQasm

open Text

/-- What is wrong with a line. -/
inductive Fault where
  /-- The first statement is not the version. -/
  | missingVersion (found : String)
  | repeatedDeclaration (kind : RegisterKind)
  | notAnElement (argument : String)
  | undeclaredRegister (name : String)
  /-- The number does not fit into 64 bits. -/
  | invalidIndex (digits : String)
  | unsupportedStatement (line : String)
deriving DecidableEq, Repr

/-- What is wrong, in words. -/
def Fault.message : Fault → String
  | missingVersion found => "expected `" ++ version ++ "`, found `" ++ found ++ "`"
  | repeatedDeclaration kind => "only one `" ++ kind.keyword ++ "` declaration is supported"
  | notAnElement argument => "expected a register element, found `" ++ argument ++ "`"
  | undeclaredRegister name => "undeclared register `" ++ name ++ "`"
  | invalidIndex digits => "`" ++ digits ++ "` is not a valid index"
  | unsupportedStatement line => "unsupported statement `" ++ line ++ "`"

/-- Why a text is refused. Lines are counted from one. -/
inductive Error where
  | malformed (line : Nat) (fault : Fault)
  | outOfRange (error : Circuit.Error)
deriving DecidableEq, Repr

/-- How an error is reported. -/
def Error.diagnostic : Error → Diagnostic
  | malformed line fault =>
    { message := "OpenQASM syntax error on line " ++ line.repr ++ ": " ++ fault.message
      code := "Qirx.Circuit.QasmSyntax" }
  | outOfRange error => error.diagnostic

/-- The state of the reader between two lines. -/
structure State where
  /-- The circuit so far. Its wire counts are the sizes of the registers. -/
  circuit : Circuit := {}
  /-- Whether the version has been met. -/
  versioned : Bool := false
  /-- The name of the quantum register, once declared. -/
  quantum : Option String := none
  /-- The name of the classical register, once declared. -/
  classical : Option String := none
deriving DecidableEq, Repr

/-- The number written in an element. -/
def index (digits : List Char) : Except Fault Nat :=
  match Decimal.unsigned64? digits with
  | some n => .ok n
  | none => .error (.invalidIndex (String.ofList digits))

/-- The index of an element, whose register must be the declared one. -/
def resolve (declared : Option String) (e : Element) : Except Fault Nat :=
  if declared = some e.register then index e.digits else .error (.undeclaredRegister e.register)

/-- The index that an argument of a gate denotes. -/
def argument (declared : Option String) (arg : List Char) : Except Fault Nat :=
  match element? arg with
  | some (e, []) => resolve declared e
  | _ => .error (.notAnElement (String.ofList arg))

/-- The indices that the arguments of a gate denote. The first that is wrong is
    reported. -/
def arguments (declared : Option String) : List (List Char) → Except Fault (List Nat)
  | [] => .ok []
  | arg :: args =>
    match argument declared arg with
    | .error f => .error f
    | .ok i => (arguments declared args).map (i :: ·)

/-- Declares a register, which no earlier line has done. -/
def State.declare (s : State) : RegisterKind → String → Nat → Except Fault State
  | .quantum, name, size =>
    if s.quantum.isSome then .error (.repeatedDeclaration .quantum)
    else .ok { s with quantum := some name, circuit := { s.circuit with numQubits := size } }
  | .classical, name, size =>
    if s.classical.isSome then .error (.repeatedDeclaration .classical)
    else .ok { s with classical := some name, circuit := { s.circuit with numResults := size } }

/-- What a statement says: the state after it, and the operation it adds to the
    circuit, if any. -/
def State.interpret (s : State) : Statement → Except Fault (State × Option Operation)
  | .inclusion => .ok (s, none)
  | .declaration kind e => do
    let size ← index e.digits
    let s ← s.declare kind e.register size
    return (s, none)
  | .measurement qubit result => do
    let q ← resolve s.quantum qubit
    let r ← resolve s.classical result
    return (s, some (.measurement q r))
  | .gate name args => do
    let targets ← arguments s.quantum args
    return (s, some (.gate name targets))

/-- The text of a comment. One space after the slashes does not belong to it. -/
def comment? (line : List Char) : Option (List Char) :=
  (literal? "//" line).map fun s => (char? ' ' s).getD s

/-- What a line without outer blanks says. -/
def State.read (s : State) (line : List Char) : Except Fault (State × Option Operation) :=
  if line.isEmpty then
    .ok (s, none)
  else
    match comment? line with
    | some text =>
      .ok (s, if s.versioned then some (.remark (String.ofList text)) else none)
    | none =>
      if s.versioned then
        match Statement.parse? line with
        | some statement => s.interpret statement
        | none => .error (.unsupportedStatement (String.ofList line))
      else if line = version.toList then
        .ok ({ s with versioned := true }, none)
      else
        .error (.missingVersion (String.ofList line))

/-- The effect of a line on the state. -/
def step (number : Nat) (line : List Char) (s : State) : Except Error State :=
  match s.read (trim line) with
  | .error f => .error (.malformed number f)
  | .ok (s, none) => .ok s
  | .ok (s, some o) =>
    match (s.circuit.add o).result with
    | .ok c => .ok { s with circuit := c }
    | .error e => .error (.outOfRange e)

/-- The effect of lines, of which the first has the given number. -/
def run : Nat → List (List Char) → State → Except Error State
  | _, [], s => .ok s
  | number, line :: rest, s =>
    match step number line s with
    | .ok s => run (number + 1) rest s
    | .error e => .error e

/-- The circuit of a text. -/
def circuit (text : String) : Except Error Circuit :=
  (run 1 (lines text.toList) {}).map State.circuit

end OpenQasm

end QuantumIR
