import QuantumIR.Artifact
import QuantumIR.Assembly.Reader

/-!
# Programs

A program is the list of its functions. One block of it is chosen by name or by
position and made into an artifact.

## Main definitions

* `SelectionError`: Why no block can be chosen.
* `Program.select`: The block that is asked for.
* `ProgramError`: Why a program gives no artifact.
* `Program.summary`: All blocks with their sizes.
-/

namespace QuantumIR

/-- Why no block can be chosen. -/
inductive SelectionError where
  | noFunctions
  | functionNotFound (name : String)
  | emptyFunction (name : String)
  | blockNotFound (function block : String)
deriving DecidableEq, Repr

/-- How an error is reported. -/
def SelectionError.diagnostic : SelectionError → Diagnostic
  | noFunctions =>
    { message := "the program does not define any function", code := "Qirx.NoFunctions" }
  | functionNotFound name =>
    { message := s!"no function named `{name}`", code := "Qirx.FunctionNotFound" }
  | emptyFunction name =>
    { message := s!"function `{name}` has no blocks", code := "Qirx.EmptyFunction" }
  | blockNotFound function block =>
    { message := s!"function `{function}` has no block named `{block}`"
      code := "Qirx.BlockNotFound" }

/-- Why a program gives no artifact. -/
inductive ProgramError where
  | assembly (error : Assembly.Error)
  | selection (error : SelectionError)
  | artifact (error : ExportError)
deriving DecidableEq, Repr

/-- How an error is reported. -/
def ProgramError.diagnostic : ProgramError → Diagnostic
  | assembly error => error.diagnostic
  | selection error => error.diagnostic
  | artifact error => error.diagnostic

namespace Program

/-- The function with the given name, or the first one. -/
def selectFunction (functions : List FunctionDef) (name : Option String) :
    Except SelectionError FunctionDef :=
  match name with
  | none =>
    match functions with
    | f :: _ => .ok f
    | [] => .error .noFunctions
  | some name =>
    match functions.find? (·.name = name) with
    | some f => .ok f
    | none => .error (.functionNotFound name)

/-- The block of a function with the given name, or the first one. -/
def selectBlock (f : FunctionDef) (name : Option String) : Except SelectionError Block :=
  match name with
  | none =>
    match f.blocks.toList with
    | b :: _ => .ok b
    | [] => .error (.emptyFunction f.name)
  | some name =>
    match f.block? name with
    | some b => .ok b
    | none => .error (.blockNotFound f.name name)

/-- The block that is asked for. -/
def select (functions : List FunctionDef) (function block : Option String) :
    Except SelectionError Block :=
  match selectFunction functions function with
  | .ok f => selectBlock f block
  | .error e => .error e

/-- The line that lists a block. -/
def blockLine (b : Block) : String :=
  "  " ++ b.name ++ ": " ++ b.instructions.size.repr ++ " instruction(s)"
    ++ (if b.isQuantum then "" else " (classical)") ++ "\n"

/-- All functions with their blocks, one on a line. -/
def summary (functions : List FunctionDef) : String :=
  String.join (functions.map fun f => f.name ++ "\n" ++ String.join (f.blocks.toList.map blockLine))

end Program

end QuantumIR
