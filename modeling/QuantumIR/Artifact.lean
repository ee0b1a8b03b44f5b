import QuantumIR.Circuit.Dialect
import QuantumIR.Circuit.Json
import QuantumIR.OpenQasm.Reader

/-!
# Artifacts

What can be made of a block: OpenQASM text, a circuit built directly, or the
circuit that the OpenQASM text describes. The last two have the same wires and the
same operations in the same order, but for gate symbols and for the texts of remarks:
a remark that is read back names wires as elements of registers, and has lost the
blanks at its end.

## Main definitions

* `Target`: The artifact that is asked for.
* `Target.dialect`: The dialect in which its block is emitted.
* `Artifact`: The artifact that is made.
* `ExportError`: Why none could be made.
* `Artifact.ofBlock`: The artifact of a block.
* `Artifact.render`, `Artifact.toJson`: Its two texts.

## Theorems

* `Artifact.ofBlock_eq_ok_iff`: An artifact is made of a block through its emission.
-/

namespace QuantumIR

/-- The artifact that is asked for. -/
inductive Target where
  | openQasm
  | circuit
  /-- The circuit read back from OpenQASM text. -/
  | openQasmCircuit
deriving DecidableEq, Repr

namespace Target

/-- The name of a target. -/
def name : Target → String
  | openQasm => "openqasm2"
  | circuit => "circuit"
  | openQasmCircuit => "qasm-circuit"

/-- The target with a given name. -/
def ofName? (name : String) : Option Target :=
  [openQasm, circuit, openQasmCircuit].find? fun t => t.name = name

/-- Every target is found by its own name. -/
theorem ofName?_name (t : Target) : ofName? t.name = some t := by
  cases t <;> decide

/-- The dialect in which a block is emitted for the target. -/
def dialect : Target → Dialect
  | circuit => Circuit.dialect
  | openQasm | openQasmCircuit => OpenQasm.dialect

end Target

/-- What is made of a block. -/
inductive Artifact where
  | text (text : String)
  | circuit (circuit : Circuit)
deriving DecidableEq, Repr

/-- Why no artifact could be made. -/
inductive ExportError where
  | arity (error : ArityError)
  | circuit (error : Circuit.Error)
  | openQasm (error : OpenQasm.Error)
deriving DecidableEq, Repr

/-- How an error is reported. -/
def ExportError.diagnostic : ExportError → Diagnostic
  | arity error => error.diagnostic
  | circuit error => error.diagnostic
  | openQasm error => error.diagnostic

namespace Artifact

/-- The artifact of an emission from the block with the given name. -/
def ofEmission (target : Target) (blockName : String) (e : Emission) :
    Except ExportError Artifact :=
  match target with
  | .openQasm => .ok (.text (OpenQasm.text blockName e))
  | .circuit => (e.toCircuit.map .circuit).mapError .circuit
  | .openQasmCircuit =>
    ((OpenQasm.circuit (OpenQasm.text blockName e)).map .circuit).mapError .openQasm

/-- The artifact of a block. -/
def ofBlock (target : Target) (b : Block) : Except ExportError Artifact :=
  match Emission.ofBlock target.dialect b with
  | .ok e => ofEmission target b.name e
  | .error err => .error (.arity err)

/-- An artifact is made of a block if it is made of its emission. -/
theorem ofBlock_eq_ok_iff {target : Target} {b : Block} {a : Artifact} :
    ofBlock target b = .ok a
      ↔ ∃ e, Emission.ofBlock target.dialect b = .ok e ∧ ofEmission target b.name e = .ok a := by
  rw [ofBlock]
  cases Emission.ofBlock target.dialect b with
  | ok e => simp
  | error err => simp

/-- The printed form. -/
def render : Artifact → String
  | text t => t
  | circuit c => c.render

/-- The JSON text: a single string, or an indented object. -/
def toJson : Artifact → String
  | text t => (Json.string (Json.units t)).pretty
  | circuit c => c.toJson.pretty

end Artifact

end QuantumIR
