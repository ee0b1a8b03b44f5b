import QuantumIR.Diagnostic

/-!
# Circuits

A circuit has a fixed number of qubits and results and a list of operations on
them. Operations are added one by one, and one that refers to a wire the circuit
does not have is refused; a refused operation leaves the circuit as it was.

## Main definitions

* `Operation`: A gate, a measurement or a remark.
* `Circuit`: Wire counts and operations.
* `Circuit.Error`: A wire that the circuit does not have.
* `Circuit.Outcome`: The circuit after a call, and the error if the call was refused.
* `Circuit.gate`, `Circuit.measure`, `Circuit.annotate`: Adding one operation.
* `Circuit.addAll`: Adding operations until one is refused.
* `Circuit.render`: The printed form.
* `Circuit.wireOperations`: The operations that act on wires.
-/

namespace QuantumIR

/-- An operation of a circuit. Wires are counted from zero. -/
inductive Operation where
  | gate (name : String) (targets : List Nat)
  | measurement (qubit result : Nat)
  /-- A remark, which acts on nothing. -/
  | remark (text : String)
deriving DecidableEq, Repr

/-- A circuit: the number of its wires, and its operations in order. -/
structure Circuit where
  numQubits : Nat := 0
  numResults : Nat := 0
  operations : Array Operation := #[]
deriving DecidableEq, Repr

namespace Operation

/-- The operation on a line of its own: qubits are `q_`, results are `c_`. -/
def render : Operation → String
  | gate name targets => name ++ " " ++ ", ".intercalate (targets.map fun q => "q_" ++ q.repr)
  | measurement qubit result => "M q_" ++ qubit.repr ++ " -> c_" ++ result.repr
  | remark text => "# " ++ text

/-- Whether the operation is a remark. -/
def isRemark : Operation → Bool
  | remark _ => true
  | _ => false

end Operation

namespace Circuit

/-- A wire that the circuit does not have. -/
inductive Error where
  | qubitOutOfRange (qubit numQubits : Nat)
  | resultOutOfRange (result numResults : Nat)
deriving DecidableEq, Repr

namespace Error

/-- How the error is reported. -/
def diagnostic : Error → Diagnostic
  | qubitOutOfRange qubit numQubits =>
    { message := s!"qubit {qubit} is outside of a circuit with {numQubits} qubit(s)"
      code := "Qirx.Circuit.QubitOutOfRange" }
  | resultOutOfRange result numResults =>
    { message := s!"result {result} is outside of a circuit with {numResults} result(s)"
      code := "Qirx.Circuit.ResultOutOfRange" }

end Error

/-- The circuit with one more operation at the end, unchecked. -/
def push (c : Circuit) (o : Operation) : Circuit :=
  { c with operations := c.operations.push o }

theorem toList_operations_push (c : Circuit) (o : Operation) :
    (c.push o).operations.toList = c.operations.toList ++ [o] := by
  simp [push]

/-- What a call leaves: the circuit after it, and the error if the call was
    refused. -/
structure Outcome where
  circuit : Circuit
  failure : Option Error := none
deriving DecidableEq, Repr

/-- The circuit after a call, for a caller who gives up if the call was refused. -/
def Outcome.result (o : Outcome) : Except Error Circuit :=
  match o.failure with
  | none => .ok o.circuit
  | some err => .error err

/-- Adds a gate. The first target that the circuit does not have is reported. -/
def gate (c : Circuit) (name : String) (targets : List Nat) : Outcome :=
  match targets.find? (c.numQubits ≤ ·) with
  | some qubit => { circuit := c, failure := some (.qubitOutOfRange qubit c.numQubits) }
  | none => { circuit := c.push (.gate name targets) }

/-- Adds a measurement. The qubit is checked before the result. -/
def measure (c : Circuit) (qubit result : Nat) : Outcome :=
  if c.numQubits ≤ qubit then
    { circuit := c, failure := some (.qubitOutOfRange qubit c.numQubits) }
  else if c.numResults ≤ result then
    { circuit := c, failure := some (.resultOutOfRange result c.numResults) }
  else
    { circuit := c.push (.measurement qubit result) }

/-- Adds a remark. -/
def annotate (c : Circuit) (text : String) : Circuit :=
  c.push (.remark text)

/-- Adds an operation. -/
def add (c : Circuit) : Operation → Outcome
  | .gate name targets => c.gate name targets
  | .measurement qubit result => c.measure qubit result
  | .remark text => { circuit := c.annotate text }

/-- Adds operations one after the other, until one is refused. -/
def addAll (c : Circuit) : List Operation → Except Error Circuit
  | [] => .ok c
  | o :: os =>
    match (c.add o).result with
    | .ok c => c.addAll os
    | .error e => .error e

/-- The operations that act on wires. -/
def wireOperations (c : Circuit) : List Operation :=
  c.operations.toList.filter fun o => !o.isRemark

/-- The printed form: a line with the wire counts and one for each operation. -/
def render (c : Circuit) : String :=
  let first := "qubits: " ++ c.numQubits.repr ++ ", results: " ++ c.numResults.repr
  String.join ((first :: c.operations.toList.map Operation.render).map (· ++ "\n"))

end Circuit

end QuantumIR
