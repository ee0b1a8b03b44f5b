/-!
# Intrinsics

The intrinsics of the quantum instruction set that have a meaning in a circuit,
told apart by the opcode of the call. An instruction with any other opcode has
no meaning there and can only be kept as a comment.

## Main definitions

* `GateKind`: The gates that have an intrinsic.
* `GateKind.opcode`, `GateKind.arity`: Name of the intrinsic and number of qubits.
* `GateKind.ofOpcode?`: The gate with a given opcode.
* `Role`: What an instruction does in a circuit.
* `Role.ofOpcode`: The role of an opcode.

## Theorems

* `ofOpcode?_opcode`: Every gate is found by its own opcode.
-/

namespace QuantumIR

/-- The gates that have an intrinsic. -/
inductive GateKind where
  | x | y | z | h | s | sAdj | t | tAdj | cnot | cx | cy | cz | swap | ccx
deriving DecidableEq, Repr

namespace GateKind

/-- All gates, in the order in which they are listed. -/
def all : List GateKind :=
  [x, y, z, h, s, sAdj, t, tAdj, cnot, cx, cy, cz, swap, ccx]

/-- The opcode of a call of the gate's intrinsic. -/
def opcode : GateKind → String
  | x => "__quantum__qis__x__body"
  | y => "__quantum__qis__y__body"
  | z => "__quantum__qis__z__body"
  | h => "__quantum__qis__h__body"
  | s => "__quantum__qis__s__body"
  | sAdj => "__quantum__qis__s__adj"
  | t => "__quantum__qis__t__body"
  | tAdj => "__quantum__qis__t__adj"
  | cnot => "__quantum__qis__cnot__body"
  | cx => "__quantum__qis__cx__body"
  | cy => "__quantum__qis__cy__body"
  | cz => "__quantum__qis__cz__body"
  | swap => "__quantum__qis__swap__body"
  | ccx => "__quantum__qis__ccx__body"

/-- The number of qubits the gate acts on. -/
def arity : GateKind → Nat
  | x | y | z | h | s | sAdj | t | tAdj => 1
  | cnot | cx | cy | cz | swap => 2
  | ccx => 3

/-- The gate whose intrinsic has the given opcode. -/
def ofOpcode? (name : String) : Option GateKind :=
  all.find? fun k => k.opcode = name

/-- Every gate is found by its own opcode. -/
theorem ofOpcode?_opcode (k : GateKind) : ofOpcode? k.opcode = some k := by
  cases k <;> decide

end GateKind

/-- What an instruction does in a circuit. -/
inductive Role where
  | gate (kind : GateKind)
  | reset
  /-- Measures a qubit into a result. -/
  | measurement
  /-- Measures a qubit into a result and then resets the qubit. -/
  | measureReset
  /-- Makes the value of a result available to the program. -/
  | readout
  /-- Nothing that a circuit can express. -/
  | other
deriving DecidableEq, Repr

namespace Role

/-- The role of an opcode. -/
def ofOpcode (opcode : String) : Role :=
  match GateKind.ofOpcode? opcode with
  | some kind => .gate kind
  | none =>
    if opcode = "__quantum__qis__reset__body" then .reset
    else if opcode ∈ ["__quantum__qis__mz__body", "__quantum__qis__m__body"] then .measurement
    else if opcode = "__quantum__qis__mresetz__body" then .measureReset
    else if opcode ∈ ["__quantum__qir__read_result", "__quantum__rt__read_result"] then .readout
    else .other

end Role

end QuantumIR
