import QuantumIR.Block
import QuantumIR.Circuit.Basic
import QuantumIR.Dialect
import QuantumIR.Numbering
import QuantumIR.Text.Blank

/-!
# Emission

The single pass that turns the instructions of a block into operations. It
numbers the qubits and results as they are met, so the number of wires is known
only at the end; the operations are therefore recorded with the numbers of their
wires, and each back end makes of the record what it needs.

Instructions that a circuit cannot express are kept as comments. Only a wrong
number of operands fails, and the count is checked before any operand is
numbered. What was emitted before the failure stays: a reset emits the comment
that announces it first, so this comment remains even if the reset fails.

## Main definitions

* `Emission`: The numberings and operations so far.
* `Emission.gate`, `Emission.measure`, `Emission.comment`: One operation.
* `Emission.showQubit`, `Emission.showResult`: A wire as written in a comment.
* `Emission.Outcome`: What is left of an emission that may have failed.
* `Emission.tryGate`, `Emission.reset`: A gate whose operands are counted first.
* `Emission.step`: The effect of an instruction.
* `Emission.run`: The effect of a list of instructions.
-/

namespace QuantumIR

/-- What has been emitted so far. -/
structure Emission where
  qubits : Numbering := {}
  results : Numbering := {}
  operations : Array Operation := #[]

namespace Emission

/-- Records an operation. -/
def push (e : Emission) (o : Operation) : Emission :=
  { e with operations := e.operations.push o }

/-- The number of the qubit that an operand denotes. -/
def qubit (e : Emission) (o : Operand) : Nat × Emission :=
  let (i, t) := e.qubits.assign o.identity
  (i, { e with qubits := t })

/-- The number of the result that an operand denotes. -/
def result (e : Emission) (o : Operand) : Nat × Emission :=
  let (i, t) := e.results.assign o.identity
  (i, { e with results := t })

/-- The lines of a comment. The carriage returns at the end of each are
    dropped. -/
def commentLines (text : String) : List String :=
  (text.toList.splitOn '\n').map fun line => String.ofList (Text.dropWhileEnd (· == '\r') line)

/-- Records a comment, one remark for each of its lines. -/
def comment (e : Emission) (text : String) : Emission :=
  { e with operations := e.operations ++ ((commentLines text).map Operation.remark).toArray }

theorem toList_operations_comment (e : Emission) (text : String) :
    (e.comment text).operations.toList
      = e.operations.toList ++ (commentLines text).map Operation.remark := by
  simp [comment]

/-- Records a gate on the qubits that the operands denote, in the order given. -/
def gate (e : Emission) (symbol : String) (operands : List Operand) : Emission :=
  let (targets, t) := e.qubits.assignAll (operands.map Operand.identity)
  push { e with qubits := t } (.gate symbol targets)

/-- Measures a qubit into a result. -/
def measure (e : Emission) (qubit result : Operand) : Emission :=
  let (q, e) := e.qubit qubit
  let (r, e) := e.result result
  e.push (.measurement q r)

/-- A qubit as written in a comment. -/
def showQubit (d : Dialect) (e : Emission) (o : Operand) : String × Emission :=
  let (i, e) := e.qubit o
  (d.qubitText i, e)

/-- A result as written in a comment. -/
def showResult (d : Dialect) (e : Emission) (o : Operand) : String × Emission :=
  let (i, e) := e.result o
  (d.resultText i, e)

/-- An operand as written in a comment. A pointer that is not known to be a
    result is taken for a qubit; values are shown as they are. -/
def showOperand (d : Dialect) (e : Emission) (o : Operand) : String × Emission :=
  match o with
  | .result _ => e.showResult d o
  | .qubit _ | .pointer _ => e.showQubit d o
  | _ => (o.render, e)

/-- Operands as written in a comment, from left to right. -/
def showOperands (d : Dialect) (e : Emission) : List Operand → List String × Emission
  | [] => ([], e)
  | o :: os =>
    let (text, e) := e.showOperand d o
    let (texts, e) := e.showOperands d os
    (text :: texts, e)

/-- An instruction as text: its binding, if it has one, its opcode and its
    arguments, without blanks at the end. -/
def instructionText (output : Option String) (opcode : String) (args : List String) : String :=
  let binding := match output with
    | some name => "%" ++ name ++ " = "
    | none => ""
  String.ofList (Text.trimEnd (binding ++ opcode ++ " " ++ ", ".intercalate args).toList)

/-- Keeps an instruction that a circuit cannot express as a comment. Its wires
    are numbered all the same. -/
def keep (d : Dialect) (e : Emission) (i : Instruction) : Emission :=
  let (args, e) := e.showOperands d i.operands
  (e.comment "Unsupported QIS operation:").comment (instructionText i.output i.opcode args)

/-- Records that a result is read, under the name its value is bound to. -/
def readout (d : Dialect) (e : Emission) (output : Option String) (o : Operand) : Emission :=
  let (text, e) := e.showResult d o
  e.comment ("%" ++ output.getD "_" ++ " = " ++ text)

/-- What is left of an emission: its state, and the error that ended it if it was
    not carried through. -/
structure Outcome where
  emission : Emission
  failure : Option ArityError := none

/-- Goes on after an emission that was carried through. -/
def Outcome.bind (o : Outcome) (next : Emission → Outcome) : Outcome :=
  match o.failure with
  | none => next o.emission
  | some _ => o

/-- Applies a gate. The number of operands is checked before any of them is
    numbered, so if that fails, nothing has changed. -/
def tryGate (e : Emission) (g : Gate) (operands : List Operand) : Outcome :=
  match g.checkCount operands.length with
  | .ok _ => { emission := e.gate g.symbol operands }
  | .error err => { emission := e, failure := some err }

/-- Announces and applies a reset. -/
def reset (d : Dialect) (e : Emission) (operands : List Operand) : Outcome :=
  (e.comment "Requires nonstandard reset gate:").tryGate d.reset operands

/-- The error of an intrinsic that was not given the operands it needs. -/
def wrongCount (e : Emission) (i : Instruction) (expected : Nat) : Outcome :=
  { emission := e, failure := some ⟨i.opcode, expected, i.operands.length⟩ }

/-- The effect of an instruction. -/
def step (d : Dialect) (e : Emission) (i : Instruction) : Outcome :=
  match Role.ofOpcode i.opcode with
  | .gate kind => e.tryGate (d.gate kind) i.operands
  | .reset => e.reset d i.operands
  | .measurement =>
    match i.operands with
    | [qubit, result] => { emission := e.measure qubit result }
    | _ => e.wrongCount i 2
  | .measureReset =>
    match i.operands with
    | [qubit, result] => (e.measure qubit result).reset d [qubit]
    | _ => e.wrongCount i 2
  | .readout =>
    match i.operands with
    | [result] => { emission := e.readout d i.output result }
    | _ => e.wrongCount i 1
  | .other => { emission := e.keep d i }

/-- The effect of instructions, up to the first that fails. -/
def run (d : Dialect) (e : Emission) : List Instruction → Outcome
  | [] => { emission := e }
  | i :: is => (e.step d i).bind fun e => e.run d is

/-- The emission of a block, starting from nothing. -/
def ofBlock (d : Dialect) (b : Block) : Except ArityError Emission :=
  match run d {} b.instructions.toList with
  | ⟨e, none⟩ => .ok e
  | ⟨_, some err⟩ => .error err

/-- The circuit with the wires that were numbered and the operations that were
    recorded. -/
def toCircuit (e : Emission) : Except Circuit.Error Circuit :=
  Circuit.addAll { numQubits := e.qubits.size, numResults := e.results.size } e.operations.toList

end Emission

end QuantumIR
