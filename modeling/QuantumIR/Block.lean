import QuantumIR.Operand

/-!
# Functions, Blocks and Instructions

The part of a program that is kept: functions made of blocks, each a straight
line of instructions. How control leaves a block is not kept, because a circuit
is made from one block at a time.

## Main definitions

* `Instruction`: An operation with its operands and the name of its value.
* `Block`: A named straight line of instructions.
* `Block.isQuantum`: Whether a block needs no classical computation.
* `FunctionDef`: A named list of blocks.
* `FunctionDef.block?`: The first block with a name.
-/

namespace QuantumIR

/-- An instruction. The opcode of a call is the name of what is called. -/
structure Instruction where
  opcode : String
  operands : List Operand
  /-- The name the value is bound to, without the leading `%`. -/
  output : Option String := none
deriving DecidableEq, Repr

/-- A straight line of instructions. -/
structure Block where
  name : String
  instructions : Array Instruction := #[]
deriving DecidableEq, Repr

/-- The body of a function, with the blocks in the order written. -/
structure FunctionDef where
  name : String
  blocks : Array Block := #[]
deriving DecidableEq, Repr

namespace Instruction

/-- Whether the instruction calls an intrinsic of the quantum instruction set or
    reads a measurement result. No other call of the runtime qualifies. -/
def isQuantum (i : Instruction) : Bool :=
  i.opcode = "__quantum__rt__read_result"
    || "__quantum__qis__".toList.isPrefixOf i.opcode.toList
    || "__quantum__qir__".toList.isPrefixOf i.opcode.toList

end Instruction

namespace Block

/-- The block with one more instruction at the end. -/
def push (b : Block) (i : Instruction) : Block :=
  { b with instructions := b.instructions.push i }

/-- Whether the block can be expressed as a circuit without classical
    computation. -/
def isQuantum (b : Block) : Bool :=
  b.instructions.toList.all Instruction.isQuantum

end Block

namespace FunctionDef

/-- The first block with the given name. -/
def block? (f : FunctionDef) (name : String) : Option Block :=
  f.blocks.toList.find? (·.name = name)

end FunctionDef

end QuantumIR
