import QuantumIR.Binary64.Shortest

/-!
# Operands

The operands of an instruction. A pointer to a qubit or a result has an
identity only if it is a constant, since two dynamic pointers can denote the
same wire; all operands without an identity of their own therefore share one.

## Main definitions

* `Operand`: An operand as written.
* `Operand.id?`: The number of a constant pointer.
* `Operand.render`: The text of an operand.
* `Identity`: What tells operands apart when wires are numbered.
* `Operand.identity`: The identity of an operand.
-/

namespace QuantumIR

/-- An operand of an instruction. Pointer numbers are below `2^64` and integers
    have 64 bits, which the reader guarantees. -/
inductive Operand where
  /-- A pointer to a qubit. -/
  | qubit (id : Option Nat)
  /-- A pointer to a measurement result. -/
  | result (id : Option Nat)
  /-- An opaque pointer, whose kind is known only from the call it appears in. -/
  | pointer (id : Option Nat)
  | integer (value : Int)
  | double (value : Binary64)
  | bool (value : Bool)
  /-- A named value that is no pointer, without the leading `%`. -/
  | named (name : String)
  /-- A text that is none of the above. -/
  | raw (text : String)
deriving DecidableEq, Repr

/-- What tells operands apart when wires are numbered. -/
inductive Identity where
  | number (id : Nat)
  /-- Shared by all operands without an identity of their own. -/
  | unsupported
deriving DecidableEq, Repr, Hashable

namespace Identity

/-- The text of an identity. -/
def render : Identity → String
  | number id => id.repr
  | unsupported => "unsupported"

end Identity

namespace Operand

/-- The number of a constant pointer. -/
def id? : Operand → Option Nat
  | qubit id | result id | pointer id => id
  | _ => none

/-- The identity of an operand, by which wires are numbered. -/
def identity (o : Operand) : Identity :=
  match o.id? with
  | some id => .number id
  | none => .unsupported

/-- The text of a pointer of the given kind. -/
def renderPointer (kind : String) (id : Option Nat) : String :=
  kind ++ "(" ++ (id.map Nat.repr).getD "?" ++ ")"

/-- The text of an operand. -/
def render : Operand → String
  | qubit id => renderPointer "Qubit" id
  | result id => renderPointer "Result" id
  | pointer id => renderPointer "ptr" id
  | integer i => i.repr
  | double d => d.render
  | bool b => if b then "true" else "false"
  | named name => "%" ++ name
  | raw text => text

end Operand

end QuantumIR
