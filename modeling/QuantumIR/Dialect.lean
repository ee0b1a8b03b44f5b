import QuantumIR.Diagnostic
import QuantumIR.Intrinsic

/-!
# Dialects

What a back end may choose: the symbols of its gates and the way a wire is
written in a comment. All else about a circuit is the same for every back end.

## Main definitions

* `Gate`: A symbol and a number of qubits.
* `ArityError`: A wrong number of operands.
* `Gate.checkCount`: Refuses a wrong number of operands.
* `Dialect`: The choices of a back end.
* `Dialect.gate`, `Dialect.reset`, `Dialect.lookup?`: The gates of a dialect.
-/

namespace QuantumIR

/-- A gate as a back end writes it. -/
structure Gate where
  symbol : String
  /-- The number of qubits the gate acts on. -/
  arity : Nat
deriving DecidableEq, Repr

/-- An operation was given the wrong number of operands. -/
structure ArityError where
  /-- The symbol of a gate, or the opcode of any other intrinsic. -/
  name : String
  expected : Nat
  found : Nat
deriving DecidableEq, Repr

namespace ArityError

/-- How the error is reported. -/
def diagnostic : ArityError → Diagnostic
  | ⟨name, expected, found⟩ =>
    { message := s!"`{name}` expects {expected} operand(s) but was given {found}"
      code := "Qirx.Export.Arity"
      help := some "the instruction does not match the signature of the intrinsic it calls" }

end ArityError

namespace Gate

/-- Refuses a number of operands that is not the gate's arity. -/
def checkCount (g : Gate) (count : Nat) : Except ArityError Unit :=
  if count = g.arity then .ok () else .error ⟨g.symbol, g.arity, count⟩

end Gate

/-- The choices of a back end. -/
structure Dialect where
  /-- The symbol of a gate. -/
  symbol : GateKind → String
  /-- The symbol of the operation that resets a qubit. -/
  resetSymbol : String
  /-- How the qubit with a given number is written. -/
  qubitText : Nat → String
  /-- How the result with a given number is written. -/
  resultText : Nat → String

namespace Dialect

/-- A gate as the dialect writes it. -/
def gate (d : Dialect) (k : GateKind) : Gate :=
  ⟨d.symbol k, k.arity⟩

/-- The operation that resets a qubit. -/
def reset (d : Dialect) : Gate :=
  ⟨d.resetSymbol, 1⟩

/-- The gate for an opcode. -/
def lookup? (d : Dialect) (opcode : String) : Option Gate :=
  (GateKind.ofOpcode? opcode).map d.gate

end Dialect

end QuantumIR
