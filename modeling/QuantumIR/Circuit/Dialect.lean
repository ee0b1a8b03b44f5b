import QuantumIR.Dialect

/-!
# Circuit Symbols

The gate symbols of circuits that are built directly from a block. Wires in
comments are plain numbers.
-/

namespace QuantumIR

namespace Circuit

/-- The symbol of a gate in a circuit. -/
def symbol : GateKind → String
  | .x => "X"
  | .y => "Y"
  | .z => "Z"
  | .h => "H"
  | .s => "S"
  | .sAdj => "Sadj"
  | .t => "T"
  | .tAdj => "Tadj"
  | .cnot => "CNOT"
  | .cx => "CX"
  | .cy => "CY"
  | .cz => "CZ"
  | .swap => "SWAP"
  | .ccx => "CCX"

/-- How circuits write gates and wires. -/
def dialect : Dialect where
  symbol := symbol
  resetSymbol := "Reset"
  qubitText := Nat.repr
  resultText := Nat.repr

end Circuit

end QuantumIR
