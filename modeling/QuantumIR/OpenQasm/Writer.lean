import QuantumIR.Emission

/-!
# Writing OpenQASM

The text of an emission in OpenQASM 2.0: a preamble, the declarations of the
registers that are not empty, and one line for each recorded operation. There is
one quantum register `q` and one classical register `c`.

## Main definitions

* `qubit`, `result`: A wire as an element of its register.
* `dialect`: How OpenQASM writes gates and wires.
* `line`: The line of an operation.
* `preamble`, `registers`, `body`: The parts of a text.
* `text`: The whole text.
-/

namespace QuantumIR

namespace OpenQasm

/-- The qubit with the given number. -/
def qubit (i : Nat) : String :=
  "q[" ++ i.repr ++ "]"

/-- The result with the given number. -/
def result (i : Nat) : String :=
  "c[" ++ i.repr ++ "]"

/-- The symbol of a gate in OpenQASM. -/
def symbol : GateKind → String
  | .x => "x"
  | .y => "y"
  | .z => "z"
  | .h => "h"
  | .s => "s"
  | .sAdj => "sdg"
  | .t => "t"
  | .tAdj => "tdg"
  | .cnot => "CX"
  | .cx => "cx"
  | .cy => "cy"
  | .cz => "cz"
  | .swap => "swap"
  | .ccx => "ccx"

/-- How OpenQASM writes gates and wires. -/
def dialect : Dialect where
  symbol := symbol
  resetSymbol := "reset"
  qubitText := qubit
  resultText := result

/-- The line of an operation. -/
def line : Operation → String
  | .gate name targets => name ++ " " ++ ", ".intercalate (targets.map qubit) ++ ";"
  | .measurement q r => "measure " ++ qubit q ++ " -> " ++ result r ++ ";"
  | .remark text => "// " ++ text

/-- The line that states the version of the language. -/
def version : String := "OPENQASM 2.0;"

/-- The lines before the declarations. -/
def preamble (blockName : String) : List String :=
  ["// Generated from QIR block " ++ blockName ++ ".", version, "include \"qelib1.inc\";", ""]

/-- The declaration of a register, unless it is empty. -/
def declaration (keyword name : String) (size : Nat) : List String :=
  if size = 0 then [] else [keyword ++ " " ++ name ++ "[" ++ size.repr ++ "];"]

/-- The declarations of both registers. -/
def registers (e : Emission) : List String :=
  declaration "qreg" "q" e.qubits.size ++ declaration "creg" "c" e.results.size

/-- The lines of the operations. -/
def body (e : Emission) : List String :=
  e.operations.toList.map line

/-- The text of an emission from the block with the given name. Its last line is
    not ended. -/
def text (blockName : String) (e : Emission) : String :=
  "\n".intercalate (preamble blockName ++ registers e ++ body e)

end OpenQasm

end QuantumIR
