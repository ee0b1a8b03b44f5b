import QuantumIR.Decimal
import QuantumIR.Text.Word

/-!
# OpenQASM Statements

The statements that can be read, by the shape of their line alone: a statement
names registers and gives indices as written, and whether the registers exist
and the indices are in range is not asked here. A line stands without blanks at
its ends.

A line can have more than one shape, and the first that fits decides. In
particular every statement that ends in a semicolon and is no declaration and no
complete measurement is taken for a gate, whatever its name.

## Main definitions

* `RegisterKind`: Quantum or classical.
* `Element`: A register and an index in it.
* `Statement`: A statement of one line.
* `Statement.parse?`: The statement of a line.
-/

namespace QuantumIR

namespace OpenQasm

open Text

/-- The kind of a register. -/
inductive RegisterKind where
  | quantum
  | classical
deriving DecidableEq, Repr

/-- The keyword that declares a register. -/
def RegisterKind.keyword : RegisterKind → String
  | quantum => "qreg"
  | classical => "creg"

/-- A register followed by a number in brackets. In a declaration the number is
    the size of the register, elsewhere an index. -/
structure Element where
  register : String
  /-- The digits of the number, of any length. -/
  digits : List Char
deriving DecidableEq, Repr

/-- Cuts off an element, in which spaces may separate the tokens. -/
def element? (s : List Char) : Option (Element × List Char) := do
  let (name, s) ← identifier? s
  let s ← char? '[' (skipSpaces s)
  let (digits, s) ← word? Char.isDigit (skipSpaces s)
  let s ← char? ']' (skipSpaces s)
  return (⟨String.ofList name, digits⟩, s)

/-- Succeeds if nothing but a semicolon is left, after spaces. -/
def semicolon? (s : List Char) : Option Unit :=
  if skipSpaces s = [';'] then some () else none

/-- A statement of one line. -/
inductive Statement where
  /-- The inclusion of another file, which is not read. -/
  | inclusion
  | declaration (kind : RegisterKind) (element : Element)
  | measurement (qubit result : Element)
  /-- A gate with its arguments as written, without the blanks around them. -/
  | gate (name : String) (args : List (List Char))
deriving DecidableEq, Repr

namespace Statement

/-- The inclusion of another file. -/
def inclusion? (line : List Char) : Option Statement :=
  (literal? "include " line).map fun _ => inclusion

/-- The declaration of a register of the given kind. -/
def declaration? (kind : RegisterKind) (line : List Char) : Option Statement := do
  let s ← literal? kind.keyword line
  let (element, s) ← element? (← skipSpaces1? s)
  semicolon? s
  return declaration kind element

/-- The measurement of a qubit into a result. -/
def measurement? (line : List Char) : Option Statement := do
  let s ← literal? "measure" line
  let (qubit, s) ← element? (← skipSpaces1? s)
  let s ← literal? "->" (skipSpaces s)
  let (result, s) ← element? (skipSpaces s)
  semicolon? s
  return measurement qubit result

/-- A gate: a name, a space, and a text between it and the only semicolon, which
    ends the line. The text must not be empty. -/
def gate? (line : List Char) : Option Statement := do
  let (name, s) ← identifier? line
  match s with
  | [] => none
  | c :: s =>
    let args := s.takeWhile (· != ';')
    if isSpace c ∧ args ≠ [] ∧ s.dropWhile (· != ';') = [';'] then
      some (gate (String.ofList name) ((args.splitOn ',').map trim))
    else
      none

/-- The statement of a line: the first of the shapes that fits. -/
def parse? (line : List Char) : Option Statement :=
  (inclusion? line)
    |>.or (declaration? .quantum line)
    |>.or (declaration? .classical line)
    |>.or (measurement? line)
    |>.or (gate? line)

end Statement

end OpenQasm

end QuantumIR
