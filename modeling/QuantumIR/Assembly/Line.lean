import QuantumIR.Assembly.Arguments
import QuantumIR.Block
import QuantumIR.Text.Word

/-!
# Line Shapes

The shapes a line of assembly can have. A line stands here without its comment
and without blanks at its ends.

An instruction is a call if the text `call` and a space occur in its line, even
inside a name or an argument. It must then have the shape of a call; otherwise
it must have the shape of any other instruction, an opcode and operands.

## Main definitions

* `content`: A line without comment and outer blanks.
* `header?`: The name of the function that a line opens.
* `label?`: The name of the block that a line opens.
* `isTerminator`: Whether a line ends a block.
* `call?`, `plain?`: The two shapes of an instruction.
-/

namespace QuantumIR

namespace Assembly

open Text

/-- A line without its comment, which starts at the first semicolon, and without
    the blanks at its ends. -/
def content (line : List Char) : List Char :=
  trim (line.takeWhile (· != ';'))

/-- A function name after its `@`: quoted, or a word. -/
def functionName? (s : List Char) : Option (List Char × List Char) :=
  match s with
  | '"' :: s => do
    let (name, s) ← word? (· != '"') s
    let s ← char? '"' s
    return (name, s)
  | s => word? isNameChar s

/-- The name of the function that a line opens: `define`, anything up to the
    first `@`, a name, an opening parenthesis, and anything after it. -/
def header? (line : List Char) : Option String := do
  let s ← literal? "define" line
  if (s.takeWhile isWordChar).isEmpty then
    let s ← after? '@' s
    let (name, s) ← functionName? s
    let _ ← char? '(' (skipSpaces s)
    return String.ofList name
  else
    none

/-- The name of the block that a line opens: a word and a colon. -/
def label? (line : List Char) : Option String := do
  let (name, s) ← word? isNameChar line
  if s = [':'] then some (String.ofList name) else none

/-- The opcodes that end a block. -/
def terminators : List String :=
  ["br", "ret", "switch", "unreachable", "indirectbr", "resume"]

/-- The first word of a line, up to a blank. -/
def firstWord (line : List Char) : String :=
  String.ofList (line.takeWhile fun c => !isBlank c)

/-- Whether a line ends a block. -/
def isTerminator (line : List Char) : Bool :=
  terminators.contains (firstWord line)

/-- Whether a line opens a table of jump targets that goes on over the following
    lines. -/
def opensTable (line : List Char) : Bool :=
  firstWord line = "switch" && line.contains '[' && !line.contains ']'

/-- Cuts off `%name =`. A line that starts with `%` must start so. -/
def binding? : List Char → Option (Option String × List Char)
  | '%' :: s => do
    let (name, s) ← word? isNameChar s
    let s ← char? '=' (skipSpaces s)
    return (some (String.ofList name), skipSpaces s)
  | s => some (none, s)

/-- Drops a marker of a tail call, if there is one. -/
def skipTailMarker (s : List Char) : List Char :=
  (["tail", "musttail", "notail"].findSome? fun marker =>
    (literal? marker s).bind skipSpaces1?).getD s

/-- The instruction of a line that has the shape of a call: an optional binding,
    an optional tail marker, `call`, anything up to the first `@`, the callee,
    and the arguments up to the last closing parenthesis. -/
def call? (line : List Char) : Option Instruction := do
  let (output, s) ← binding? line
  let s ← literal? "call" (skipTailMarker s)
  let s ← skipSpaces1? s
  let s ← after? '@' s
  let (callee, s) ← word? isNameChar s
  let s ← char? '(' (skipSpaces s)
  let args ← beforeLast? ')' s
  return { opcode := String.ofList callee, operands := operands args, output := output }

/-- The instruction of a line that is no call: an optional binding, an opcode
    that begins with a small letter, and the operands. -/
def plain? (line : List Char) : Option Instruction := do
  let (output, s) ← binding? line
  let (opcode, s) ← word? isWordChar s
  if opcode.head?.any Char.isLower then
    return { opcode := String.ofList opcode, operands := operands (skipSpaces s), output := output }
  else
    none

/-- Whether a line is to be read as a call. -/
def mentionsCall (line : List Char) : Bool :=
  occurs "call ".toList line

end Assembly

end QuantumIR
