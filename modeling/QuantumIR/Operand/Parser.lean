import QuantumIR.Operand

/-!
# Reading Operands

An operand is written as a type, a blank and a value, or as a value alone. Every
text is some operand: what is not recognised is kept as raw text, so that it can
still be shown.

## Main definitions

* `Operand.constantPointer?`: The number that a constant pointer denotes.
* `Operand.ofTyped`: An operand from its type and its value.
* `Operand.ofUntyped`: An operand from a value alone.
* `Operand.parse`: An operand from its text.
-/

namespace QuantumIR

namespace Operand

open Text

/-- The number in `inttoptr (i64 N to T)`. The type `T` is not looked at, but
    it holds no closing parenthesis. -/
def intToPtr? (s : List Char) : Option Nat := do
  let s ← literal? "inttoptr" s
  let s ← char? '(' (skipSpaces s)
  let s ← literal? "i64" (skipSpaces s)
  let s ← skipSpaces1? s
  let (digits, s) ← word? Char.isDigit s
  let s ← skipSpaces1? s
  let s ← literal? "to" s
  let s ← skipSpaces1? s
  let rest ← after? ')' s
  if rest.isEmpty then Decimal.unsigned64? digits else none

/-- The number that a constant pointer denotes: `null` is 0. -/
def constantPointer? (value : List Char) : Option Nat :=
  if value = "null".toList then some 0 else intToPtr? value

/-- A named value if `value` is a name after `%`, otherwise the raw text. -/
def ofName (value text : List Char) : Operand :=
  match value with
  | '%' :: c :: name => .named (String.ofList (c :: name))
  | _ => .raw (String.ofList text)

/-- Whether the text is an integer type: `i` and a width. -/
def isIntType : List Char → Bool
  | 'i' :: width => !width.isEmpty && width.all Char.isDigit
  | _ => false

/-- A truth value from its name. -/
def boolean? (value : List Char) : Option Operand :=
  if value = "true".toList then some (.bool true)
  else if value = "false".toList then some (.bool false)
  else none

/-- The operand with the given type and value; `text` is both together. -/
def ofTyped (type value text : List Char) : Operand :=
  if type = "%Qubit*".toList then .qubit (constantPointer? value)
  else if type = "%Result*".toList then .result (constantPointer? value)
  else if type = "ptr".toList then .pointer (constantPointer? value)
  else if type = "i1".toList then (boolean? value).getD (ofName value text)
  else if type = "double".toList || type = "float".toList then
    ((Binary64.parse? value).map double).getD (ofName value text)
  else if isIntType type then
    ((Decimal.signed64? value).map integer).getD (ofName value text)
  else .raw (String.ofList text)

/-- The operand with the given value and no type: the first of a truth value, an
    integer, a double and a name that it can be. -/
def ofUntyped (value : List Char) : Operand :=
  ((boolean? value).or ((Decimal.signed64? value).map integer)
    |>.or ((Binary64.parse? value).map double)).getD (ofName value value)

/-- The operand a text denotes. The first blank ends the type. -/
def parse (text : List Char) : Operand :=
  match text.dropWhile (fun c => !isBlank c) with
  | [] => ofUntyped text
  | _ :: value => ofTyped (text.takeWhile fun c => !isBlank c) (trim value) text

end Operand

end QuantumIR
