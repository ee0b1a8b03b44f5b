import QuantumIR.Json.Basic
import QuantumIR.Text.Word

/-!
# Reading JSON

The value of a JSON text. The text must be exactly one value with blanks around
it; the blanks are space, tab, line feed and carriage return.

Each nested value takes at least one character, so the length of the text bounds
the number of calls and serves as fuel.

## Main definitions

* `Json.quoted?`: Cuts off a string after its opening quote.
* `Json.number?`: Cuts off a number.
* `Json.value?`: Cuts off a value.
* `Json.parse?`: The value of a text.
-/

namespace QuantumIR

namespace Json

open Text

/-- The blanks between tokens. -/
def isGap (c : Char) : Bool :=
  c == ' ' || c == '\t' || c == '\n' || c == '\r'

/-- Drops the blanks in front. -/
def skipGap (s : List Char) : List Char :=
  s.dropWhile isGap

/-- The value of a hexadecimal digit. -/
def hexDigit? (c : Char) : Option Nat :=
  if c.isDigit then some (c.toNat - 0x30)
  else if 'a' ≤ c ∧ c ≤ 'f' then some (c.toNat - 0x57)
  else if 'A' ≤ c ∧ c ≤ 'F' then some (c.toNat - 0x37)
  else none

/-- The value of four hexadecimal digits. -/
def hexDigits? (a b c d : Char) : Option Nat := do
  let a ← hexDigit? a
  let b ← hexDigit? b
  let c ← hexDigit? c
  let d ← hexDigit? d
  return ((a * 16 + b) * 16 + c) * 16 + d

/-- The code unit that a letter after a backslash stands for. -/
def unescape? (c : Char) : Option Nat :=
  match c with
  | '"' => some 0x22
  | '\\' => some 0x5C
  | '/' => some 0x2F
  | 'b' => some 0x08
  | 'f' => some 0x0C
  | 'n' => some 0x0A
  | 'r' => some 0x0D
  | 't' => some 0x09
  | _ => none

/-- Cuts off a string after its opening quote. Control characters must be
    escaped. -/
def quoted? : List Char → Option (List Nat × List Char)
  | [] => none
  | '"' :: s => some ([], s)
  | '\\' :: 'u' :: a :: b :: c :: d :: s => do
    let n ← hexDigits? a b c d
    let (units, rest) ← quoted? s
    return (n :: units, rest)
  | '\\' :: c :: s => do
    let n ← unescape? c
    let (units, rest) ← quoted? s
    return (n :: units, rest)
  | c :: s =>
    if c == '\\' || c.toNat < 0x20 then
      none
    else do
      let (units, rest) ← quoted? s
      return (c.toNat :: units, rest)

/-- Cuts off the digits after a point, if there is a point. -/
def fraction? : List Char → Option (List Char × List Char)
  | '.' :: s => word? Char.isDigit s
  | s => some ([], s)

/-- Cuts off an exponent, if there is one. -/
def exponent? : List Char → Option (Option Int × List Char)
  | [] => some (none, [])
  | c :: s =>
    if c == 'e' || c == 'E' then do
      let (negative, s) := Decimal.sign s
      let (digits, rest) ← word? Char.isDigit s
      let n := Nat.ofDigitChars 10 digits 0
      return (some (if negative then -(n : Int) else n), rest)
    else
      some (none, c :: s)

/-- Cuts off a number, whose first digit is zero only if it is alone. -/
def number? (s : List Char) : Option (Json × List Char) := do
  let (negative, s) := match s with
    | '-' :: s => (true, s)
    | s => (false, s)
  let (whole, s) ← word? Char.isDigit s
  if whole.head? = some '0' ∧ whole.length ≠ 1 then
    none
  else
    let (part, s) ← fraction? s
    let (exponent, s) ← exponent? s
    if negative || !part.isEmpty || exponent.isSome then
      return (number { negative, whole, part, exponent := exponent.getD 0 }, s)
    else
      return (natural (Nat.ofDigitChars 10 whole 0), s)

mutual

/-- Cuts off a value. -/
def value? : Nat → List Char → Option (Json × List Char)
  | 0, _ => none
  | fuel + 1, s =>
    match skipGap s with
    | '"' :: s => (quoted? s).map fun (units, rest) => (string units, rest)
    | '[' :: s =>
      match skipGap s with
      | ']' :: rest => some (array [], rest)
      | s => (items? fuel s).map fun (items, rest) => (array items, rest)
    | '\x7b' :: s =>
      match skipGap s with
      | '\x7d' :: rest => some (object [], rest)
      | s => (fields? fuel s).map fun (fields, rest) => (object fields, rest)
    | s =>
      ((literal? "null" s).map fun rest => (null, rest))
        |>.or ((literal? "true" s).map fun rest => (bool true, rest))
        |>.or ((literal? "false" s).map fun rest => (bool false, rest))
        |>.or (number? s)

/-- Cuts off the items of a list that is not empty, with the closing bracket. -/
def items? : Nat → List Char → Option (List Json × List Char)
  | 0, _ => none
  | fuel + 1, s => do
    let (j, s) ← value? fuel s
    match skipGap s with
    | ']' :: rest => return ([j], rest)
    | ',' :: s =>
      let (js, rest) ← items? fuel s
      return (j :: js, rest)
    | _ => none

/-- Cuts off the fields of an object that is not empty, with the closing
    brace. -/
def fields? : Nat → List Char → Option (List (List Nat × Json) × List Char)
  | 0, _ => none
  | fuel + 1, s => do
    let s ← char? '"' (skipGap s)
    let (name, s) ← quoted? s
    let s ← char? ':' (skipGap s)
    let (j, s) ← value? fuel s
    match skipGap s with
    | '\x7d' :: rest => return ([(name, j)], rest)
    | ',' :: s =>
      let (fs, rest) ← fields? fuel s
      return ((name, j) :: fs, rest)
    | _ => none

end

/-- The value of a text. -/
def parse? (text : String) : Option Json := do
  let s := text.toList
  let (j, rest) ← value? (s.length + 1) s
  if (skipGap rest).isEmpty then some j else none

end Json

end QuantumIR
