import QuantumIR.Json.Basic

/-!
# Printing JSON

The text of a JSON value, indented by two spaces for each level, with one item or
field on a line. A list or object without content is written on one line.

Only quotes, backslashes and control characters are escaped in strings; all other
characters are written as they are.

## Main definitions

* `Json.escape`: A code unit inside a string.
* `Json.quote`: A string with its quotes.
* `Json.pretty`: The indented text of a value.
-/

namespace QuantumIR

namespace Json

/-- A code unit as an escape with four hexadecimal digits. -/
def hexEscape (n : Nat) : List Char :=
  ['\\', 'u', Nat.digitChar (n / 4096 % 16), Nat.digitChar (n / 256 % 16),
   Nat.digitChar (n / 16 % 16), Nat.digitChar (n % 16)]

/-- A code unit inside a string. -/
def escape (n : Nat) : List Char :=
  if n = 0x22 then ['\\', '"']
  else if n = 0x5C then ['\\', '\\']
  else if n = 0x08 then ['\\', 'b']
  else if n = 0x09 then ['\\', 't']
  else if n = 0x0A then ['\\', 'n']
  else if n = 0x0C then ['\\', 'f']
  else if n = 0x0D then ['\\', 'r']
  else if n < 0x20 || isHighHalf n || isLowHalf n then hexEscape n
  else [Char.ofNat n]

/-- A string with its quotes. -/
def quote (units : List Nat) : List Char :=
  '"' :: units.flatMap escape ++ ['"']

/-- The start of a line at the given level. -/
def newline (level : Nat) : List Char :=
  '\n' :: List.replicate (2 * level) ' '

mutual

/-- The text of a value that starts at the given level. -/
def print (level : Nat) : Json → List Char
  | null => "null".toList
  | bool b => if b then "true".toList else "false".toList
  | natural n => Nat.toDigits 10 n
  | number n => n.print
  | string units => quote units
  | array [] => ['[', ']']
  | array (j :: js) =>
    '[' :: newline (level + 1) ++ print (level + 1) j ++ printItems (level + 1) js
      ++ newline level ++ [']']
  | object [] => ['\x7b', '\x7d']
  | object ((name, j) :: fs) =>
    '\x7b' :: newline (level + 1) ++ quote name ++ [':', ' '] ++ print (level + 1) j
      ++ printFields (level + 1) fs ++ newline level ++ ['\x7d']

/-- The items of a list after the first. -/
def printItems (level : Nat) : List Json → List Char
  | [] => []
  | j :: js => ',' :: newline level ++ print level j ++ printItems level js

/-- The fields of an object after the first. -/
def printFields (level : Nat) : List (List Nat × Json) → List Char
  | [] => []
  | (name, j) :: fs =>
    ',' :: newline level ++ quote name ++ [':', ' '] ++ print level j ++ printFields level fs

end

/-- The indented text of a value. -/
def pretty (j : Json) : String :=
  String.ofList (print 0 j)

end Json

end QuantumIR
