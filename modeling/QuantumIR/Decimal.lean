import QuantumIR.Text.Word

/-!
# Decimal Notation

Reading whole numbers and decimal fractions, exactly. A number text either is
wholly a number or is none: nothing is skipped and nothing is left over.

Whole numbers are read into `Nat` and `Int`. Where the domain is a machine word
the reader checks the bound, so that a text beyond it is no number of that kind
and everything behind the reader computes without overflow.

Main facts about the digits themselves (`Nat.toDigits`, `Nat.ofDigitChars`) are
in core, so the readers are stated in terms of them.

## Main definitions

* `limit64`, `limit63`: The bounds of machine words.
* `natural?`: A non-empty run of digits.
* `unsigned64?`: A natural number below `2^64`, digits only.
* `signed64?`: An integer of 64 bits, with an optional sign.
* `Decimal`: A coefficient and a power of ten.
* `Decimal.parse?`: Digits with an optional point and an optional exponent.

## Theorems

* `natural?_toDigits`: The digits of a number are read as that number.
-/

namespace QuantumIR

/-- The number `coefficient · 10 ^ exponent`. -/
structure Decimal where
  coefficient : Nat
  exponent : Int
deriving DecidableEq, Repr

namespace Decimal

/-- The first natural number that does not fit into 64 bits, `2^64`. -/
def limit64 : Nat := 18446744073709551616

/-- The first natural number that does not fit into 63 bits, `2^63`. -/
def limit63 : Nat := 9223372036854775808

/-- The value of a non-empty run of digits. -/
def natural? (s : List Char) : Option Nat :=
  if !s.isEmpty && s.all Char.isDigit then some (Nat.ofDigitChars 10 s 0) else none

/-- The digits of a number are read as that number. -/
theorem natural?_toDigits (n : Nat) : natural? (Nat.toDigits 10 n) = some n := by
  have hne : Nat.toDigits 10 n ≠ [] := Nat.toDigits_ne_nil
  have hall : (Nat.toDigits 10 n).all Char.isDigit = true := by
    rw [List.all_eq_true]
    intro c hc
    exact Nat.isDigit_of_mem_toDigits (by omega) (by omega) hc
  rw [natural?, hall, Nat.ofDigitChars_ten_toDigits]
  simp [hne]

/-- The value of a non-empty run of digits, if it fits into 64 bits. -/
def unsigned64? (s : List Char) : Option Nat :=
  (natural? s).filter (· < limit64)

/-- The value of a run of digits with an optional sign, if it is an integer of
    64 bits in two's complement. -/
def signed64? : List Char → Option Int
  | '-' :: s => ((natural? s).filter (· ≤ limit63)).map fun n => -(n : Int)
  | '+' :: s => ((natural? s).filter (· < limit63)).map fun n => (n : Int)
  | s => ((natural? s).filter (· < limit63)).map fun n => (n : Int)

/-- An optional sign in front of a text: whether it is a minus, and the rest. -/
def sign : List Char → Bool × List Char
  | '-' :: s => (true, s)
  | '+' :: s => (false, s)
  | s => (false, s)

/-- The exponent part that ends a number: nothing, or a mark, an optional sign
    and digits. -/
def exponent? : List Char → Option Int
  | [] => some 0
  | c :: s =>
    if c == 'e' || c == 'E' then
      (natural? (sign s).2).map fun n => if (sign s).1 then -(n : Int) else n
    else
      none

/-- The digits after a point, if there is one, and the rest. -/
def fraction : List Char → List Char × List Char
  | '.' :: s => (s.takeWhile Char.isDigit, s.dropWhile Char.isDigit)
  | s => ([], s)

/-- Reads an unsigned number: digits with an optional point before, among or
    after them, then an optional exponent. -/
def parse? (s : List Char) : Option Decimal :=
  let whole := s.takeWhile Char.isDigit
  let (part, rest) := fraction (s.dropWhile Char.isDigit)
  if whole.isEmpty && part.isEmpty then
    none
  else
    (exponent? rest).map fun e => ⟨Nat.ofDigitChars 10 (whole ++ part) 0, e - part.length⟩

end Decimal

end QuantumIR
