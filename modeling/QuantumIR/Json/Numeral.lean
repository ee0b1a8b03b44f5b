import QuantumIR.Binary64.Basic

/-!
# JSON Numerals

A number as it is written in JSON, and whether it has a value in double
precision. JSON itself sets no bound, so a numeral keeps all its digits.

Its value is not the double nearest to it. A numeral is taken as a coefficient
of 64 bits times a power of ten, and each of the two is rounded to a double
before they are multiplied. Which numerals are too large therefore depends on how
they are written: near the largest double, one more zero after the point moves a
digit from the power to the coefficient and can make the difference.

## Main definitions

* `Numeral`: The parts of a number as written.
* `Numeral.ofNat`: A natural number as written.
* `Numeral.absorb`: Takes digits into a coefficient while it fits.
* `Numeral.decimal64`: The coefficient of 64 bits and the power of ten.
* `Numeral.isFinite`: Whether the value is finite.
* `Numeral.print`: The text of a numeral.
-/

namespace QuantumIR

/-- A number as it is written: a sign, digits before and after the point, and a
    power of ten. -/
structure Numeral where
  negative : Bool := false
  whole : List Char
  part : List Char := []
  exponent : Int := 0
deriving DecidableEq, Repr

namespace Numeral

/-- A natural number as it is written. -/
def ofNat (n : Nat) : Numeral :=
  { whole := Nat.toDigits 10 n }

/-- Takes digits into a coefficient, up to the first with which it would not fit
    into 64 bits. Gives the coefficient and the number of digits taken. -/
def absorb (coefficient : Nat) : List Char → Nat × Nat
  | [] => (coefficient, 0)
  | c :: s =>
    let next := 10 * coefficient + (c.toNat - '0'.toNat)
    if next < Decimal.limit64 then
      let (n, count) := absorb next s
      (n, count + 1)
    else
      (coefficient, 0)

/-- The numeral without its sign, as a coefficient of 64 bits and a power of ten.
    Digits before the point that are not taken count in the power; digits after
    it are taken as far as the coefficient has room for them. -/
def decimal64 (n : Numeral) : Decimal :=
  let (coefficient, wholeTaken) := absorb 0 n.whole
  let (coefficient, partTaken) := absorb coefficient n.part
  ⟨coefficient, n.exponent + (n.whole.length - wholeTaken : Nat) - partTaken⟩

/-- The largest power of ten in double precision. -/
def maxPower : Int := 308

/-- Whether the value is finite: the coefficient is multiplied by a power of ten
    that is finite itself. A negative power makes nothing too large. -/
def isFinite (n : Numeral) : Bool :=
  let d := n.decimal64
  d.coefficient = 0 || d.exponent < 0 ||
    (d.exponent ≤ maxPower &&
      ((Binary64.ofDecimal false ⟨d.coefficient, 0⟩).mul
        (Binary64.ofDecimal false ⟨1, d.exponent⟩)).isFinite)

/-- The text of a numeral, with the power of ten always written. -/
def print (n : Numeral) : List Char :=
  (if n.negative then ['-'] else []) ++ n.whole
    ++ (if n.part.isEmpty then [] else '.' :: n.part) ++ 'e' :: n.exponent.repr.toList

end Numeral

end QuantumIR
