import QuantumIR.Decimal

/-!
# Double Precision Numbers

Numbers of the format binary64, kept as an integer significand and a power of
two instead of a bit pattern. All arithmetic on them is exact arithmetic on
natural numbers, so what reading and printing do can be reasoned about without
any notion of floating point.

The format holds `significand · 2 ^ exponent` with a significand below `2^53`
and an exponent from `-1074` to `971`. Zero has a sign.

## Main definitions

* `Binary64`: A finite number, an infinity, or not a number.
* `roundHalfEven`: The integer nearest to a fraction.
* `Binary64.ofRatio`: The number nearest to a fraction.
* `Binary64.ofDecimal`: The number nearest to a decimal.
* `Binary64.mul`: The number nearest to a product.
* `Binary64.parse?`: Reads a number text.
-/

namespace QuantumIR

/-- A number of the format binary64. A finite one is
    `± significand · 2 ^ exponent`. -/
inductive Binary64 where
  | finite (negative : Bool) (significand : Nat) (exponent : Int)
  | infinite (negative : Bool)
  | nan
deriving DecidableEq, Repr

namespace Binary64

/-- The number of bits of a significand. -/
def precision : Nat := 53

/-- The bound of the significands, `2^53`. -/
def significandLimit : Nat := 9007199254740992

/-- The smallest exponent, which the subnormal numbers share. -/
def minExponent : Int := -1074

/-- The largest exponent of a finite number. -/
def maxExponent : Int := 971

/-- The integer nearest to `num / den`, of two equally near the even one. -/
def roundHalfEven (num den : Nat) : Nat :=
  let q := num / den
  let r := num % den
  if 2 * r > den || (2 * r == den && q % 2 == 1) then q + 1 else q

/-- The fraction `num / den / 2 ^ e` as a numerator and a denominator. -/
def scale (num den : Nat) (e : Int) : Nat × Nat :=
  (num * Nat.pow 2 (-e).toNat, den * Nat.pow 2 e.toNat)

/-- The exponent at which `num / den` is written: the one that gives the
    significand its full precision, but not below the smallest. -/
def exponentFor (num den : Nat) : Int :=
  let e : Int := (num.log2 : Int) - den.log2 - precision
  let (n, d) := scale num den e
  max (if n / d < significandLimit then e else e + 1) minExponent

/-- The number nearest to `num / den`, of two equally near the one with the
    even significand. A fraction too large for the format is infinite. -/
def ofRatio (negative : Bool) (num den : Nat) : Binary64 :=
  let e := exponentFor num den
  let (n, d) := scale num den e
  let m := roundHalfEven n d
  let (m, e) := if m = significandLimit then (significandLimit / 2, e + 1) else (m, e)
  if e > maxExponent then .infinite negative else .finite negative m e

/-- Zero with the given sign. -/
def zero (negative : Bool) : Binary64 :=
  .finite negative 0 minExponent

/-- The number nearest to a decimal. A decimal that is out of reach by its
    number of places alone is decided without forming the power of ten: below
    `10^-330` all is zero, above `10^310` all is infinite. -/
def ofDecimal (negative : Bool) (d : Decimal) : Binary64 :=
  let places : Int := (Nat.toDigits 10 d.coefficient).length + d.exponent
  if d.coefficient = 0 || places < -330 then
    zero negative
  else if places > 310 then
    .infinite negative
  else
    ofRatio negative (d.coefficient * Nat.pow 10 d.exponent.toNat)
      (Nat.pow 10 (-d.exponent).toNat)

/-- The number nearest to the product of two numbers. -/
def mul : Binary64 → Binary64 → Binary64
  | nan, _ | _, nan => nan
  | infinite s, infinite t => infinite (s != t)
  | infinite s, finite t m _ | finite s m _, infinite t =>
    if m = 0 then nan else infinite (s != t)
  | finite s m d, finite t n e =>
    if m * n = 0 then zero (s != t)
    else ofRatio (s != t) (m * n * Nat.pow 2 (d + e).toNat) (Nat.pow 2 (-(d + e)).toNat)

/-- Whether the number is neither infinite nor not a number. -/
def isFinite : Binary64 → Bool
  | finite _ _ _ => true
  | _ => false

/-- Reads a number text: an optional sign, then a decimal or, in any case of
    letters, the word for an infinity or for not a number. -/
def parse? (s : List Char) : Option Binary64 :=
  let (negative, body) := Decimal.sign s
  let name := String.ofList (body.map Char.toLower)
  if name = "inf" || name = "infinity" then
    some (.infinite negative)
  else if name = "nan" then
    some .nan
  else
    (Decimal.parse? body).map (ofDecimal negative)

end Binary64

end QuantumIR
