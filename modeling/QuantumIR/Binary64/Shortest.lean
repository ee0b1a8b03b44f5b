import QuantumIR.Binary64.Basic

/-!
# Shortest Decimal Text

The text of a double precision number: the fewest digits that read back as the
same number, and of those the ones nearest to it.

A number reads back from every decimal in an interval around it, which reaches
half way to each neighbour; the ends belong to it exactly if its significand is
even, because reading rounds halves to even. For one, two, … digits only the
two points of that decimal grid next to the number need to be tested: if any
point of the grid lies in the interval, so does one of these.

Everything is scaled by one power of ten that makes the number, the ends of its
interval and the grid integers, so that no step rounds.

The text is always positional: no exponent is written, whatever the size, and
no point after a whole number.

## Main definitions

* `Interval`: The decimals that read back as a number, scaled to integers.
* `Binary64.interval`: The interval of a positive finite number.
* `Interval.pick?`: The nearest point of a grid that lies in the interval.
* `Interval.shortest`: The decimal with the fewest digits in the interval.
* `Decimal.positional`: A decimal without exponent.
* `Binary64.render`: The text of a number.
-/

namespace QuantumIR

/-- The decimals between `low · 10 ^ exponent` and `high · 10 ^ exponent`, ends
    included or not, around the number `value · 10 ^ exponent`. -/
structure Interval where
  low : Nat
  value : Nat
  high : Nat
  closed : Bool
  exponent : Int

namespace Interval

/-- Whether an integer lies in the interval. -/
def holds (i : Interval) (n : Nat) : Bool :=
  if i.closed then i.low ≤ n && n ≤ i.high else i.low < n && n < i.high

/-- The point of the grid of multiples of `g` that lies in the interval and is
    nearest to the value, as a number of grid steps. Of two equally near points
    the upper one is taken. -/
def pick? (i : Interval) (g : Nat) : Option Nat :=
  let below := i.value / g
  let above := below + 1
  match i.holds (below * g), i.holds (above * g) with
  | true, true => some (if 2 * i.value < (below + above) * g then below else above)
  | true, false => some below
  | false, true => some above
  | false, false => none

/-- The decimal with the fewest digits in the interval. Seventeen digits always
    suffice. -/
def shortest (i : Interval) : Decimal :=
  let length := (Nat.toDigits 10 i.value).length
  let pickAt (k : Nat) : Option Decimal :=
    let drop := length - (k + 1)
    (i.pick? (Nat.pow 10 drop)).map fun n => ⟨n, i.exponent + drop⟩
  ((List.range 17).findSome? pickAt).getD ⟨i.value, i.exponent⟩

end Interval

namespace Binary64

/-- The decimals that read back as `m · 2 ^ e`. The lower neighbour of a power
    of two is only half as far away as the upper one. -/
def interval (m : Nat) (e : Int) : Interval :=
  let exponent := min (e - 2) 0
  let unit := Nat.pow 2 (e - 2 - exponent).toNat * Nat.pow 5 (-exponent).toNat
  let gap := if m = significandLimit / 2 && e > minExponent then 1 else 2
  { low := (4 * m - gap) * unit, value := 4 * m * unit, high := (4 * m + 2) * unit,
    closed := m % 2 == 0, exponent := exponent }

end Binary64

namespace Decimal

/-- The decimal in positional notation: zeros fill up to the point, no zero ends
    the digits after it, and there is no point without digits after it. -/
def positional (d : Decimal) : List Char :=
  let digits := Nat.toDigits 10 d.coefficient ++ List.replicate d.exponent.toNat '0'
  let places := (-d.exponent).toNat
  let padded := List.replicate (places + 1 - digits.length) '0' ++ digits
  let part := Text.dropWhileEnd (· == '0') (padded.drop (padded.length - places))
  padded.take (padded.length - places) ++ (if part.isEmpty then [] else '.' :: part)

end Decimal

namespace Binary64

/-- The sign of a negative number. -/
def signText (negative : Bool) : String :=
  if negative then "-" else ""

/-- The text of a number. -/
def render : Binary64 → String
  | .finite negative 0 _ => signText negative ++ "0"
  | .finite negative m e => signText negative ++ String.ofList (interval m e).shortest.positional
  | .infinite negative => signText negative ++ "inf"
  | .nan => "NaN"

end Binary64

end QuantumIR
