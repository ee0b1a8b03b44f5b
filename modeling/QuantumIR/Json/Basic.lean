import QuantumIR.Json.Numeral

/-!
# JSON Values

Values of the data format JSON. A string is a list of code units: a text, or a
list with half of a surrogate pair in it that is no text at all. Such strings and
numbers of any size are legal JSON, so whether a value can be used is a question
of its own, asked only where the value is needed.

## Main definitions

* `Json`: A value.
* `Json.units`: The code units of a text.
* `Json.text?`: The text of code units that are one.
* `Json.isStorable`: Whether a value holds only texts and finite numbers.
* `Json.record?`: The values of named fields.
-/

namespace QuantumIR

/-- A JSON value. The fields of an object are in the order written, repetitions
    included. -/
inductive Json where
  | null
  | bool (value : Bool)
  /-- A number written as digits only. -/
  | natural (value : Nat)
  /-- A number with a sign, a fraction or an exponent. -/
  | number (numeral : Numeral)
  | string (units : List Nat)
  | array (items : List Json)
  | object (fields : List (List Nat × Json))
deriving Repr

namespace Json

/-- The code units of a text, one for each character. -/
def units (text : String) : List Nat :=
  text.toList.map Char.toNat

/-- Whether the unit is the first half of a surrogate pair. -/
def isHighHalf (n : Nat) : Bool :=
  0xD800 ≤ n && n ≤ 0xDBFF

/-- Whether the unit is the second half of a surrogate pair. -/
def isLowHalf (n : Nat) : Bool :=
  0xDC00 ≤ n && n ≤ 0xDFFF

/-- The character that a surrogate pair stands for. -/
def joinHalves (high low : Nat) : Char :=
  Char.ofNat (0x10000 + (high - 0xD800) * 0x400 + (low - 0xDC00))

/-- The characters of code units, in which the halves of surrogate pairs must
    stand together. -/
def characters? : List Nat → Option (List Char)
  | [] => some []
  | n :: s =>
    if isLowHalf n then
      none
    else if isHighHalf n then
      match s with
      | [] => none
      | m :: s => if isLowHalf m then (characters? s).map (joinHalves n m :: ·) else none
    else
      (characters? s).map (Char.ofNat n :: ·)

/-- The text of code units. -/
def text? (units : List Nat) : Option String :=
  (characters? units).map String.ofList

mutual

/-- Whether the value is nested at most `depth` deep and holds only texts and
    finite numbers. -/
def isStorable (depth : Nat) : Json → Bool
  | null => true
  | bool _ => true
  | natural n => (Numeral.ofNat n).isFinite
  | number n => n.isFinite
  | string units => (text? units).isSome
  | array items => 0 < depth && areStorable (depth - 1) items
  | object fields => 0 < depth && fieldsStorable (depth - 1) fields

/-- Whether all values of a list can be stored. -/
def areStorable (depth : Nat) : List Json → Bool
  | [] => true
  | j :: js => isStorable depth j && areStorable depth js

/-- Whether all names and values of an object can be stored. -/
def fieldsStorable (depth : Nat) : List (List Nat × Json) → Bool
  | [] => true
  | (name, j) :: fs => (text? name).isSome && isStorable depth j && fieldsStorable depth fs

end

/-- The value of the only field with the given name. -/
def field? (fields : List (List Nat × Json)) (name : String) : Option Json :=
  match fields.filter fun f => f.1 = units name with
  | [(_, j)] => some j
  | _ => none

/-- The values of the named fields, in the order of the names. Each name occurs
    once among the fields of an object, and other fields are ignored; an array
    holds exactly the values. -/
def record? (names : List String) : Json → Option (List Json)
  | object fields => names.mapM (field? fields)
  | array items => if items.length = names.length then some items else none
  | _ => none

/-- The natural number that a value is, if it fits into 64 bits. -/
def unsigned64? : Json → Option Nat
  | natural n => if n < Decimal.limit64 then some n else none
  | _ => none

/-- The text that a value is. -/
def string? : Json → Option String
  | string units => text? units
  | _ => none

/-- The items of a list that a value is. -/
def array? : Json → Option (List Json)
  | array items => some items
  | _ => none

end Json

end QuantumIR
