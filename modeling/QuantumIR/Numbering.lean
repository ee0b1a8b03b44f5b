import QuantumIR.Operand
import Std.Data.HashMap

/-!
# Numberings

Numbers for identities, given out in the order in which the identities are first
met. A circuit numbers its wires from zero without gaps, whatever numbers the
program uses, so each back end keeps one numbering for qubits and one for
results.

The identities are kept twice: in order, which is what is printed and counted,
and in a map from identity to number, which makes a look-up independent of how
many there are. `Coherent` says that the two agree.

## Main definitions

* `Numbering`: Identities with their numbers.
* `Numbering.get?`: The number of an identity that has one.
* `Numbering.assign`: The number of an identity, given out if need be.
* `Numbering.assignAll`: The numbers of several identities, from left to right.
* `Numbering.Coherent`: Map and order describe the same numbering.

## Theorems

* `assign_of_get?_eq_some`: A number once given out stays.
* `toList_assign_of_get?_eq_none`: A new identity comes last.
-/

namespace QuantumIR

/-- Identities numbered from zero in the order in which they were first met. -/
structure Numbering where
  /-- The number of each identity. -/
  index : Std.HashMap Identity Nat := {}
  /-- The identities in the order of their numbers. -/
  order : Array Identity := #[]

namespace Numbering

/-- How many identities have a number. -/
def size (t : Numbering) : Nat :=
  t.order.size

/-- Whether no identity has a number. -/
def isEmpty (t : Numbering) : Bool :=
  t.order.isEmpty

/-- The number of an identity that has one. -/
def get? (t : Numbering) (id : Identity) : Option Nat :=
  t.index[id]?

/-- The identities in the order of their numbers. -/
def toList (t : Numbering) : List Identity :=
  t.order.toList

/-- The number of an identity. An identity without a number is given the next
    one; otherwise the numbering stays as it is. -/
def assign (t : Numbering) (id : Identity) : Nat × Numbering :=
  match t.get? id with
  | some i => (i, t)
  | none => (t.size, { index := t.index.insert id t.size, order := t.order.push id })

theorem assign_of_get?_eq_some {t : Numbering} {id : Identity} {i : Nat} (h : t.get? id = some i) :
    t.assign id = (i, t) := by
  simp [assign, h]

theorem toList_assign_of_get?_eq_none {t : Numbering} {id : Identity} (h : t.get? id = none) :
    (t.assign id).2.toList = t.toList ++ [id] := by
  simp [assign, h, toList]

/-- The numbers of several identities, given out from left to right. -/
def assignAll (t : Numbering) : List Identity → List Nat × Numbering
  | [] => ([], t)
  | id :: ids =>
    let (i, t) := t.assign id
    let (is, t) := t.assignAll ids
    (i :: is, t)

/-- Map and order describe the same numbering: an identity has the number of the
    place at which it stands. -/
def Coherent (t : Numbering) : Prop :=
  ∀ id i, t.get? id = some i ↔ t.toList[i]? = some id

end Numbering

end QuantumIR
