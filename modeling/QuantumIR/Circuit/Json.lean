import QuantumIR.Circuit.Basic
import QuantumIR.Json.Parser
import QuantumIR.Json.Printer

/-!
# Circuits as JSON

Writing a circuit as JSON and reading it back. An operation is an object whose
field `kind` tells which one it is. Reading takes the fields in any order and
ignores those it does not know, and it also takes the bare values of the fields
in their order as a list. Indices are not compared with the wire counts: a circuit
is read as it is written.

## Main definitions

* `Operation.toJson`, `Circuit.toJson`: The JSON value.
* `Operation.ofJson?`, `Circuit.ofJson?`: The value read back.
* `Circuit.parse?`: A circuit from JSON text.
-/

namespace QuantumIR

namespace Operation

/-- The JSON value of an operation. -/
def toJson : Operation → Json
  | gate name targets =>
    .object [(Json.units "kind", .string (Json.units "gate")),
      (Json.units "gate", .string (Json.units name)),
      (Json.units "targets", .array (targets.map Json.natural))]
  | measurement qubit result =>
    .object [(Json.units "kind", .string (Json.units "measurement")),
      (Json.units "qubit", .natural qubit), (Json.units "result", .natural result)]
  | remark text =>
    .object [(Json.units "kind", .string (Json.units "annotation")),
      (Json.units "text", .string (Json.units text))]

/-- The kind that an operation states. -/
def kind? : Json → Option String
  | .object fields => (Json.field? fields "kind").bind Json.string?
  | .array (kind :: _) => kind.string?
  | _ => none

/-- How deep an operation may be nested. A whole text may be nested 127 levels
    deep, of which the circuit and its list of operations take two. -/
def nestingLimit : Nat := 125

/-- The operation that a value describes. -/
def ofFields? (j : Json) : Option Operation := do
  match ← kind? j with
  | "gate" =>
    match ← j.record? ["kind", "gate", "targets"] with
    | [_, name, targets] =>
      return gate (← name.string?) (← (← targets.array?).mapM Json.unsigned64?)
    | _ => none
  | "measurement" =>
    match ← j.record? ["kind", "qubit", "result"] with
    | [_, qubit, result] => return measurement (← qubit.unsigned64?) (← result.unsigned64?)
    | _ => none
  | "annotation" =>
    match ← j.record? ["kind", "text"] with
    | [_, text] => return remark (← text.string?)
    | _ => none
  | _ => none

/-- The operation that a value describes. Also what is ignored in it must be
    usable. -/
def ofJson? (j : Json) : Option Operation :=
  if j.isStorable nestingLimit then ofFields? j else none

end Operation

namespace Circuit

/-- The JSON value of a circuit. -/
def toJson (c : Circuit) : Json :=
  .object [(Json.units "numQubits", .natural c.numQubits),
    (Json.units "numResults", .natural c.numResults),
    (Json.units "operations", .array (c.operations.toList.map Operation.toJson))]

/-- Whether all field names of an object are texts. -/
def namesAreTexts : Json → Bool
  | .object fields => fields.all fun f => (Json.text? f.1).isSome
  | _ => true

/-- The circuit that a value describes. -/
def ofJson? (j : Json) : Option Circuit := do
  match ← j.record? ["numQubits", "numResults", "operations"] with
  | [qubits, results, operations] =>
    if namesAreTexts j then
      let operations ← (← operations.array?).mapM Operation.ofJson?
      return { numQubits := ← qubits.unsigned64?, numResults := ← results.unsigned64?,
               operations := operations.toArray }
    else
      none
  | _ => none

/-- The circuit that a JSON text describes. -/
def parse? (text : String) : Option Circuit :=
  (Json.parse? text).bind ofJson?

end Circuit

end QuantumIR
