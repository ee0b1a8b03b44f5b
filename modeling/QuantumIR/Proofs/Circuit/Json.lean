import QuantumIR.Artifact
import QuantumIR.Proofs.Circuit.Range
import QuantumIR.Proofs.Json.RoundTrip
import QuantumIR.Proofs.Json.Storable

/-!
# Circuits Read Back from JSON

A circuit is read back from its JSON text exactly if its wire counts and indices are
numbers of 64 bits. Nothing else can go wrong: names and remarks may hold any characters,
and whether an index is below the wire count plays no part.

The round trip has two halves. That the text of a value gives the value is a fact about
JSON and says nothing of circuits. The other half is about the value: the reader looks up
each field by its name, decides by `kind` which fields it wants, and for an operation asks
besides whether everything in it can be used at all.

The bound comes from the reader, whose numbers have 64 bits; the writer writes any number.
So each step is an equivalence, and a list is read back if and only if each of its items
is.

## Main definitions

* `Circuit.Fits64`: Counts and indices are numbers of 64 bits.

## Theorems

* `Json.mapM_map_eq_some_iff`: A list is read back if each of its items is.
* `Operation.ofFields?_toJson_iff`: An operation is read back if its indices have 64 bits.
* `Operation.isStorable_toJson`: Such an operation can be used.
* `Circuit.ofJson?_toJson_iff`: A circuit is read back from its value if it fits.
* `Artifact.toJson_lossless`: Artifacts are read back from their texts.
-/

namespace QuantumIR

namespace Json

/-- A list is read back exactly if each of its items is. -/
theorem mapM_map_eq_some_iff {α β : Type} {f : α → β} {g : β → Option α} {l : List α} :
    (l.map f).mapM g = some l ↔ ∀ a ∈ l, g (f a) = some a := by
  induction l with
  | nil => simp
  | cons a l ih => simp [← ih, Option.bind_eq_some_iff]

end Json

namespace Operation

open Json
open Decimal (limit64)

theorem isWritable_toJson (o : Operation) : o.toJson.IsWritable := by
  cases o <;> simp [toJson, IsWritable, FieldsWritable, areUnits_units, areWritable_iff]

theorem kind?_of_field {fields : List (List Nat × Json)} {kind : String}
    (h : field? fields "kind" = some (string (units kind))) :
    kind? (.object fields) = some kind := by
  rw [kind?, h, Option.bind_some, string?, text?_units]

/-- The reader of operations takes exactly the indices of 64 bits. -/
theorem ofFields?_toJson_iff (o : Operation) :
    ofFields? o.toJson = some o ↔ o.InRange limit64 limit64 := by
  -- The names of the fields are fixed, so finding one among them is a computation.
  cases o with
  | gate name targets =>
      have hkind : kind? (gate name targets).toJson = some "gate" := kind?_of_field rfl
      have hrecord : (gate name targets).toJson.record? ["kind", "gate", "targets"]
          = some [string (units "gate"), string (units name), array (targets.map natural)] := rfl
      have htargets : (targets.map natural).mapM unsigned64? = some targets
          ↔ ∀ t ∈ targets, t < limit64 := by
        simp only [mapM_map_eq_some_iff, unsigned64?_natural_iff]
      rw [ofFields?, hkind, InRange, ← htargets]
      simp only [hrecord, Option.bind_eq_bind, Option.bind_some, string?, text?_units, array?]
      cases (targets.map natural).mapM unsigned64? <;> simp
  | measurement qubit result =>
      have hkind : kind? (measurement qubit result).toJson = some "measurement" :=
        kind?_of_field rfl
      have hrecord : (measurement qubit result).toJson.record? ["kind", "qubit", "result"]
          = some [string (units "measurement"), natural qubit, natural result] := rfl
      rw [ofFields?, hkind, InRange, ← unsigned64?_natural_iff, ← unsigned64?_natural_iff]
      simp only [hrecord, Option.bind_eq_bind, Option.bind_some]
      cases unsigned64? (natural qubit) <;> cases unsigned64? (natural result) <;> simp
  | remark text =>
      have hkind : kind? (remark text).toJson = some "annotation" := kind?_of_field rfl
      have hrecord : (remark text).toJson.record? ["kind", "text"]
          = some [string (units "annotation"), string (units text)] := rfl
      rw [ofFields?, hkind, InRange]
      simp only [hrecord, Option.bind_eq_bind, Option.bind_some, string?, text?_units,
        Option.pure_def]

theorem isStorable_toJson {o : Operation} (h : o.InRange limit64 limit64) :
    o.toJson.isStorable nestingLimit = true := by
  cases o with
  | gate name targets =>
      have htargets : ∀ t ∈ targets, (Numeral.ofNat t).isFinite = true :=
        fun t ht => Numeral.isFinite_ofNat (h t ht)
      simpa [toJson, isStorable, fieldsStorable, nestingLimit, areStorable_iff] using htargets
  | measurement qubit result =>
      simp [toJson, isStorable, fieldsStorable, nestingLimit, Numeral.isFinite_ofNat h.1,
        Numeral.isFinite_ofNat h.2]
  | remark text => simp [toJson, isStorable, fieldsStorable, nestingLimit]

theorem ofJson?_toJson_iff (o : Operation) :
    ofJson? o.toJson = some o ↔ o.InRange limit64 limit64 := by
  constructor
  · intro h
    rw [ofJson?] at h
    split at h
    · exact (ofFields?_toJson_iff o).1 h
    · cases h
  · intro h
    rw [ofJson?, if_pos (isStorable_toJson h)]
    exact (ofFields?_toJson_iff o).2 h

end Operation

namespace Circuit

open Json
open Decimal (limit64)

/-- The wire counts and all indices are numbers of 64 bits. -/
structure Fits64 (c : Circuit) : Prop where
  numQubits : c.numQubits < limit64
  numResults : c.numResults < limit64
  operations : ∀ o ∈ c.operations.toList, o.InRange limit64 limit64

theorem isWritable_toJson (c : Circuit) : c.toJson.IsWritable := by
  have hoperations : ∀ o ∈ c.operations.toList, o.toJson.IsWritable :=
    fun o _ => o.isWritable_toJson
  simpa [toJson, IsWritable, FieldsWritable, areUnits_units, areWritable_iff] using hoperations

/-- A circuit is read back from its value exactly if it fits. -/
theorem ofJson?_toJson_iff (c : Circuit) : ofJson? c.toJson = some c ↔ c.Fits64 := by
  have hrecord : c.toJson.record? ["numQubits", "numResults", "operations"]
      = some [natural c.numQubits, natural c.numResults,
        array (c.operations.toList.map Operation.toJson)] := rfl
  have hnames : namesAreTexts c.toJson = true := by simp [namesAreTexts, toJson]
  have hoperations : (c.operations.toList.map Operation.toJson).mapM Operation.ofJson?
      = some c.operations.toList ↔ ∀ o ∈ c.operations.toList, o.InRange limit64 limit64 := by
    simp only [mapM_map_eq_some_iff, Operation.ofJson?_toJson_iff]
  rw [ofJson?]
  simp only [hrecord, hnames, array?, Option.bind_eq_bind, Option.bind_some, if_true]
  constructor
  · intro h
    obtain ⟨os, hos, h⟩ := Option.bind_eq_some_iff.1 h
    obtain ⟨q, hq, h⟩ := Option.bind_eq_some_iff.1 h
    obtain ⟨r, hr, h⟩ := Option.bind_eq_some_iff.1 h
    -- What was read is the circuit itself, so the numbers that passed are its own.
    have hc := Option.some.inj h
    have hlist : os = c.operations.toList := congrArg (fun c => c.operations.toList) hc
    rw [hlist] at hos
    rw [show q = c.numQubits from congrArg Circuit.numQubits hc] at hq
    rw [show r = c.numResults from congrArg Circuit.numResults hc] at hr
    exact ⟨unsigned64?_natural_iff.1 hq, unsigned64?_natural_iff.1 hr, hoperations.1 hos⟩
  · intro h
    rw [hoperations.2 h.operations, unsigned64?_natural_iff.2 h.numQubits,
      unsigned64?_natural_iff.2 h.numResults]
    rfl

end Circuit

namespace Artifact

open Json

/-- Artifacts are read back from their JSON texts: of the circuits exactly those whose
    numbers have 64 bits, whether their indices are in range or not, and every text. -/
theorem toJson_lossless :
    (∀ c : Circuit, Circuit.parse? (circuit c).toJson = some c ↔ c.Fits64)
      ∧ ∀ t : String, (Json.parse? (text t).toJson).bind string? = some t := by
  refine ⟨fun c => ?_, fun t => ?_⟩
  · rw [toJson, Circuit.parse?, parse?_pretty c.isWritable_toJson, Option.bind_some,
      Circuit.ofJson?_toJson_iff]
  · have hwritable : (string (units t)).IsWritable := by
      rw [IsWritable]
      exact areUnits_units t
    rw [toJson, parse?_pretty hwritable, Option.bind_some, string?, text?_units]

/-- A circuit with everything that its text has to escape, no target and one that is out of
    range, and the largest number of 64 bits. -/
def hostileCircuit : Circuit where
  numQubits := 18446744073709551615
  operations := #[.gate "\"\\/\x08\x0c\n\r\t\x00\x1f\x7f" [], .gate "é𝄞" [0, 18446744073709551615],
    .measurement 7 9, .remark ""]

theorem toJson_lossless_hostileCircuit :
    hostileCircuit.Fits64
      ∧ Circuit.parse? (circuit hostileCircuit).toJson = some hostileCircuit := by
  have hfits : hostileCircuit.Fits64 := by
    refine ⟨by decide, by decide, ?_⟩
    simp [hostileCircuit, Operation.InRange, Decimal.limit64]
  exact ⟨hfits, (toJson_lossless.1 hostileCircuit).2 hfits⟩

end Artifact

end QuantumIR
