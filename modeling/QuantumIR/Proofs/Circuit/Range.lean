import QuantumIR.Circuit.Basic

/-!
# Wires in Range

Adding an operation to a circuit fails only over its wires, so operations whose
wires the circuit has are added one after the other, as they are. A call that fails
leaves the circuit as it was, however many of its wires are in range.

## Main definitions

* `Operation.InRange`: An operation refers only to wires below two bounds.
* `Operation.Exceeds`: The first wire of an operation that is not below its bound.
* `Circuit.WellFormed`: All operations refer only to wires of the circuit.

## Theorems

* `InRange.mono`: Larger bounds allow at least as much.
* `inRange_or_exceeds`: One of the two holds of every operation.
* `add_of_inRange`: An operation in range is added at the end.
* `add_of_exceeds`: Any other is refused, and the circuit stays as it was.
* `add_cases`: All that a call can do.
* `result_add_eq_ok_iff`, `result_add_eq_error_iff`: The same for a caller who gives up on
  refusals.
* `addAll_of_inRange`: Operations in range are added in their order.
-/

namespace QuantumIR

namespace Operation

/-- The operation refers only to qubits and results below the bounds. -/
def InRange (numQubits numResults : Nat) : Operation → Prop
  | gate _ targets => ∀ t ∈ targets, t < numQubits
  | measurement q r => q < numQubits ∧ r < numResults
  | remark _ => True

theorem InRange.mono {nq nr nq' nr' : Nat} (hq : nq ≤ nq') (hr : nr ≤ nr') {o : Operation}
    (h : o.InRange nq nr) : o.InRange nq' nr' := by
  cases o with
  | gate name targets => exact fun t ht => Nat.lt_of_lt_of_le (h t ht) hq
  | measurement q r => exact ⟨Nat.lt_of_lt_of_le h.1 hq, Nat.lt_of_lt_of_le h.2 hr⟩
  | remark text => trivial

/-- The first wire of the operation that is not below its bound, as it is reported. The
    targets of a gate are looked at in their order, and the qubit of a measurement before
    its result. -/
inductive Exceeds (numQubits numResults : Nat) : Operation → Circuit.Error → Prop
  | target (name : String) {before after : List Nat} {t : Nat}
      (hbefore : ∀ u ∈ before, u < numQubits) (h : numQubits ≤ t) :
      Exceeds numQubits numResults (gate name (before ++ t :: after))
        (.qubitOutOfRange t numQubits)
  | qubit {q : Nat} (r : Nat) (h : numQubits ≤ q) :
      Exceeds numQubits numResults (measurement q r) (.qubitOutOfRange q numQubits)
  | result {q r : Nat} (hq : q < numQubits) (h : numResults ≤ r) :
      Exceeds numQubits numResults (measurement q r) (.resultOutOfRange r numResults)

/-- One of the two holds of every operation. -/
theorem inRange_or_exceeds (numQubits numResults : Nat) (o : Operation) :
    o.InRange numQubits numResults ∨ ∃ err, o.Exceeds numQubits numResults err := by
  cases o with
  | gate name targets =>
      cases hfind : targets.find? (numQubits ≤ ·) with
      | none =>
          left
          intro t ht
          simpa using List.find?_eq_none.1 hfind t ht
      | some t =>
          right
          rcases List.find?_eq_some_iff_append.1 hfind with ⟨ht, before, after, rfl, hbefore⟩
          exact ⟨_, .target name (fun u hu => by simpa using hbefore u hu) (by simpa using ht)⟩
  | measurement q r =>
      by_cases hq : numQubits ≤ q
      · exact .inr ⟨_, .qubit r hq⟩
      · by_cases hr : numResults ≤ r
        · exact .inr ⟨_, .result (Nat.lt_of_not_le hq) hr⟩
        · exact .inl ⟨Nat.lt_of_not_le hq, Nat.lt_of_not_le hr⟩
  | remark text => exact .inl trivial

end Operation

namespace Circuit

/-- Every operation refers only to wires that the circuit has. -/
def WellFormed (c : Circuit) : Prop :=
  ∀ o ∈ c.operations.toList, o.InRange c.numQubits c.numResults

/-! ### One call -/

section Call

variable {c : Circuit} {o : Operation}

/-- An operation in range is added at the end. -/
theorem add_of_inRange (h : o.InRange c.numQubits c.numResults) :
    c.add o = { circuit := c.push o } := by
  cases o with
  | gate name targets =>
      have hfind : targets.find? (c.numQubits ≤ ·) = none := by
        rw [List.find?_eq_none]
        intro t ht
        simpa using h t ht
      simp only [add, gate, hfind]
  | measurement q r =>
      rw [add, measure, if_neg (Nat.not_le.2 h.1), if_neg (Nat.not_le.2 h.2)]
  | remark text => rfl

/-- Any other operation is refused over its first wire that is out of range, and the
    circuit stays as it was. -/
theorem add_of_exceeds {err : Error} (h : o.Exceeds c.numQubits c.numResults err) :
    c.add o = { circuit := c, failure := some err } := by
  cases h with
  | @target name before after t hbefore ht =>
      have hfind : (before ++ t :: after).find? (c.numQubits ≤ ·) = some t := by
        rw [List.find?_eq_some_iff_append]
        exact ⟨by simpa using ht, before, after, rfl, fun u hu => by simpa using hbefore u hu⟩
      simp only [add, gate, hfind]
  | qubit r hq => rw [add, measure, if_pos hq]
  | result hq hr => rw [add, measure, if_neg (Nat.not_le.2 hq), if_pos hr]

/-- A call is in range and adds its operation, or it exceeds the circuit and changes
    nothing. -/
theorem add_cases (c : Circuit) (o : Operation) :
    (o.InRange c.numQubits c.numResults ∧ c.add o = { circuit := c.push o })
      ∨ ∃ err, o.Exceeds c.numQubits c.numResults err
        ∧ c.add o = { circuit := c, failure := some err } := by
  rcases o.inRange_or_exceeds c.numQubits c.numResults with hrange | ⟨err, hexceeds⟩
  · exact .inl ⟨hrange, add_of_inRange hrange⟩
  · exact .inr ⟨err, hexceeds, add_of_exceeds hexceeds⟩

theorem failure_add_eq_none_iff :
    (c.add o).failure = none ↔ o.InRange c.numQubits c.numResults := by
  constructor
  · intro h
    rcases add_cases c o with ⟨hrange, -⟩ | ⟨err, -, hrefused⟩
    · exact hrange
    · rw [hrefused] at h
      cases h
  · intro h
    rw [add_of_inRange h]

theorem failure_add_eq_some_iff {err : Error} :
    (c.add o).failure = some err ↔ o.Exceeds c.numQubits c.numResults err := by
  constructor
  · intro h
    rcases add_cases c o with ⟨-, hadded⟩ | ⟨err', hexceeds, hrefused⟩
    · rw [hadded] at h
      cases h
    · rw [hrefused] at h
      cases h
      exact hexceeds
  · intro h
    rw [add_of_exceeds h]

theorem circuit_add (c : Circuit) (o : Operation) :
    (c.add o).circuit = if (c.add o).failure = none then c.push o else c := by
  rcases add_cases c o with ⟨-, h⟩ | ⟨err, -, h⟩
  · rw [h, if_pos rfl]
  · rw [h, if_neg (Option.some_ne_none err)]

/-- A caller who gives up on refusals goes on exactly if the operation is in range. -/
theorem result_add_eq_ok_iff {c' : Circuit} :
    (c.add o).result = .ok c' ↔ o.InRange c.numQubits c.numResults ∧ c' = c.push o := by
  constructor
  · intro h
    rcases add_cases c o with ⟨hrange, hadded⟩ | ⟨err, -, hrefused⟩
    · rw [hadded] at h
      cases h
      exact ⟨hrange, rfl⟩
    · rw [hrefused] at h
      cases h
  · rintro ⟨hrange, rfl⟩
    rw [add_of_inRange hrange]
    rfl

theorem result_add_eq_error_iff {err : Error} :
    (c.add o).result = .error err ↔ o.Exceeds c.numQubits c.numResults err := by
  rw [← failure_add_eq_some_iff, Outcome.result]
  cases (c.add o).failure with
  | none => simp
  | some err' => simp

end Call

theorem WellFormed.push {c : Circuit} (h : c.WellFormed) {o : Operation}
    (ho : o.InRange c.numQubits c.numResults) : (c.push o).WellFormed := by
  intro p hp
  rw [toList_operations_push, List.mem_append, List.mem_singleton] at hp
  rcases hp with hp | rfl
  · exact h p hp
  · exact ho

theorem operations_push_append (c : Circuit) (o : Operation) (os : List Operation) :
    (c.push o).operations ++ os.toArray = c.operations ++ (o :: os).toArray := by
  rw [← Array.toList_inj]
  simp [push]

/-- Operations in range are added in their order. -/
theorem addAll_of_inRange {c : Circuit} {os : List Operation}
    (h : ∀ o ∈ os, o.InRange c.numQubits c.numResults) :
    c.addAll os = .ok { c with operations := c.operations ++ os.toArray } := by
  induction os generalizing c with
  | nil => simp [addAll]
  | cons o os ih =>
      have hrest : ∀ p ∈ os, p.InRange (c.push o).numQubits (c.push o).numResults :=
        fun p hp => h p (List.mem_cons_of_mem _ hp)
      rw [addAll, result_add_eq_ok_iff.2 ⟨h o List.mem_cons_self, rfl⟩]
      exact (ih hrest).trans (by rw [operations_push_append]; rfl)

end Circuit

end QuantumIR
