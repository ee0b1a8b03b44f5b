import QuantumIR.Proofs.Circuit.Range

/-!
# Building a Circuit

A circuit over the whole time in which it is built. It starts without operations and is
asked to add one after the other, and whoever builds it may go on after a refusal. Each
call is answered at once, without knowing what will be asked later.

Whether a call is refused depends on the wire counts, and these never change. So the
answer to a call is known from the call alone, whatever was asked before it, and the
circuit at any moment is known from the calls up to then: it holds those that were in
range, in their order. That it is well-formed follows from this, and so does that a
refused call leaves no trace.

## Main definitions

* `blank`: A circuit without operations.
* `after`, `answers`: The circuit after a list of calls, and all that was answered.
* `stage`: The circuit after the first calls of a list.
* `accepted`: The calls that were not refused.

## Theorems

* `counts_add`, `WellFormed.add`: What every call keeps, also one that is refused.
* `WellFormed.after`, `toList_operations_after`: What holds after any list of calls.
* `answer_eq_none_iff`, `answer_eq_some_iff`: The answer to each call.
* `construction_run`: What holds at all moments while a circuit is built.
-/

namespace QuantumIR

namespace Circuit

/-- A circuit with the given numbers of wires and without operations. -/
def blank (numQubits numResults : Nat) : Circuit :=
  { numQubits, numResults }

/-- The circuit after a list of calls, whatever they answer. -/
def after (c : Circuit) : List Operation → Circuit
  | [] => c
  | o :: os => after (c.add o).circuit os

/-- The answers to a list of calls. -/
def answers (c : Circuit) : List Operation → List (Option Error)
  | [] => []
  | o :: os => (c.add o).failure :: answers (c.add o).circuit os

/-- The circuit after the first calls of a list. -/
def stage (numQubits numResults : Nat) (os : List Operation) (count : Nat) : Circuit :=
  after (blank numQubits numResults) (os.take count)

/-- The calls that were not refused, in their order. -/
def accepted (os : List Operation) (answers : List (Option Error)) : List Operation :=
  ((os.zip answers).filter fun p => p.2.isNone).map Prod.fst

/-! ### One call -/

theorem counts_add (c : Circuit) (o : Operation) :
    (c.add o).circuit.numQubits = c.numQubits ∧ (c.add o).circuit.numResults = c.numResults := by
  rcases add_cases c o with ⟨-, h⟩ | ⟨err, -, h⟩
  · rw [h]
    exact ⟨rfl, rfl⟩
  · rw [h]
    exact ⟨rfl, rfl⟩

theorem WellFormed.add {c : Circuit} (h : c.WellFormed) (o : Operation) :
    (c.add o).circuit.WellFormed := by
  rcases add_cases c o with ⟨hrange, hadded⟩ | ⟨err, -, hrefused⟩
  · rw [hadded]
    exact h.push hrange
  · rw [hrefused]
    exact h

/-! ### Many calls -/

theorem counts_after (c : Circuit) (os : List Operation) :
    (c.after os).numQubits = c.numQubits ∧ (c.after os).numResults = c.numResults := by
  induction os generalizing c with
  | nil => exact ⟨rfl, rfl⟩
  | cons o os ih =>
      rcases counts_add c o with ⟨hqubits, hresults⟩
      exact ⟨(ih _).1.trans hqubits, (ih _).2.trans hresults⟩

theorem WellFormed.after {c : Circuit} (h : c.WellFormed) (os : List Operation) :
    (c.after os).WellFormed := by
  induction os generalizing c with
  | nil => exact h
  | cons o os ih => exact ih (h.add o)

/-- After any calls the circuit holds what it held before, and the calls that were not
    refused. -/
theorem toList_operations_after (c : Circuit) (os : List Operation) :
    (c.after os).operations.toList
      = c.operations.toList ++ accepted os (c.answers os) := by
  induction os generalizing c with
  | nil => exact (List.append_nil _).symm
  | cons o os ih =>
      rw [after, ih, answers]
      rcases add_cases c o with ⟨-, h⟩ | ⟨err, -, h⟩
      · rw [h, toList_operations_push, List.append_assoc]
        rfl
      · rw [h]
        rfl

theorem after_append (c : Circuit) (os ps : List Operation) :
    c.after (os ++ ps) = (c.after os).after ps := by
  induction os generalizing c with
  | nil => rfl
  | cons o os ih => exact ih _

/-- A call is put to the circuit after the calls before it. -/
theorem getElem?_answers (c : Circuit) (os : List Operation) (place : Nat) :
    (c.answers os)[place]? = os[place]?.map fun o => ((c.after (os.take place)).add o).failure := by
  induction os generalizing c place with
  | nil => rfl
  | cons o os ih =>
      cases place with
      | zero => rfl
      | succ place => exact ih _ place

theorem wellFormed_blank (numQubits numResults : Nat) :
    (blank numQubits numResults).WellFormed := by
  intro o ho
  cases ho

section Places

variable {numQubits numResults : Nat} {os : List Operation} {place : Nat} {o : Operation}
  (h : os[place]? = some o)

include h

theorem answers_stage :
    ((blank numQubits numResults).answers os)[place]?
      = some ((stage numQubits numResults os place).add o).failure := by
  rw [getElem?_answers, h, Option.map_some, stage]

theorem stage_succ :
    stage numQubits numResults os (place + 1)
      = ((stage numQubits numResults os place).add o).circuit := by
  rw [stage, List.take_add_one, h, after_append]
  rfl

/-- What was asked before does not matter for the answer to a call: it is judged by the
    wire counts that the circuit was made with. -/
theorem answer_eq_none_iff :
    ((blank numQubits numResults).answers os)[place]? = some none
      ↔ o.InRange numQubits numResults := by
  rcases counts_after (blank numQubits numResults) (os.take place) with ⟨hqubits, hresults⟩
  rw [answers_stage h, Option.some.injEq, failure_add_eq_none_iff, stage, hqubits, hresults]
  rfl

theorem answer_eq_some_iff {err : Error} :
    ((blank numQubits numResults).answers os)[place]? = some (some err)
      ↔ o.Exceeds numQubits numResults err := by
  rcases counts_after (blank numQubits numResults) (os.take place) with ⟨hqubits, hresults⟩
  rw [answers_stage h, Option.some.injEq, failure_add_eq_some_iff, stage, hqubits, hresults]
  rfl

end Places

/-- **What holds at all moments while a circuit is built.** The wire counts are those it
    was made with, all operations refer to wires that it has, and the operations are the
    calls that were not refused so far, in their order. A call is accepted exactly if it is
    in range, and otherwise refused over its first wire that is not. An accepted call adds
    its operation, and a refused one leaves the circuit exactly as it was. -/
theorem construction_run (numQubits numResults : Nat) (os : List Operation) :
    (∀ count, (stage numQubits numResults os count).numQubits = numQubits
        ∧ (stage numQubits numResults os count).numResults = numResults
        ∧ (stage numQubits numResults os count).WellFormed
        ∧ (stage numQubits numResults os count).operations.toList
          = accepted (os.take count) ((blank numQubits numResults).answers (os.take count)))
      ∧ ∀ (place : Nat) (o : Operation), os[place]? = some o →
        (((blank numQubits numResults).answers os)[place]? = some none
            ↔ o.InRange numQubits numResults)
          ∧ (∀ err, ((blank numQubits numResults).answers os)[place]? = some (some err)
            ↔ o.Exceeds numQubits numResults err)
          ∧ (((blank numQubits numResults).answers os)[place]? = some none →
            stage numQubits numResults os (place + 1)
              = (stage numQubits numResults os place).push o)
          ∧ (((blank numQubits numResults).answers os)[place]? ≠ some none →
            stage numQubits numResults os (place + 1) = stage numQubits numResults os place) := by
  constructor
  · intro count
    rcases counts_after (blank numQubits numResults) (os.take count) with ⟨hqubits, hresults⟩
    refine ⟨hqubits, hresults, ?_, ?_⟩
    · exact (wellFormed_blank numQubits numResults).after (os.take count)
    · exact toList_operations_after (blank numQubits numResults) (os.take count)
  · intro place o h
    refine ⟨answer_eq_none_iff h, fun err => answer_eq_some_iff h, ?_, ?_⟩
    · intro hnone
      rw [answers_stage h, Option.some.injEq] at hnone
      rw [stage_succ h, circuit_add, if_pos hnone]
    · intro hsome
      rw [answers_stage h, Ne, Option.some.injEq] at hsome
      rw [stage_succ h, circuit_add, if_neg hsome]

/-- Calls of every kind, of which three are refused. The first has two targets out of
    range behind one that is not, and the third has no wire in range at all. -/
def clumsyCalls : List Operation :=
  [.gate "CCX" [1, 5, 7], .gate "H" [1], .measurement 3 9, .measurement 0 9, .remark "done",
    .gate "CX" [0, 1], .measurement 1 0]

theorem construction_run_clumsyCalls :
    (blank 2 1).answers clumsyCalls
        = [some (.qubitOutOfRange 5 2), none, some (.qubitOutOfRange 3 2),
          some (.resultOutOfRange 9 1), none, none, none]
      ∧ Operation.Exceeds 2 1 (.gate "CCX" [1, 5, 7]) (.qubitOutOfRange 5 2)
      ∧ stage 2 1 clumsyCalls 1 = stage 2 1 clumsyCalls 0
      ∧ stage 2 1 clumsyCalls 2 = (stage 2 1 clumsyCalls 1).push (.gate "H" [1])
      ∧ (stage 2 1 clumsyCalls 7).WellFormed
      ∧ (stage 2 1 clumsyCalls 7).operations.toList
        = [.gate "H" [1], .remark "done", .gate "CX" [0, 1], .measurement 1 0] := by
  rcases construction_run 2 1 clumsyCalls with ⟨hstages, hcalls⟩
  rcases hcalls 0 _ rfl with ⟨-, hrefused, -, hsame⟩
  rcases hcalls 1 _ rfl with ⟨-, -, hadded, -⟩
  rcases hstages 7 with ⟨-, -, hwellFormed, hoperations⟩
  exact ⟨by decide, (hrefused _).1 (by decide), hsame (by decide), hadded (by decide),
    hwellFormed, hoperations.trans (by decide)⟩

end Circuit

end QuantumIR
