import QuantumIR.Circuit.Dialect
import QuantumIR.OpenQasm.Writer
import QuantumIR.Proofs.Emission.Session

/-!
# Where a Run Stops

Which instructions end a run, with which error, and in which state they leave it.

The pass decides by the role of an opcode and reports a miscount from two places:
gates and resets are counted where a gate is applied and are named after their
symbol, all others are counted where their operands are taken apart and are named
after their opcode. `Demands` states the outcome of both as one table from opcodes to
names and numbers of operands, without roles and without an emission. An opcode
outside of the table demands nothing and cannot fail.

A run stops at the first instruction that does not meet the demand. Whether it stops
depends on the instructions alone, so the state from which the run starts, however it
was reached, matters only for what is left. No operand of the instruction that failed
has been numbered. Nothing of it has been recorded either, with one exception: a
reset is announced before its operands are counted, and the announcement stays.

## Main definitions

* `Demands`: The number of operands that an opcode asks for, and the name that a
  wrong number is reported under.
* `Refused`: An instruction does not meet the demand of its opcode.
* `StopsAt`: The place at which a list of instructions is given up.

## Theorems

* `fault_eq_some_iff`: The error of an instruction, by the table.
* `run_append`: Instructions after instructions.
* `run_of_stopsAt`: A run that stops, by the run before the place where it does.
* `failure_eq_some_iff`: A run fails exactly if there is such a place.
* `run_failure_exact`: When a run fails, with which error, and with which numberings.
* `run_failure_residue`: What is recorded by a run that fails.
-/

namespace QuantumIR

/-- What an opcode demands: a number of operands, and the name under which a wrong
    number is reported. -/
inductive Demands (d : Dialect) : (opcode name : String) → (count : Nat) → Prop
  | gate {opcode : String} {g : Gate} (h : d.lookup? opcode = some g) :
      Demands d opcode g.symbol g.arity
  | reset : Demands d "__quantum__qis__reset__body" d.resetSymbol 1
  | measurement {opcode : String}
      (h : opcode ∈ ["__quantum__qis__mz__body", "__quantum__qis__m__body"]) :
      Demands d opcode opcode 2
  | measureReset : Demands d "__quantum__qis__mresetz__body" "__quantum__qis__mresetz__body" 2
  | readout {opcode : String}
      (h : opcode ∈ ["__quantum__qir__read_result", "__quantum__rt__read_result"]) :
      Demands d opcode opcode 1

/-- The instruction has another number of operands than its opcode demands, and this
    is the error that says so. -/
structure Refused (d : Dialect) (i : Instruction) (err : ArityError) : Prop where
  demands : Demands d i.opcode err.name err.expected
  found : err.found = i.operands.length
  wrong : err.found ≠ err.expected

/-- Of the instructions `is`, those in `before` are not refused, and `i`, which comes
    next, is the first that is. -/
structure StopsAt (d : Dialect) (is before : List Instruction) (i : Instruction)
    (err : ArityError) : Prop where
  place : before ++ [i] <+: is
  earlier : ∀ j ∈ before, ∀ err', ¬ Refused d j err'
  refused : Refused d i err

section Table

variable {d : Dialect} {i : Instruction}

theorem Demands.operandCount? {opcode name : String} {count : Nat}
    (h : Demands d opcode name count) (hi : i.opcode = opcode) :
    i.role.operandCount? = some count ∧ i.faultName d = name := by
  have hrole : i.role = Role.ofOpcode opcode := by
    rw [← hi]
    rfl
  rw [Instruction.faultName, hrole, hi]
  cases h with
  | gate hgate =>
      rw [Dialect.lookup?, Option.map_eq_some_iff] at hgate
      rcases hgate with ⟨kind, hkind, rfl⟩
      have hgate : Role.ofOpcode opcode = .gate kind := by
        rw [Role.ofOpcode, hkind]
      rw [hgate]
      exact ⟨rfl, rfl⟩
  | reset | measureReset => exact ⟨rfl, rfl⟩
  | measurement hmem | readout hmem =>
      -- Two opcodes each, and the table of gates holds neither of them.
      simp only [List.mem_cons, List.not_mem_nil, or_false] at hmem
      rcases hmem with rfl | rfl <;> exact ⟨rfl, rfl⟩

theorem demands_of_operandCount? (d : Dialect) {count : Nat}
    (h : i.role.operandCount? = some count) : Demands d i.opcode (i.faultName d) count := by
  have hrole : i.role = Role.ofOpcode i.opcode := rfl
  rw [Role.ofOpcode] at hrole
  cases hkind : GateKind.ofOpcode? i.opcode with
  | some kind =>
      simp only [hkind] at hrole
      rw [hrole] at h
      injection h with h
      have hgate : d.lookup? i.opcode = some (d.gate kind) := by
        rw [Dialect.lookup?, hkind, Option.map_some]
      rw [Instruction.faultName, hrole, ← h]
      exact .gate hgate
  | none =>
      simp only [hkind] at hrole
      -- The opcodes that are no gates, in the order in which they are tried.
      split_ifs at hrole with hreset hmeasurement hmeasureReset hreadout
      all_goals
        rw [Instruction.faultName, hrole]
        rw [hrole] at h
        cases h
      · rw [hreset]
        exact .reset
      · exact .measurement hmeasurement
      · rw [hmeasureReset]
        exact .measureReset
      · exact .readout hreadout

/-- An instruction has an error exactly if it is refused with this error. -/
theorem fault_eq_some_iff {err : ArityError} : i.fault d = some err ↔ Refused d i err := by
  rw [Instruction.fault]
  constructor
  · intro h
    split at h
    · rename_i count hcount
      split_ifs at h with hlength
      cases h
      exact ⟨demands_of_operandCount? d hcount, rfl, hlength⟩
    · cases h
  · rintro ⟨hdemands, hfound, hwrong⟩
    rcases hdemands.operandCount? rfl with ⟨hcount, hname⟩
    rw [hcount]
    simp only []
    rw [if_neg (by rwa [← hfound]), hname, ← hfound]

theorem fault_eq_none_of_not_refused (h : ∀ err, ¬ Refused d i err) : i.fault d = none := by
  cases hfault : i.fault d with
  | none => rfl
  | some err => exact absurd (fault_eq_some_iff.1 hfault) (h err)

theorem role_eq_reset_iff : i.role = .reset ↔ i.opcode = "__quantum__qis__reset__body" := by
  rw [Instruction.role, Role.ofOpcode]
  constructor
  · intro h
    split at h
    · cases h
    · split_ifs at h with hreset
      exact hreset
  · intro h
    rw [h]
    rfl

end Table

namespace Emission

variable {d : Dialect} {is before : List Instruction} {i : Instruction} {err : ArityError}

theorem run_append (d : Dialect) (e : Emission) (is js : List Instruction) :
    e.run d (is ++ js) = (e.run d is).bind fun e => e.run d js := by
  induction is generalizing e with
  | nil => rfl
  | cons i is ih =>
      rw [List.cons_append, run, run]
      unfold Outcome.bind
      cases hfailure : (e.step d i).failure with
      | none => exact ih _
      | some err => simp only [hfailure]

/-- A refused instruction leaves the emission as it was, but for the announcement of a
    reset. -/
theorem step_of_refused (e : Emission) (h : Refused d i err) :
    e.step d i = ⟨if i.opcode = "__quantum__qis__reset__body"
      then e.comment "Requires nonstandard reset gate:" else e, some err⟩ := by
  have hfault := fault_eq_some_iff.2 h
  have hcounted : ¬ i.Counted := by
    rw [← Instruction.fault_eq_none_iff d, hfault]
    exact Option.some_ne_none err
  have hfailure : (e.step d i).failure = some err := by
    rw [step_failure, hfault]
  have hemission := step_emission_of_not_counted d e hcounted
  simp only [role_eq_reset_iff] at hemission
  rw [← hemission, ← hfailure]

/-- A run that stops is the run before the place where it does, and then what the
    refused instruction leaves. -/
theorem run_of_stopsAt (e : Emission) (h : StopsAt d is before i err) :
    (e.run d before).failure = none
      ∧ e.run d is = ⟨if i.opcode = "__quantum__qis__reset__body"
          then (e.run d before).emission.comment "Requires nonstandard reset gate:"
          else (e.run d before).emission, some err⟩ := by
  have hbefore : (e.run d before).failure = none := by
    rw [run_failure, List.findSome?_eq_none_iff]
    exact fun j hj => fault_eq_none_of_not_refused (h.earlier j hj)
  refine ⟨hbefore, ?_⟩
  -- The run goes through what comes before, and what comes after is never reached.
  rcases h.place with ⟨after, rfl⟩
  have hstep := step_of_refused (e.run d before).emission h.refused
  rw [List.append_assoc, run_append, Outcome.bind, hbefore]
  simp only []
  rw [List.singleton_append, run, hstep]
  rfl

/-- A run fails with the error of the first instruction that is refused. -/
theorem failure_eq_some_iff (e : Emission) :
    (e.run d is).failure = some err ↔ ∃ before i, StopsAt d is before i err := by
  constructor
  · intro h
    rw [run_failure, List.findSome?_eq_some_iff] at h
    rcases h with ⟨before, i, after, his, hi, hbefore⟩
    refine ⟨before, i, ⟨⟨after, by simp [his]⟩, fun j hj err' herr => ?_, fault_eq_some_iff.1 hi⟩⟩
    rw [← fault_eq_some_iff, hbefore j hj] at herr
    cases herr
  · rintro ⟨before, i, h⟩
    rw [(run_of_stopsAt e h).2]

/-- **When a run fails.** A run fails exactly if one of its instructions is refused, and
    then with the error of the first of these. What comes before it is carried out, and
    both numberings stay as that has left them. An instruction of which nothing is
    demanded never fails, whatever its operands are. -/
theorem run_failure_exact (d : Dialect) (e : Emission) (is : List Instruction) :
    ((e.run d is).failure ≠ none ↔ ∃ i ∈ is, ∃ err, Refused d i err)
      ∧ (∀ err, (e.run d is).failure = some err ↔ ∃ before i, StopsAt d is before i err)
      ∧ (∀ before i err, StopsAt d is before i err →
          (e.run d before).failure = none
            ∧ (e.run d is).emission.qubits = (e.run d before).emission.qubits
            ∧ (e.run d is).emission.results = (e.run d before).emission.results)
      ∧ ∀ i, (∀ name count, ¬ Demands d i.opcode name count) → (e.step d i).failure = none := by
  refine ⟨?_, fun err => failure_eq_some_iff e, ?_, ?_⟩
  · rw [run_failure, Ne, List.findSome?_eq_none_iff]
    simp only [not_forall, exists_prop, ← Ne.eq_def, Option.ne_none_iff_exists',
      fault_eq_some_iff]
  · intro before i err h
    rcases run_of_stopsAt e h with ⟨hbefore, hrun⟩
    refine ⟨hbefore, ?_⟩
    -- A comment numbers nothing, so the announcement of a reset makes no difference.
    rw [hrun]
    split <;> exact ⟨rfl, rfl⟩
  · intro i hi
    rw [step_failure]
    exact fault_eq_none_of_not_refused fun err h => hi _ _ h.demands

/-- Instructions of every kind of demand, of which the fourth and the last are
    refused. The second has no demand to meet. -/
def overfullReset : List Instruction :=
  [{ opcode := "__quantum__qis__cnot__body", operands := [.qubit (some 4), .pointer (some 7)] },
    { opcode := "foo", operands := [.result (some 2), .qubit none, .integer 5] },
    { opcode := "__quantum__qis__mresetz__body", operands := [.qubit (some 7), .result (some 1)] },
    { opcode := "__quantum__qis__reset__body", operands := [.qubit (some 4), .qubit (some 9)] },
    { opcode := "__quantum__qis__x__body", operands := [] }]

theorem stopsAt_overfullReset :
    StopsAt OpenQasm.dialect overfullReset (overfullReset.take 3)
      { opcode := "__quantum__qis__reset__body", operands := [.qubit (some 4), .qubit (some 9)] }
      ⟨"reset", 1, 2⟩ where
  place := List.take_prefix 4 overfullReset
  earlier := by
    have hcounted : ∀ j ∈ overfullReset.take 3, j.fault OpenQasm.dialect = none := by decide
    intro j hj err h
    rw [← fault_eq_some_iff, hcounted j hj] at h
    cases h
  refused := fault_eq_some_iff.1 (by decide)

theorem run_failure_exact_overfullReset :
    (run OpenQasm.dialect {} overfullReset).failure = some ⟨"reset", 1, 2⟩
      ∧ (run OpenQasm.dialect {} (overfullReset.take 3)).failure = none
      ∧ (run OpenQasm.dialect {} overfullReset).emission.qubits
        = (run OpenQasm.dialect {} (overfullReset.take 3)).emission.qubits
      ∧ (run OpenQasm.dialect {} overfullReset).emission.results
        = (run OpenQasm.dialect {} (overfullReset.take 3)).emission.results := by
  rcases run_failure_exact OpenQasm.dialect {} overfullReset with ⟨-, herror, hleft, -⟩
  exact ⟨(herror _).2 ⟨_, _, stopsAt_overfullReset⟩, hleft _ _ _ stopsAt_overfullReset⟩

/-- **What a run that fails has recorded.** A run that fails stops at some place, and it
    has recorded what the instructions before this place record. If the refused one is a
    reset, the announcement of the reset is left in addition, among the operations and
    among the lines of a text alike; so the record is that of the instructions before if
    and only if the refused one is no reset. -/
theorem run_failure_residue (d : Dialect) (e : Emission) (is : List Instruction) :
    (∀ err, (e.run d is).failure = some err → ∃ before i, StopsAt d is before i err)
      ∧ ∀ before i err, StopsAt d is before i err →
        (e.run d before).failure = none
          ∧ (e.run d is).emission.operations.toList
            = (e.run d before).emission.operations.toList
              ++ (if i.opcode = "__quantum__qis__reset__body"
                then [.remark "Requires nonstandard reset gate:"] else [])
          ∧ OpenQasm.body (e.run d is).emission
            = OpenQasm.body (e.run d before).emission
              ++ (if i.opcode = "__quantum__qis__reset__body"
                then ["// Requires nonstandard reset gate:"] else [])
          ∧ ((e.run d is).emission.operations = (e.run d before).emission.operations
            ↔ i.opcode ≠ "__quantum__qis__reset__body") := by
  refine ⟨fun err => (failure_eq_some_iff e).1, ?_⟩
  intro before i err h
  rcases run_of_stopsAt e h with ⟨hbefore, hrun⟩
  have hoperations : (e.run d is).emission.operations.toList
      = (e.run d before).emission.operations.toList
        ++ (if i.opcode = "__quantum__qis__reset__body"
          then [.remark "Requires nonstandard reset gate:"] else []) := by
    rw [hrun]
    by_cases hreset : i.opcode = "__quantum__qis__reset__body"
    · simp only [if_pos hreset, toList_operations_comment, commentLines_resetNotice,
        List.map_cons, List.map_nil]
    · simp only [if_neg hreset, List.append_nil]
  refine ⟨hbefore, hoperations, ?_, ?_⟩
  · rw [OpenQasm.body, hoperations, List.map_append, OpenQasm.body]
    split <;> rfl
  · rw [← Array.toList_inj, hoperations]
    by_cases hreset : i.opcode = "__quantum__qis__reset__body" <;> simp [hreset]

theorem run_failure_residue_overfullReset :
    (run OpenQasm.dialect {} overfullReset).failure = some ⟨"reset", 1, 2⟩
      ∧ OpenQasm.body (run OpenQasm.dialect {} overfullReset).emission
        = OpenQasm.body (run OpenQasm.dialect {} (overfullReset.take 3)).emission
          ++ ["// Requires nonstandard reset gate:"] := by
  rcases run_failure_residue OpenQasm.dialect {} overfullReset with ⟨-, hleft⟩
  rcases hleft _ _ _ stopsAt_overfullReset with ⟨-, -, hbody, -⟩
  exact ⟨(failure_eq_some_iff {}).2 ⟨_, _, stopsAt_overfullReset⟩, hbody⟩

/-- A reset of nothing. -/
def bareReset : Instruction where
  opcode := "__quantum__qis__reset__body"
  operands := []

/-- A failed instruction can leave something behind. Nothing comes before the reset, but
    a text and a circuit both get its announcement. -/
theorem not_atomic_bareReset :
    ofBlock OpenQasm.dialect { name := "entry" } = .ok {}
      ∧ (run OpenQasm.dialect {} [bareReset]).failure = some ⟨"reset", 1, 0⟩
      ∧ OpenQasm.body (run OpenQasm.dialect {} [bareReset]).emission
        ≠ OpenQasm.body (run OpenQasm.dialect {} []).emission
      ∧ ofBlock Circuit.dialect { name := "entry" } = .ok {}
      ∧ (run Circuit.dialect {} [bareReset]).failure = some ⟨"Reset", 1, 0⟩
      ∧ (run Circuit.dialect {} [bareReset]).emission.operations
        ≠ (run Circuit.dialect {} []).emission.operations := by
  refine ⟨rfl, by decide, by decide, rfl, by decide, by decide⟩

end Emission

end QuantumIR
