import QuantumIR.Circuit.Dialect
import QuantumIR.Proofs.Emission.Rendering

/-!
# What a Session Records

A session goes on after calls that fail, so what it records is not a matter of
counted instructions only. A failed call leaves little behind: a gate that is
asked for with the wrong number of operands leaves nothing, and a list of
instructions leaves what its instructions before the first miscounted one leave,
and the announcement of a reset if that one is a reset.

The numbers are again those of the whole history. An operation that is recorded
early refers to its wires by the places of their first mention in all of the
session.

A circuit is made from what was recorded by adding the operations again, one by one,
to an empty circuit with as many wires as have a number at that time. Each addition
checks its wires, and none fails, whatever was asked for and whatever failed before.

## Main definitions

* `Instruction.performed`: The instructions before the first miscounted one.
* `Instruction.residue`: What a miscounted instruction leaves behind.
* `Call.qubitMentions`, `Call.resultMentions`: The identities that a call routes
  to each numbering.
* `Call.rendering`: The operations that a call records.
* `Session.rendering`: The operations of a block and of the calls that follow.

## Theorems

* `Follows.attempt`: A run, also one that fails, appends what it performs.
* `Follows.perform`: A call appends its rendering.
* `Follows.session`: A session appends the renderings of its calls.
* `follows_session`: What a session leaves, in closed form.
* `toCircuit_session`: What a session leaves is a circuit, operation for operation.
-/

namespace QuantumIR

namespace Instruction

/-- The instructions that are carried out: those before the first that is
    miscounted. -/
def performed (is : List Instruction) : List Instruction :=
  is.takeWhile fun i => decide i.Counted

/-- What a miscounted instruction leaves behind: a reset has been announced before
    its operands are counted. -/
def residue (i : Instruction) : List Operation :=
  match i.role with
  | .reset => [.remark "Requires nonstandard reset gate:"]
  | _ => []

/-- What is recorded for a list of instructions of which some may be
    miscounted. -/
def attempted (d : Dialect) (w : Wires) (is : List Instruction) : List Operation :=
  (performed is).flatMap (rendering d w)
    ++ ((is.find? fun i => !decide i.Counted).toList.flatMap residue)

end Instruction

namespace Call

/-- The identities that a call routes to the numbering of qubits. -/
def qubitMentions : Call → List Identity
  | gate g os => if os.length = g.arity then os.map Operand.identity else []
  | measure q _ => [q.identity]
  | showQubit o => [o.identity]
  | comment _ | showResult _ => []
  | emit is => (Instruction.performed is).flatMap Instruction.qubitMentions

/-- The identities that a call routes to the numbering of results. -/
def resultMentions : Call → List Identity
  | measure _ r => [r.identity]
  | showResult o => [o.identity]
  | gate _ _ | comment _ | showQubit _ => []
  | emit is => (Instruction.performed is).flatMap Instruction.resultMentions

/-- The operations that a call records. -/
def rendering (d : Dialect) (w : Wires) : Call → List Operation
  | gate g os =>
    if os.length = g.arity then [.gate g.symbol (os.map fun o => w.qubit o.identity)] else []
  | measure q r => [.measurement (w.qubit q.identity) (w.result r.identity)]
  | comment text => Operation.remarks text
  | showQubit _ | showResult _ => []
  | emit is => Instruction.attempted d w is

end Call

namespace Session

variable (d : Dialect) (b : Block) (cs : List Call)

/-- All identities that reach the numbering of qubits when a block is emitted and
    calls follow. -/
def qubitMentions : List Identity :=
  b.qubitMentions ++ cs.flatMap Call.qubitMentions

/-- All identities that reach the numbering of results when a block is emitted and
    calls follow. -/
def resultMentions : List Identity :=
  b.resultMentions ++ cs.flatMap Call.resultMentions

/-- The number of each wire of a session: the place of its first mention. -/
def wires : Wires :=
  .ofMentions (qubitMentions b cs) (resultMentions b cs)

/-- The operations of a block and of the calls that follow. -/
def rendering : List Operation :=
  b.instructions.toList.flatMap (Instruction.rendering d (wires b cs))
    ++ cs.flatMap (Call.rendering d (wires b cs))

end Session

namespace Emission

open Instruction

variable {e : Emission} {qs rs Q R : List Identity} {ops : List Operation}

/-- A miscounted instruction mentions nothing and leaves its residue. -/
theorem Follows.residue (h : e.Follows qs rs ops) (d : Dialect) {i : Instruction}
    (hi : ¬ i.Counted) : (e.step d i).emission.Follows qs rs (ops ++ i.residue) := by
  rw [step_emission_of_not_counted d e hi]
  by_cases hreset : i.role = .reset
  · have hannounced := h.comment "Requires nonstandard reset gate:"
    rw [Operation.remarks, commentLines_resetNotice] at hannounced
    rw [if_pos hreset, Instruction.residue, hreset]
    exact hannounced
  · have hresidue : i.residue = [] := by
      rw [Instruction.residue]
      split
      · rename_i hrole
        exact absurd hrole hreset
      · rfl
    rwa [if_neg hreset, hresidue, List.append_nil]

/-- A run appends what it performs and what the instruction that ended it leaves
    behind, if there is one. -/
theorem Follows.attempt (h : e.Follows qs rs ops) (d : Dialect) (is : List Instruction)
    (hQ : qs ++ (performed is).flatMap Instruction.qubitMentions <+: Q)
    (hR : rs ++ (performed is).flatMap Instruction.resultMentions <+: R) :
    (e.run d is).emission.Follows (qs ++ (performed is).flatMap Instruction.qubitMentions)
      (rs ++ (performed is).flatMap Instruction.resultMentions)
      (ops ++ attempted d (.ofMentions Q R) is) := by
  induction is generalizing e qs rs ops with
  | nil => simpa [performed, attempted, Emission.run] using h
  | cons i is ih =>
      by_cases hi : i.Counted
      · have hperformed : performed (i :: is) = i :: performed is := by
          rw [performed, List.takeWhile_cons_of_pos (by simpa using hi), performed]
        have hattempted : attempted d (.ofMentions Q R) (i :: is)
            = i.rendering d (.ofMentions Q R) ++ attempted d (.ofMentions Q R) is := by
          rw [attempted, hperformed, List.flatMap_cons, List.append_assoc,
            List.find?_cons_of_neg (by simpa using hi), attempted]
        rw [hperformed, List.flatMap_cons, ← List.append_assoc] at hQ hR
        rw [hperformed, hattempted, List.flatMap_cons, List.flatMap_cons, ← List.append_assoc,
          ← List.append_assoc, ← List.append_assoc]
        rcases h.step d i hi ((List.prefix_append _ _).trans hQ)
          ((List.prefix_append _ _).trans hR) with ⟨e', hstep, hafter⟩
        rw [Emission.run, hstep]
        exact ih hafter hQ hR
      · have hperformed : performed (i :: is) = [] := by
          rw [performed, List.takeWhile_cons_of_neg (by simpa using hi)]
        have hattempted : attempted d (.ofMentions Q R) (i :: is) = i.residue := by
          rw [attempted, hperformed, List.find?_cons_of_pos (by simpa using hi)]
          simp
        -- The run ends here, in the state in which the failure left it.
        have hends : e.run d (i :: is) = e.step d i := by
          rcases hfail : (e.step d i).failure with _ | err
          · rw [step_failure, fault_eq_none_iff] at hfail
            exact absurd hfail hi
          · rw [Emission.run, Outcome.bind, hfail]
        rw [hperformed, hattempted, hends, List.flatMap_nil, List.flatMap_nil, List.append_nil,
          List.append_nil]
        exact h.residue d hi

/-- A call appends its rendering, whatever it answers. -/
theorem Follows.perform (h : e.Follows qs rs ops) (d : Dialect) (c : Call)
    (hQ : qs ++ c.qubitMentions <+: Q) (hR : rs ++ c.resultMentions <+: R) :
    (c.perform d e).2.Follows (qs ++ c.qubitMentions) (rs ++ c.resultMentions)
      (ops ++ c.rendering d (.ofMentions Q R)) := by
  cases c with
  | gate g os =>
      simp only [Call.qubitMentions] at hQ
      simp only [Call.perform, Call.qubitMentions, Call.resultMentions, Call.rendering,
        List.append_nil]
      by_cases hcount : os.length = g.arity
      · rw [if_pos hcount] at hQ
        rw [tryGate_of_length_eq hcount, if_pos hcount, if_pos hcount]
        exact h.gate g.symbol os hQ
      · rw [tryGate_of_length_ne hcount, if_neg hcount, if_neg hcount, List.append_nil,
          List.append_nil]
        exact h
  | measure q r => exact h.measure q r hQ hR
  | comment text =>
      have hafter := h.comment text
      rw [← List.append_nil qs, ← List.append_nil rs] at hafter
      exact hafter
  | showQubit o =>
      have hafter := (h.qubit o hQ).2
      rw [← List.append_nil rs, ← List.append_nil ops] at hafter
      exact hafter
  | showResult o =>
      have hafter := (h.result o hR).2
      rw [← List.append_nil qs, ← List.append_nil ops] at hafter
      exact hafter
  | emit is => exact h.attempt d is hQ hR

/-- A session appends the renderings of its calls, one after the other. -/
theorem Follows.session (h : e.Follows qs rs ops) (d : Dialect) (cs : List Call)
    (hQ : qs ++ cs.flatMap Call.qubitMentions <+: Q)
    (hR : rs ++ cs.flatMap Call.resultMentions <+: R) :
    (Session.run d e cs).Follows (qs ++ cs.flatMap Call.qubitMentions)
      (rs ++ cs.flatMap Call.resultMentions)
      (ops ++ cs.flatMap (Call.rendering d (.ofMentions Q R))) := by
  induction cs generalizing e qs rs ops with
  | nil => simpa [Session.run] using h
  | cons c cs ih =>
      simp only [List.flatMap_cons, ← List.append_assoc] at hQ hR ⊢
      exact ih (h.perform d c ((List.prefix_append _ _).trans hQ)
        ((List.prefix_append _ _).trans hR)) hQ hR

/-- What a session leaves is what its block and its calls record, with the numbers
    of the whole session. -/
theorem follows_session {d : Dialect} {b : Block} (h : ofBlock d b = .ok e) (cs : List Call) :
    (Session.run d e cs).Follows (Session.qubitMentions b cs) (Session.resultMentions b cs)
      (Session.rendering d b cs) := by
  rcases Follows.empty.run d b.instructions.toList (counted_of_ofBlock h)
    (List.prefix_append _ (cs.flatMap Call.qubitMentions))
    (List.prefix_append _ (cs.flatMap Call.resultMentions)) with ⟨e', hrun, hfollows⟩
  -- The block was carried through, so it left the state in which the calls begin.
  rw [run_eq_of_ofBlock h, Outcome.mk.injEq] at hrun
  rw [← hrun.1] at hfollows
  exact hfollows.session d cs (List.prefix_refl _) (List.prefix_refl _)

/-- **A session can be made into a circuit at any time.** After a block and any calls,
    failed ones included, the circuit has as many wires as have a number, all its
    operations are in range, and they are the recorded ones in the order of recording:
    those of the block and of each call. -/
theorem toCircuit_session {d : Dialect} {b : Block} (h : ofBlock d b = .ok e) (cs : List Call) :
    ∃ c, (Session.run d e cs).toCircuit = .ok c
      ∧ c.numQubits = (Session.run d e cs).qubits.size
      ∧ c.numResults = (Session.run d e cs).results.size
      ∧ (Session.run d e cs).qubits.Records (Session.qubitMentions b cs)
      ∧ (Session.run d e cs).results.Records (Session.resultMentions b cs)
      ∧ c.WellFormed
      ∧ c.operations = (Session.run d e cs).operations
      ∧ c.operations.toList = Session.rendering d b cs := by
  have hstart : e.Sound := preserved_sound.ofBlock (fun _ => trivial) trivial sound_empty h
  have hsound : (Session.run d e cs).Sound :=
    preserved_sound.session (fun _ => trivial) trivial e cs (fun _ _ _ => trivial) hstart
  have hfollows := follows_session h cs
  exact ⟨_, toCircuit_of_sound hsound, rfl, rfl, hfollows.qubits, hfollows.results,
    hsound.operations, rfl, hfollows.operations⟩

/-- A block that numbers one qubit and one result. -/
def measuredBlock : Block where
  name := "entry"
  instructions :=
    #[{ opcode := "__quantum__qis__mz__body", operands := [.qubit (some 4), .result (some 0)] }]

/-- Calls of every kind. A gate with an operand too many fails, and a list of
    instructions fails at its second. -/
def interruptedCalls : List Call :=
  [.showQubit (.qubit (some 8)),
    .gate ⟨"any name", 0⟩ [.qubit (some 3)],
    .gate ⟨"any name", 2⟩ [.qubit (some 4), .pointer (some 8)],
    .emit [{ opcode := "__quantum__qis__m__body"
             operands := [.qubit (some 8), .result (some 4)] },
      { opcode := "__quantum__qis__reset__body", operands := [] },
      { opcode := "__quantum__qis__x__body", operands := [.qubit (some 1)] }],
    .comment "two\nlines",
    .measure (.qubit (some 2)) (.named "r"),
    .showResult (.result (some 6))]

theorem toCircuit_session_interruptedCalls :
    ∃ e, ofBlock Circuit.dialect measuredBlock = .ok e
      ∧ (Session.run Circuit.dialect e interruptedCalls).toCircuit = .ok
        { numQubits := 3
          numResults := 4
          operations := #[.measurement 0 0, .gate "any name" [0, 1], .measurement 1 1,
            .remark "Requires nonstandard reset gate:", .remark "two", .remark "lines",
            .measurement 2 2] } := by
  rcases ofBlock_of_counted Circuit.dialect measuredBlock (by decide) with ⟨e, he, -⟩
  rcases toCircuit_session he interruptedCalls with
    ⟨⟨nq, nr, operations⟩, hc, hqubits, hresults, hq, hr, -, -, hoperations⟩
  rw [hq.size_eq] at hqubits
  rw [hr.size_eq] at hresults
  simp only at hqubits hresults hoperations
  refine ⟨e, he, ?_⟩
  rw [hc, hqubits, hresults, Array.toList_inj.1 (hoperations.trans List.toList_toArray.symm)]
  decide

end Emission

end QuantumIR
