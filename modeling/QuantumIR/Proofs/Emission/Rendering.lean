import Mathlib.Data.List.Basic
import QuantumIR.Proofs.Emission.Invariant

/-!
# The Rendering of an Instruction

What one instruction contributes to an emission, given the number of every wire.

The pass hands out numbers while it emits, so an operation is recorded with the
numbers known at that moment. Here the same contribution is a function of the
instruction and of numbers that are known beforehand: the identities it mentions,
the error it raises if its operands are miscounted, and the operations it records.
Nothing in it refers to an emission.

`Follows` says that an emission is at a given point of a history of mentions.
The lemmas about it each take one primitive move and a history that goes on from
there, and say that the numbers of the move are already those of the whole
history. From these, `Follows.step` and `Follows.run` describe a pass.

## Main definitions

* `Role.operandCount?`: The number of operands that a role asks for.
* `Instruction.Counted`: An instruction has as many operands as it needs.
* `Instruction.fault`: The error of an instruction that has not.
* `Instruction.qubitMentions`, `Instruction.resultMentions`: The identities that
  an instruction routes to each numbering.
* `Wires`: Numbers for qubits and results.
* `Instruction.rendering`: The operations of an instruction.
* `Block.qubitMentions`, `Block.resultMentions`, `Block.rendering`: The same of a
  block.
* `Emission.Follows`: An emission after given mentions and operations.

## Theorems

* `Follows.step`: A step appends the rendering of its instruction.
* `Follows.run`: A run appends the renderings of its instructions.
* `step_failure`, `run_failure`: Exactly the miscounted instructions fail.
* `step_emission_of_not_counted`: What a miscounted instruction leaves behind.
* `ofBlock_of_counted`: The emission of a block, in closed form.
* `ofBlock_of_fault`: The error of a block is that of the first miscounted
  instruction.
-/

namespace QuantumIR

open QuantumIR.Numbering (rank)

/-- How many operands an instruction with the role must have, if that is fixed. -/
def Role.operandCount? : Role → Option Nat
  | gate kind => some kind.arity
  | reset | readout => some 1
  | measurement | measureReset => some 2
  | other => none

namespace Operand

/-- Whether an operand of an instruction that is kept as a comment is shown as a
    qubit: every pointer that is not known to be a result. -/
def isQubitPointer : Operand → Bool
  | qubit _ | pointer _ => true
  | _ => false

/-- Whether an operand of an instruction that is kept as a comment is shown as a
    result. -/
def isResultPointer : Operand → Bool
  | result _ => true
  | _ => false

end Operand

/-- Numbers for the wires of a circuit. -/
structure Wires where
  qubit : Identity → Nat
  result : Identity → Nat

/-- The numbers by first mention in two histories. -/
def Wires.ofMentions (qubits results : List Identity) : Wires :=
  ⟨rank qubits, rank results⟩

/-- An operand as written in a comment when all wires have their numbers. -/
def Operand.text (d : Dialect) (w : Wires) (o : Operand) : String :=
  match o with
  | .result _ => d.resultText (w.result o.identity)
  | .qubit _ | .pointer _ => d.qubitText (w.qubit o.identity)
  | _ => o.render

/-- A comment as remarks, one for each of its lines. -/
def Operation.remarks (text : String) : List Operation :=
  (Emission.commentLines text).map .remark

namespace Instruction

/-- What the instruction does in a circuit. -/
def role (i : Instruction) : Role :=
  Role.ofOpcode i.opcode

/-- The instruction has as many operands as its role asks for. -/
def Counted (i : Instruction) : Prop :=
  i.role.operandCount?.all (· == i.operands.length) = true

instance (i : Instruction) : Decidable i.Counted :=
  inferInstanceAs (Decidable (_ = true))

/-- What the error of a miscounted instruction is named after: the dialect's
    symbol of a gate, and the opcode of everything else. -/
def faultName (d : Dialect) (i : Instruction) : String :=
  match i.role with
  | .gate kind => d.symbol kind
  | .reset => d.resetSymbol
  | _ => i.opcode

/-- The error of a miscounted instruction. -/
def fault (d : Dialect) (i : Instruction) : Option ArityError :=
  match i.role.operandCount? with
  | some n =>
    if i.operands.length = n then none else some ⟨i.faultName d, n, i.operands.length⟩
  | none => none

/-- The identities that the instruction routes to the numbering of qubits, from
    left to right. -/
def qubitMentions (i : Instruction) : List Identity :=
  match i.role with
  | .gate _ | .reset => i.operands.map Operand.identity
  | .measurement | .measureReset => (i.operands.take 1).map Operand.identity
  | .readout => []
  | .other => (i.operands.filter Operand.isQubitPointer).map Operand.identity

/-- The identities that the instruction routes to the numbering of results, from
    left to right. -/
def resultMentions (i : Instruction) : List Identity :=
  match i.role with
  | .gate _ | .reset => []
  | .measurement | .measureReset => ((i.operands.drop 1).take 1).map Operand.identity
  | .readout => (i.operands.take 1).map Operand.identity
  | .other => (i.operands.filter Operand.isResultPointer).map Operand.identity

/-- The operations that stand for a reset: the remark that announces it, and the
    gate. -/
def resetRendering (d : Dialect) (w : Wires) (operands : List Operand) : List Operation :=
  [.remark "Requires nonstandard reset gate:",
    .gate d.resetSymbol (operands.map fun o => w.qubit o.identity)]

/-- The operations that stand for an instruction with the right number of
    operands. -/
def rendering (d : Dialect) (w : Wires) (i : Instruction) : List Operation :=
  match i.role, i.operands with
  | .gate kind, operands => [.gate (d.symbol kind) (operands.map fun o => w.qubit o.identity)]
  | .reset, operands => resetRendering d w operands
  | .measurement, [q, r] => [.measurement (w.qubit q.identity) (w.result r.identity)]
  | .measureReset, [q, r] =>
    .measurement (w.qubit q.identity) (w.result r.identity) :: resetRendering d w [q]
  | .readout, [r] =>
    Operation.remarks ("%" ++ i.output.getD "_" ++ " = " ++ d.resultText (w.result r.identity))
  | .other, operands =>
    .remark "Unsupported QIS operation:"
      :: Operation.remarks
        (Emission.instructionText i.output i.opcode (operands.map (Operand.text d w)))
  | _, _ => []

/-- Exactly the counted instructions have no error. -/
theorem fault_eq_none_iff (d : Dialect) (i : Instruction) : i.fault d = none ↔ i.Counted := by
  rw [fault, Counted]
  cases i.role.operandCount? with
  | none => simp
  | some n =>
      by_cases h : i.operands.length = n
      · simp [h]
      · simp [h, Ne.symm h]

end Instruction

namespace Block

/-- All identities that a block routes to the numbering of qubits, in the order
    of its instructions. -/
def qubitMentions (b : Block) : List Identity :=
  b.instructions.toList.flatMap Instruction.qubitMentions

/-- All identities that a block routes to the numbering of results, in the order
    of its instructions. -/
def resultMentions (b : Block) : List Identity :=
  b.instructions.toList.flatMap Instruction.resultMentions

/-- The number of each wire of a block: the place of its first mention. -/
def wires (b : Block) : Wires :=
  .ofMentions b.qubitMentions b.resultMentions

/-- The operations of a block: the renderings of its instructions in order. -/
def rendering (d : Dialect) (b : Block) : List Operation :=
  b.instructions.toList.flatMap (Instruction.rendering d b.wires)

end Block

namespace Emission

open Instruction

/-- The emission has seen the mentions `qs` and `rs` and recorded the operations
    `ops`. -/
structure Follows (e : Emission) (qs rs : List Identity) (ops : List Operation) : Prop where
  qubits : e.qubits.Records qs
  results : e.results.Records rs
  operations : e.operations.toList = ops

namespace Follows

variable {e : Emission} {qs rs Q R : List Identity} {ops : List Operation}

theorem empty : Follows {} [] [] [] :=
  ⟨.empty, .empty, rfl⟩

theorem qubit (h : e.Follows qs rs ops) (o : Operand) (hQ : qs ++ [o.identity] <+: Q) :
    (e.qubit o).1 = rank Q o.identity
      ∧ (e.qubit o).2.Follows (qs ++ [o.identity]) rs ops := by
  rcases hQ with ⟨more, rfl⟩
  refine ⟨?_, h.qubits.assign _, h.results, h.operations⟩
  rw [Numbering.rank_append (by simp)]
  exact h.qubits.fst_assign o.identity

theorem result (h : e.Follows qs rs ops) (o : Operand) (hR : rs ++ [o.identity] <+: R) :
    (e.result o).1 = rank R o.identity
      ∧ (e.result o).2.Follows qs (rs ++ [o.identity]) ops := by
  rcases hR with ⟨more, rfl⟩
  refine ⟨?_, h.qubits, h.results.assign _, h.operations⟩
  rw [Numbering.rank_append (by simp)]
  exact h.results.fst_assign o.identity

theorem comment (h : e.Follows qs rs ops) (text : String) :
    (e.comment text).Follows qs rs (ops ++ Operation.remarks text) :=
  ⟨h.qubits, h.results, by rw [toList_operations_comment, h.operations, Operation.remarks]⟩

theorem gate (h : e.Follows qs rs ops) (symbol : String) (os : List Operand)
    (hQ : qs ++ os.map Operand.identity <+: Q) :
    (e.gate symbol os).Follows (qs ++ os.map Operand.identity) rs
      (ops ++ [.gate symbol (os.map fun o => rank Q o.identity)]) := by
  rcases hQ with ⟨more, rfl⟩
  refine ⟨h.qubits.assignAll _, h.results, ?_⟩
  simp only [Emission.gate, push, Array.toList_push, h.operations, h.qubits.fst_assignAll _ more,
    List.map_map, Function.comp_def]

/-- A gate on a qubit that has its number mentions nothing new. -/
theorem gate_of_mem (h : e.Follows qs rs ops) (symbol : String) (o : Operand)
    (ho : o.identity ∈ qs) (hQ : qs <+: Q) :
    (e.gate symbol [o]).Follows qs rs (ops ++ [.gate symbol [rank Q o.identity]]) := by
  rcases hQ with ⟨more, rfl⟩
  -- The second mention finds the number that the first was given.
  have hnumber : e.qubits.assignAll [o.identity] = ([rank qs o.identity], e.qubits) := by
    simp only [Numbering.assignAll, h.qubits.assign_of_mem ho]
  simp only [Emission.gate, List.map_cons, List.map_nil, hnumber, Numbering.rank_append ho]
  refine ⟨h.qubits, h.results, ?_⟩
  simp only [push, Array.toList_push, h.operations]

theorem measure (h : e.Follows qs rs ops) (q r : Operand) (hQ : qs ++ [q.identity] <+: Q)
    (hR : rs ++ [r.identity] <+: R) :
    (e.measure q r).Follows (qs ++ [q.identity]) (rs ++ [r.identity])
      (ops ++ [.measurement (rank Q q.identity) (rank R r.identity)]) := by
  rcases h.qubit q hQ with ⟨hq, hafter⟩
  rcases hafter.result r hR with ⟨hr, hfinal⟩
  refine ⟨hfinal.qubits, hfinal.results, ?_⟩
  rw [← hq, ← hr, ← hfinal.operations]
  simp only [Emission.measure, push, Array.toList_push]

theorem append_nil (h : e.Follows qs rs ops) : e.Follows (qs ++ []) (rs ++ []) ops := by
  rwa [List.append_nil, List.append_nil]

theorem showOperand (h : e.Follows qs rs ops) (d : Dialect) (o : Operand)
    (hQ : qs ++ ([o].filter Operand.isQubitPointer).map Operand.identity <+: Q)
    (hR : rs ++ ([o].filter Operand.isResultPointer).map Operand.identity <+: R) :
    (e.showOperand d o).1 = o.text d (.ofMentions Q R)
      ∧ (e.showOperand d o).2.Follows
        (qs ++ ([o].filter Operand.isQubitPointer).map Operand.identity)
        (rs ++ ([o].filter Operand.isResultPointer).map Operand.identity) ops := by
  cases o with
  | result id =>
      rcases h.result (.result id) hR with ⟨htext, hafter⟩
      -- A result adds nothing to the mentions of qubits, and a qubit nothing to those
      -- of results.
      refine ⟨congrArg d.resultText htext, ?_⟩
      rw [← List.append_nil qs] at hafter
      exact hafter
  | qubit id =>
      rcases h.qubit (.qubit id) hQ with ⟨htext, hafter⟩
      refine ⟨congrArg d.qubitText htext, ?_⟩
      rw [← List.append_nil rs] at hafter
      exact hafter
  | pointer id =>
      rcases h.qubit (.pointer id) hQ with ⟨htext, hafter⟩
      refine ⟨congrArg d.qubitText htext, ?_⟩
      rw [← List.append_nil rs] at hafter
      exact hafter
  | integer _ | double _ | bool _ | named _ | raw _ => exact ⟨rfl, h.append_nil⟩

theorem showOperands (h : e.Follows qs rs ops) (d : Dialect) (os : List Operand)
    (hQ : qs ++ (os.filter Operand.isQubitPointer).map Operand.identity <+: Q)
    (hR : rs ++ (os.filter Operand.isResultPointer).map Operand.identity <+: R) :
    (e.showOperands d os).1 = os.map (Operand.text d (.ofMentions Q R))
      ∧ (e.showOperands d os).2.Follows
        (qs ++ (os.filter Operand.isQubitPointer).map Operand.identity)
        (rs ++ (os.filter Operand.isResultPointer).map Operand.identity) ops := by
  induction os generalizing e qs rs with
  | nil => exact ⟨rfl, h.append_nil⟩
  | cons o os ih =>
      -- The first operand is mentioned before the others, so the history that they see
      -- has it at the end.
      rw [← List.singleton_append, List.filter_append, List.map_append, ← List.append_assoc]
        at hQ hR
      rcases h.showOperand d o ((List.prefix_append _ _).trans hQ)
        ((List.prefix_append _ _).trans hR) with ⟨hfirst, hafter⟩
      rcases ih hafter hQ hR with ⟨hrest, hfinal⟩
      constructor
      · simp only [Emission.showOperands, List.map_cons, hfirst, hrest]
      · rw [← List.singleton_append, List.filter_append, List.filter_append, List.map_append,
          List.map_append, ← List.append_assoc, ← List.append_assoc]
        exact hfinal

end Follows

theorem commentLines_resetNotice :
    commentLines "Requires nonstandard reset gate:" = ["Requires nonstandard reset gate:"] := by
  decide

theorem commentLines_keepNotice :
    commentLines "Unsupported QIS operation:" = ["Unsupported QIS operation:"] := by
  decide

variable {e : Emission} {qs rs Q R : List Identity} {ops : List Operation}

theorem tryGate_of_length_eq {e : Emission} {g : Gate} {os : List Operand}
    (h : os.length = g.arity) : e.tryGate g os = ⟨e.gate g.symbol os, none⟩ := by
  rw [tryGate, Gate.checkCount, if_pos h]

theorem tryGate_of_length_ne {e : Emission} {g : Gate} {os : List Operand}
    (h : os.length ≠ g.arity) :
    e.tryGate g os = ⟨e, some ⟨g.symbol, g.arity, os.length⟩⟩ := by
  rw [tryGate, Gate.checkCount, if_neg h]

/-- A reset appends its announcement and its gate. -/
theorem Follows.reset (h : e.Follows qs rs ops) (d : Dialect) (os : List Operand)
    (hcount : os.length = 1) (hQ : qs ++ os.map Operand.identity <+: Q) :
    ∃ e', e.reset d os = ⟨e', none⟩
      ∧ e'.Follows (qs ++ os.map Operand.identity) rs
        (ops ++ resetRendering d (.ofMentions Q R) os) := by
  refine ⟨_, tryGate_of_length_eq hcount, ?_⟩
  -- The announcement is a single line, so it is recorded as one remark.
  have hgate := (h.comment "Requires nonstandard reset gate:").gate d.resetSymbol os hQ
  rw [Operation.remarks, commentLines_resetNotice, List.append_assoc] at hgate
  exact hgate

theorem keep_eq (d : Dialect) (e : Emission) (i : Instruction) :
    e.keep d i = ((e.showOperands d i.operands).2.comment "Unsupported QIS operation:").comment
      (instructionText i.output i.opcode (e.showOperands d i.operands).1) := rfl

/-- A step appends the rendering of its instruction, with the numbers of any
    history that goes on from there. -/
theorem Follows.step (h : e.Follows qs rs ops) (d : Dialect) (i : Instruction) (hi : i.Counted)
    (hQ : qs ++ i.qubitMentions <+: Q) (hR : rs ++ i.resultMentions <+: R) :
    ∃ e', e.step d i = ⟨e', none⟩
      ∧ e'.Follows (qs ++ i.qubitMentions) (rs ++ i.resultMentions)
        (ops ++ i.rendering d (.ofMentions Q R)) := by
  -- One case for each role; in each, the count says which operands there are, and the
  -- moves of the step are taken one after the other.
  have hstep : ∀ r, i.role = r → Role.ofOpcode i.opcode = r := fun _ hr => hr
  rw [Counted] at hi
  unfold Emission.step qubitMentions resultMentions rendering at *
  cases hrole : i.role with
  | gate kind =>
      simp only [hrole, Role.operandCount?, Option.all_some, beq_iff_eq] at hi hQ
      simp only [hstep _ hrole, List.append_nil]
      exact ⟨_, tryGate_of_length_eq hi.symm, h.gate _ _ hQ⟩
  | reset =>
      simp only [hrole, Role.operandCount?, Option.all_some, beq_iff_eq] at hi hQ
      simp only [hstep _ hrole, List.append_nil]
      exact h.reset d i.operands hi.symm hQ
  | measurement =>
      simp only [hrole, Role.operandCount?, Option.all_some, beq_iff_eq] at hi hQ hR
      rcases List.length_eq_two.1 hi.symm with ⟨q, r, hops⟩
      simp only [hops] at hQ hR
      simp only [hstep _ hrole, hops]
      exact ⟨_, rfl, h.measure q r hQ hR⟩
  | measureReset =>
      simp only [hrole, Role.operandCount?, Option.all_some, beq_iff_eq] at hi hQ hR
      rcases List.length_eq_two.1 hi.symm with ⟨q, r, hops⟩
      simp only [hops] at hQ hR
      simp only [hstep _ hrole, hops]
      -- The qubit is mentioned a second time, which gives out no number.
      have hreset := ((h.measure q r hQ hR).comment "Requires nonstandard reset gate:").gate_of_mem
        d.resetSymbol q (by simp) hQ
      rw [Operation.remarks, commentLines_resetNotice, List.append_assoc, List.append_assoc]
        at hreset
      exact ⟨_, tryGate_of_length_eq rfl, hreset⟩
  | readout =>
      simp only [hrole, Role.operandCount?, Option.all_some, beq_iff_eq] at hi hR
      rcases List.length_eq_one_iff.1 hi.symm with ⟨r, hops⟩
      simp only [hops] at hR
      simp only [hstep _ hrole, hops, List.append_nil]
      rcases h.result r hR with ⟨hr, hafter⟩
      refine ⟨_, rfl, ?_⟩
      simp only [Wires.ofMentions, ← hr]
      exact hafter.comment _
  | other =>
      simp only [hrole] at hQ hR
      simp only [hstep _ hrole]
      rcases h.showOperands d i.operands hQ hR with ⟨htexts, hafter⟩
      have hkept := (hafter.comment "Unsupported QIS operation:").comment
        (instructionText i.output i.opcode (e.showOperands d i.operands).1)
      rw [Operation.remarks, commentLines_keepNotice, List.append_assoc, List.map_cons,
        List.map_nil, List.singleton_append, htexts] at hkept
      refine ⟨_, rfl, ?_⟩
      rw [keep_eq, htexts]
      exact hkept

/-- A run appends the renderings of its instructions, one after the other. -/
theorem Follows.run (h : e.Follows qs rs ops) (d : Dialect) (is : List Instruction)
    (his : ∀ i ∈ is, i.Counted) (hQ : qs ++ is.flatMap qubitMentions <+: Q)
    (hR : rs ++ is.flatMap resultMentions <+: R) :
    ∃ e', e.run d is = ⟨e', none⟩
      ∧ e'.Follows (qs ++ is.flatMap qubitMentions) (rs ++ is.flatMap resultMentions)
        (ops ++ is.flatMap (rendering d (.ofMentions Q R))) := by
  induction is generalizing e qs rs ops with
  | nil =>
      refine ⟨e, rfl, ?_⟩
      simpa using h
  | cons i is ih =>
      simp only [List.flatMap_cons, ← List.append_assoc] at hQ hR ⊢
      rcases h.step d i (his i List.mem_cons_self) ((List.prefix_append _ _).trans hQ)
        ((List.prefix_append _ _).trans hR) with ⟨e₁, hstep, hafter⟩
      rcases ih hafter (fun j hj => his j (List.mem_cons_of_mem _ hj)) hQ hR with ⟨e₂, hrun, hfinal⟩
      refine ⟨e₂, ?_, hfinal⟩
      rw [Emission.run, hstep]
      exact hrun

/-- Exactly a miscounted instruction fails, and with its own error. -/
theorem step_failure (d : Dialect) (e : Emission) (i : Instruction) :
    (e.step d i).failure = i.fault d := by
  have hrole : Role.ofOpcode i.opcode = i.role := rfl
  have hgate : ∀ (e : Emission) (g : Gate) (os : List Operand), (e.tryGate g os).failure
      = if os.length = g.arity then none else some ⟨g.symbol, g.arity, os.length⟩ := by
    intro e g os
    by_cases h : os.length = g.arity
    · rw [tryGate_of_length_eq h, if_pos h]
    · rw [tryGate_of_length_ne h, if_neg h]
  rw [step, hrole, fault, faultName]
  cases i.role with
  | gate kind => exact hgate e _ _
  | reset => exact hgate _ _ _
  | measurement | measureReset =>
      simp only [Role.operandCount?]
      by_cases hcount : i.operands.length = 2
      · rcases List.length_eq_two.1 hcount with ⟨q, r, hops⟩
        simp only [hops]
        rfl
      · -- The match on two operands fails exactly if the count does.
        rw [if_neg hcount]
        split
        · rename_i hops
          exact absurd (by rw [hops]; rfl) hcount
        · rfl
  | readout =>
      simp only [Role.operandCount?]
      by_cases hcount : i.operands.length = 1
      · rcases List.length_eq_one_iff.1 hcount with ⟨r, hops⟩
        simp only [hops]
        rfl
      · rw [if_neg hcount]
        split
        · rename_i hops
          exact absurd (by rw [hops]; rfl) hcount
        · rfl
  | other => rfl

/-- A miscounted instruction leaves the emission as it was, except that a reset has
    been announced. -/
theorem step_emission_of_not_counted (d : Dialect) (e : Emission) {i : Instruction}
    (hi : ¬ i.Counted) :
    (e.step d i).emission
      = if i.role = .reset then e.comment "Requires nonstandard reset gate:" else e := by
  have hrole : Role.ofOpcode i.opcode = i.role := rfl
  rw [Counted] at hi
  unfold Emission.step
  rw [hrole]
  cases hcase : i.role with
  | gate kind =>
      simp only [hcase, Role.operandCount?, Option.all_some, beq_iff_eq] at hi
      have hne : i.operands.length ≠ (d.gate kind).arity := Ne.symm hi
      simp only []
      rw [tryGate_of_length_ne hne, if_neg (by simp)]
  | reset =>
      simp only [hcase, Role.operandCount?, Option.all_some, beq_iff_eq] at hi
      have hne : i.operands.length ≠ d.reset.arity := Ne.symm hi
      simp only []
      rw [Emission.reset, tryGate_of_length_ne hne, if_pos trivial]
  | measurement | measureReset | readout =>
      simp only [hcase, Role.operandCount?, Option.all_some, beq_iff_eq] at hi
      simp only []
      split
      · rename_i hops
        exact absurd (by rw [hops]; rfl) hi
      · rw [if_neg (by simp)]
        rfl
  | other =>
      simp only [hcase, Role.operandCount?, Option.all_none, not_true_eq_false] at hi

/-- A run fails with the error of its first miscounted instruction. -/
theorem run_failure (d : Dialect) (e : Emission) (is : List Instruction) :
    (e.run d is).failure = is.findSome? (fault d) := by
  induction is generalizing e with
  | nil => rfl
  | cons i is ih =>
      have hstep := step_failure d e i
      rw [run, Outcome.bind, List.findSome?_cons, ← hstep]
      cases hfail : (e.step d i).failure with
      | none => exact ih _
      | some err => exact hfail

/-- The emission of a block whose instructions are all counted. -/
theorem ofBlock_of_counted (d : Dialect) (b : Block)
    (hb : ∀ i ∈ b.instructions.toList, i.Counted) :
    ∃ e, ofBlock d b = .ok e
      ∧ e.Follows b.qubitMentions b.resultMentions (b.rendering d) := by
  rcases Follows.empty.run d b.instructions.toList hb (List.prefix_refl _) (List.prefix_refl _)
    with ⟨e, hrun, hfollows⟩
  refine ⟨e, ?_, hfollows⟩
  rw [ofBlock, hrun]

theorem counted_of_ofBlock {d : Dialect} {b : Block} {e : Emission} (h : ofBlock d b = .ok e) :
    ∀ i ∈ b.instructions.toList, i.Counted := by
  have hfailure := run_failure d {} b.instructions.toList
  rw [run_eq_of_ofBlock h, eq_comm, List.findSome?_eq_none_iff] at hfailure
  exact fun i hi => (fault_eq_none_iff d i).1 (hfailure i hi)

/-- The error of a block is that of its first miscounted instruction. -/
theorem ofBlock_of_fault {d : Dialect} {b : Block} {err : ArityError}
    (h : b.instructions.toList.findSome? (fault d) = some err) : ofBlock d b = .error err := by
  rw [← run_failure d {}] at h
  rw [ofBlock]
  rcases hrun : run d {} b.instructions.toList with ⟨e, failure⟩
  rw [hrun] at h
  simp only at h
  rw [h]

end Emission

end QuantumIR
