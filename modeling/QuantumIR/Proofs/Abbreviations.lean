import Mathlib.Data.List.Permutation
import QuantumIR.Artifact
import QuantumIR.Proofs.Emission.Failure

/-!
# Abbreviations

Some intrinsics say nothing that others could not say. Measurements and readouts have two
names each, and the intrinsic that measures a qubit and then resets it is short for a
measurement and a reset. A program can be written with them or without them, at each of
its instructions as it likes, and nothing that is made of it shows the difference.

The reason is that there is no difference at any moment. The instructions that an
abbreviation is short for leave the emission exactly as the abbreviation does: with the
same numbers for the same identities, and with the same remarks. This is even so if a run
fails, where the name of an instruction shows in the error and nowhere else.
`Outcome.Alike` therefore compares outcomes without looking at the error, and it is kept
by going on.

## Main definitions

* `synonyms`: The opcodes that mean the same.
* `Instruction.WrittenAs`: The instructions that can stand in place of another.
* `Block.WrittenAs`: A block in which instructions were replaced by what they are short for.
* `Emission.Outcome.Alike`: Two outcomes that leave the same emission and fail or not
  together.

## Theorems

* `alike_of_writtenAs`: What an abbreviation is short for leaves what it leaves.
* `alike_run_flatten`: The same of a run in which any number of instructions is replaced.
* `ofBlock_writtenAs`: Abbreviations make no difference to any artifact.
-/

namespace QuantumIR

/-- The opcodes that mean the same: those of measurements, and those of readouts. -/
def synonyms : List (List String) :=
  [["__quantum__qis__mz__body", "__quantum__qis__m__body"],
    ["__quantum__qir__read_result", "__quantum__rt__read_result"]]

/-- The instructions that can stand in place of the given one: itself, the same under
    another name, and a measurement followed by a reset in place of both at once. The names
    that the values of these three are bound to do not matter. -/
inductive Instruction.WrittenAs : Instruction → List Instruction → Prop
  | same (i : Instruction) : WrittenAs i [i]
  | synonym {names : List String} {name name' : String} (hnames : names ∈ synonyms)
      (hname : name ∈ names) (hname' : name' ∈ names) (operands : List Operand)
      (output : Option String) :
      WrittenAs ⟨name, operands, output⟩ [⟨name', operands, output⟩]
  | measureReset (q r : Operand) (output output' output'' : Option String) :
      WrittenAs ⟨"__quantum__qis__mresetz__body", [q, r], output⟩
        [⟨"__quantum__qis__mz__body", [q, r], output'⟩,
          ⟨"__quantum__qis__reset__body", [q], output''⟩]

/-- The second block has the name of the first, and in place of each of its instructions
    one or more that can stand there. -/
structure Block.WrittenAs (b b' : Block) : Prop where
  name : b'.name = b.name
  instructions : ∃ parts,
    List.Forall₂ Instruction.WrittenAs b.instructions.toList parts
      ∧ b'.instructions.toList = parts.flatten

/-- Synonyms have the same role, and it is one of two. -/
theorem role_of_mem_synonyms {names : List String} (hnames : names ∈ synonyms) :
    ∃ role ∈ [Role.measurement, Role.readout],
      ∀ name ∈ names, Role.ofOpcode name = role := by
  simp only [synonyms, List.mem_cons, List.not_mem_nil, or_false] at hnames
  rcases hnames with rfl | rfl
  · exact ⟨.measurement, by decide, by decide⟩
  · exact ⟨.readout, by decide, by decide⟩

namespace Emission

/-- The two outcomes leave the same emission, and both failed or none did. -/
structure Outcome.Alike (o o' : Outcome) : Prop where
  emission : o.emission = o'.emission
  failed : o.failure.isSome = o'.failure.isSome

namespace Outcome.Alike

theorem refl (o : Outcome) : o.Alike o :=
  ⟨rfl, rfl⟩

/-- Going on alike keeps outcomes alike. After a failure nobody goes on. -/
theorem bind {o o' : Outcome} (h : o.Alike o') {next next' : Emission → Outcome}
    (hnext : ∀ e, (next e).Alike (next' e)) : (o.bind next).Alike (o'.bind next') := by
  rcases o with ⟨e, failure⟩
  rcases o' with ⟨e', failure'⟩
  obtain rfl : e = e' := h.emission
  have hfailed := h.failed
  cases failure with
  | none =>
      cases failure' with
      | none => exact hnext e
      | some err => cases hfailed
  | some err =>
      cases failure' with
      | none => cases hfailed
      | some err' => exact ⟨rfl, rfl⟩

theorem eq_of_failure_eq_none {o o' : Outcome} (h : o.Alike o') (hnone : o'.failure = none) :
    o = o' := by
  have hfailed := h.failed
  rcases o with ⟨e, failure⟩
  rcases o' with ⟨e', failure'⟩
  obtain rfl : e = e' := h.emission
  obtain rfl : failure' = none := hnone
  cases failure with
  | none => rfl
  | some err => cases hfailed

theorem symm {o o' : Outcome} (h : o.Alike o') : o'.Alike o :=
  ⟨h.emission.symm, h.failed.symm⟩

end Outcome.Alike

variable {d : Dialect}

theorem run_singleton (d : Dialect) (e : Emission) (i : Instruction) :
    e.run d [i] = e.step d i := by
  rw [run, Outcome.bind]
  rcases e.step d i with ⟨e', _ | err⟩ <;> rfl

/-- The name of a measurement or a readout shows in its error only. -/
theorem alike_step_of_role {role : Role} (hrole : role ∈ [Role.measurement, Role.readout])
    {name name' : String} (hname : Role.ofOpcode name = role) (hname' : Role.ofOpcode name' = role)
    (d : Dialect) (e : Emission) (operands : List Operand) (output : Option String) :
    (e.step d ⟨name', operands, output⟩).Alike (e.step d ⟨name, operands, output⟩) := by
  simp only [List.mem_cons, List.not_mem_nil, or_false] at hrole
  rcases hrole with rfl | rfl
  all_goals
    simp only [step, hname, hname']
    -- The name is looked at again only where the operands are miscounted.
    split
    · exact .refl _
    · exact ⟨rfl, rfl⟩

/-- A measurement and a reset of the qubit that was measured do what the intrinsic for
    both does. -/
theorem run_measurement_reset (d : Dialect) (e : Emission) (q r : Operand)
    (output output' output'' : Option String) :
    e.run d [⟨"__quantum__qis__mz__body", [q, r], output'⟩,
        ⟨"__quantum__qis__reset__body", [q], output''⟩]
      = e.step d ⟨"__quantum__qis__mresetz__body", [q, r], output⟩ := by
  have hmeasure : e.step d ⟨"__quantum__qis__mz__body", [q, r], output'⟩
      = ⟨e.measure q r, none⟩ := by
    rw [step, show Role.ofOpcode "__quantum__qis__mz__body" = .measurement by decide]
  have hreset : ∀ e, step d e ⟨"__quantum__qis__reset__body", [q], output''⟩
      = e.reset d [q] := by
    intro e
    rw [step, show Role.ofOpcode "__quantum__qis__reset__body" = .reset by decide]
  rw [run, hmeasure, step,
    show Role.ofOpcode "__quantum__qis__mresetz__body" = .measureReset by decide]
  exact (run_singleton d _ _).trans (hreset _)

/-- What an instruction is short for leaves what the instruction leaves. -/
theorem alike_of_writtenAs {i : Instruction} {is : List Instruction} (h : i.WrittenAs is)
    (d : Dialect) (e : Emission) : (e.run d is).Alike (e.step d i) := by
  cases h with
  | same i =>
      rw [run_singleton]
      exact .refl _
  | synonym hnames hname hname' operands output =>
      rcases role_of_mem_synonyms hnames with ⟨role, hrole, hall⟩
      rw [run_singleton]
      exact alike_step_of_role hrole (hall _ hname) (hall _ hname') d e operands output
  | measureReset q r output output' output'' =>
      rw [run_measurement_reset d e q r output]
      exact .refl _

/-- So it is for runs in which any number of instructions is replaced. -/
theorem alike_run_flatten {is : List Instruction} {parts : List (List Instruction)}
    (h : List.Forall₂ Instruction.WrittenAs is parts) (d : Dialect) (e : Emission) :
    (e.run d parts.flatten).Alike (e.run d is) := by
  induction h generalizing e with
  | nil => exact .refl _
  | cons hfirst _ ih =>
      rw [List.flatten_cons, run_append, run]
      exact (alike_of_writtenAs hfirst d e).bind ih

theorem ofBlock_eq_ok_iff {b : Block} {e : Emission} :
    ofBlock d b = .ok e ↔ run d {} b.instructions.toList = ⟨e, none⟩ := by
  refine ⟨run_eq_of_ofBlock, fun h => ?_⟩
  rw [ofBlock, h]

/-- The emission of a block does not depend on how its instructions are written. -/
theorem ofBlock_eq_ok_iff_of_writtenAs {b b' : Block} (h : b.WrittenAs b') {e : Emission} :
    ofBlock d b' = .ok e ↔ ofBlock d b = .ok e := by
  rcases h.instructions with ⟨parts, hparts, hflatten⟩
  have halike := alike_run_flatten hparts d {}
  rw [ofBlock_eq_ok_iff, ofBlock_eq_ok_iff, hflatten]
  constructor
  · intro hrun
    rw [halike.symm.eq_of_failure_eq_none (by rw [hrun]), hrun]
  · intro hrun
    rw [halike.eq_of_failure_eq_none (by rw [hrun]), hrun]

end Emission

namespace Artifact

/-- **Abbreviations make no difference.** If instructions of a block are replaced by what
    they are short for, at any of its places, then the same artifact is made of it for
    every target, the text to the letter; and none is made of it if none was made
    before. -/
theorem ofBlock_writtenAs {b b' : Block} (h : b.WrittenAs b') (target : Target) (a : Artifact) :
    ofBlock target b' = .ok a ↔ ofBlock target b = .ok a := by
  rw [ofBlock_eq_ok_iff, ofBlock_eq_ok_iff, h.name]
  simp only [Emission.ofBlock_eq_ok_iff_of_writtenAs h]

/-- A block that measures and resets a wire twice, under two kinds of pointers and then
    under none, and that uses one name of each intrinsic. -/
def shortBlock : Block where
  name := "entry"
  instructions :=
    #[{ opcode := "__quantum__qis__mresetz__body", operands := [.qubit (some 4), .result (some 2)]
        output := some "r" },
      { opcode := "foo", operands := [.pointer (some 9), .integer 1] },
      { opcode := "__quantum__qis__m__body", operands := [.pointer (some 4), .result none] },
      { opcode := "__quantum__rt__read_result", operands := [.result (some 2)]
        output := some "a" },
      { opcode := "__quantum__qis__mresetz__body", operands := [.raw "q", .pointer (some 2)] }]

/-- The same block with the first abbreviation written out, the second left as it is, and
    the other names. -/
def longBlock : Block where
  name := "entry"
  instructions :=
    #[{ opcode := "__quantum__qis__mz__body", operands := [.qubit (some 4), .result (some 2)] },
      { opcode := "__quantum__qis__reset__body", operands := [.qubit (some 4)] },
      { opcode := "foo", operands := [.pointer (some 9), .integer 1] },
      { opcode := "__quantum__qis__mz__body", operands := [.pointer (some 4), .result none] },
      { opcode := "__quantum__qir__read_result", operands := [.result (some 2)]
        output := some "a" },
      { opcode := "__quantum__qis__mresetz__body", operands := [.raw "q", .pointer (some 2)] }]

theorem ofBlock_writtenAs_longBlock :
    shortBlock.WrittenAs longBlock
      ∧ (∀ target a, ofBlock target longBlock = .ok a ↔ ofBlock target shortBlock = .ok a)
      ∧ ofBlock .circuit longBlock = .ok (.circuit
        { numQubits := 3
          numResults := 2
          operations := #[.measurement 0 0, .remark "Requires nonstandard reset gate:",
            .gate "Reset" [0], .remark "Unsupported QIS operation:", .remark "foo 1, 1",
            .measurement 0 1, .remark "%a = 0", .measurement 2 0,
            .remark "Requires nonstandard reset gate:", .gate "Reset" [2]] }) := by
  have hmeasurements : ["__quantum__qis__mz__body", "__quantum__qis__m__body"] ∈ synonyms := by
    decide
  have hreadouts : ["__quantum__qir__read_result", "__quantum__rt__read_result"] ∈ synonyms := by
    decide
  have hwritten : shortBlock.WrittenAs longBlock := by
    refine ⟨rfl, [_, _, [_], [_], _], .cons (.measureReset _ _ _ none none) (.cons (.same _)
      (.cons ?_ (.cons ?_ (.cons (.same _) .nil)))), rfl⟩
    · exact .synonym hmeasurements (by decide) (by decide) _ _
    · exact .synonym hreadouts (by decide) (by decide) _ _
  have hsame := ofBlock_writtenAs hwritten
  refine ⟨hwritten, hsame, (hsame .circuit _).2 ?_⟩
  cbv

end Artifact

end QuantumIR
