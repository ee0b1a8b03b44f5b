import Mathlib.Data.List.DropRight
import Mathlib.Data.List.Forall2
import QuantumIR.Artifact
import QuantumIR.Proofs.Emission.Failure

/-!
# One Pass or Two

A block is emitted in one pass that numbers wires while it records operations.
The same artifacts come from two passes: the first collects the mentions of the
whole block and so fixes every number, the second writes down each instruction by
itself with these numbers. Nothing is lost, reordered or counted twice, and the
sizes that are declared are those of the two collections.

The two passes are stated from the outside. `Means` reads an instruction off its
opcode and its operands, with a table of the gates, and what the instruction becomes
is written out as the characters of its lines and as the operations of a circuit.
Roles, dialects and the writer do not occur in any of this. That they come to the
same is shown for one instruction at a time, through its rendering.

## Main definitions

* `gateTable`: The gates, with their opcodes and the symbols that stand for them.
* `Meaning`: What an instruction asks for.
* `Instruction.Means`: An instruction asks for something. A miscounted one does not.
* `Meaning.qubits`, `Meaning.results`: What the first pass collects.
* `Meaning.lines`, `Meaning.operations`: What the second pass writes.
* `twoPassText`, `twoPassCircuit`: The artifacts of both.

## Theorems

* `Means.counted`, `exists_means`: Exactly the counted instructions mean something.
* `Means.map_line`, `Means.rendering_eq`: An instruction is rendered as it is meant.
* `export_eq_twoPass`: The tables, the text and the circuit of a block are those
  of the two passes.
-/

namespace QuantumIR

open Text (isBlank)

/-- A gate: the opcode that calls it, the number of its qubits, and its symbols in
    OpenQASM and in a circuit. -/
structure GateEntry where
  opcode : String
  arity : Nat
  openQasm : String
  circuit : String
deriving DecidableEq

/-- All gates. -/
def gateTable : List GateEntry :=
  [⟨"__quantum__qis__x__body", 1, "x", "X"⟩,
    ⟨"__quantum__qis__y__body", 1, "y", "Y"⟩,
    ⟨"__quantum__qis__z__body", 1, "z", "Z"⟩,
    ⟨"__quantum__qis__h__body", 1, "h", "H"⟩,
    ⟨"__quantum__qis__s__body", 1, "s", "S"⟩,
    ⟨"__quantum__qis__s__adj", 1, "sdg", "Sadj"⟩,
    ⟨"__quantum__qis__t__body", 1, "t", "T"⟩,
    ⟨"__quantum__qis__t__adj", 1, "tdg", "Tadj"⟩,
    ⟨"__quantum__qis__cnot__body", 2, "CX", "CNOT"⟩,
    ⟨"__quantum__qis__cx__body", 2, "cx", "CX"⟩,
    ⟨"__quantum__qis__cy__body", 2, "cy", "CY"⟩,
    ⟨"__quantum__qis__cz__body", 2, "cz", "CZ"⟩,
    ⟨"__quantum__qis__swap__body", 2, "swap", "SWAP"⟩,
    ⟨"__quantum__qis__ccx__body", 3, "ccx", "CCX"⟩]

/-- The opcodes that mean something in a circuit. -/
def namedOpcodes : List String :=
  gateTable.map GateEntry.opcode
    ++ ["__quantum__qis__reset__body", "__quantum__qis__mz__body", "__quantum__qis__m__body",
      "__quantum__qis__mresetz__body", "__quantum__qir__read_result",
      "__quantum__rt__read_result"]

/-- What an instruction asks for. -/
inductive Meaning where
  | gate (g : GateEntry) (qubits : List Operand)
  | reset (qubit : Operand)
  | measurement (qubit result : Operand)
  | measureReset (qubit result : Operand)
  | readout (name : String) (result : Operand)
  /-- Nothing that a circuit can express. -/
  | unsupported (i : Instruction)

/-- An instruction means something if it has the operands that its opcode asks for. -/
inductive Instruction.Means : Instruction → Meaning → Prop
  | gate {g : GateEntry} (hg : g ∈ gateTable) {qubits : List Operand}
      (hcount : qubits.length = g.arity) (output : Option String) :
      Means ⟨g.opcode, qubits, output⟩ (.gate g qubits)
  | reset (q : Operand) (output : Option String) :
      Means ⟨"__quantum__qis__reset__body", [q], output⟩ (.reset q)
  | measurement {opcode : String}
      (h : opcode ∈ ["__quantum__qis__mz__body", "__quantum__qis__m__body"]) (q r : Operand)
      (output : Option String) : Means ⟨opcode, [q, r], output⟩ (.measurement q r)
  | measureReset (q r : Operand) (output : Option String) :
      Means ⟨"__quantum__qis__mresetz__body", [q, r], output⟩ (.measureReset q r)
  | readout {opcode : String}
      (h : opcode ∈ ["__quantum__qir__read_result", "__quantum__rt__read_result"]) (r : Operand)
      (output : Option String) : Means ⟨opcode, [r], output⟩ (.readout (output.getD "_") r)
  | unsupported {i : Instruction} (h : i.opcode ∉ namedOpcodes) : Means i (.unsupported i)

/-- The lines of a comment: its text is cut at line feeds, and each piece loses the
    carriage returns at its end. -/
def commentPieces (text : String) : List String :=
  (text.toList.splitOn '\n').map fun piece => String.ofList (piece.rdropWhile (· == '\r'))

/-- An operand in a comment, given how a qubit and a result are written by their
    numbers. -/
def Operand.written (qubit result : Nat → String) (w : Wires) (o : Operand) : String :=
  match o with
  | .qubit _ | .pointer _ => qubit (w.qubit o.identity)
  | .result _ => result (w.result o.identity)
  | .integer value => toString value
  | .double value => value.render
  | .bool value => toString value
  | .named name => s!"%{name}"
  | .raw text => text

/-- An instruction in a comment, without the blanks at its end. -/
def Instruction.written (qubit result : Nat → String) (w : Wires) (i : Instruction) : String :=
  let binding := i.output.elim "" fun name => s!"%{name} = "
  let arguments := ", ".intercalate (i.operands.map (Operand.written qubit result w))
  String.ofList (s!"{binding}{i.opcode} {arguments}".toList.rdropWhile isBlank)

namespace Meaning

/-- The identities that are collected as qubits. -/
def qubits : Meaning → List Identity
  | gate _ qs => qs.map Operand.identity
  | reset q | measurement q _ | measureReset q _ => [q.identity]
  | readout _ _ => []
  | unsupported i => (i.operands.filter Operand.isQubitPointer).map Operand.identity

/-- The identities that are collected as results. -/
def results : Meaning → List Identity
  | gate _ _ | reset _ => []
  | measurement _ r | measureReset _ r | readout _ r => [r.identity]
  | unsupported i => (i.operands.filter Operand.isResultPointer).map Operand.identity

/-- The lines that are written in OpenQASM. -/
def lines (w : Wires) : Meaning → List String
  | gate g qs =>
    let targets := ", ".intercalate (qs.map fun q => s!"q[{w.qubit q.identity}]")
    [s!"{g.openQasm} {targets};"]
  | reset q => ["// Requires nonstandard reset gate:", s!"reset q[{w.qubit q.identity}];"]
  | measurement q r => [s!"measure q[{w.qubit q.identity}] -> c[{w.result r.identity}];"]
  | measureReset q r =>
    [s!"measure q[{w.qubit q.identity}] -> c[{w.result r.identity}];",
      "// Requires nonstandard reset gate:", s!"reset q[{w.qubit q.identity}];"]
  | readout name r =>
    (commentPieces s!"%{name} = c[{w.result r.identity}]").map ("// " ++ ·)
  | unsupported i =>
    "// Unsupported QIS operation:"
      :: (commentPieces (i.written (fun n => s!"q[{n}]") (fun n => s!"c[{n}]") w)).map ("// " ++ ·)

/-- The operations that are added to a circuit. -/
def operations (w : Wires) : Meaning → List Operation
  | gate g qs => [.gate g.circuit (qs.map fun q => w.qubit q.identity)]
  | reset q => [.remark "Requires nonstandard reset gate:", .gate "Reset" [w.qubit q.identity]]
  | measurement q r => [.measurement (w.qubit q.identity) (w.result r.identity)]
  | measureReset q r =>
    [.measurement (w.qubit q.identity) (w.result r.identity),
      .remark "Requires nonstandard reset gate:", .gate "Reset" [w.qubit q.identity]]
  | readout name r => (commentPieces s!"%{name} = {w.result r.identity}").map .remark
  | unsupported i =>
    .remark "Unsupported QIS operation:"
      :: (commentPieces (i.written toString toString w)).map .remark

end Meaning

/-- The numbers of the wires: each identity has its place among those that are
    collected, where repetitions do not count. -/
def Wires.ofMeanings (ms : List Meaning) : Wires :=
  .ofMentions (ms.flatMap Meaning.qubits) (ms.flatMap Meaning.results)

/-- The OpenQASM text of two passes. A register without elements is not declared. -/
def twoPassText (name : String) (ms : List Meaning) : String :=
  let numQubits := (ms.flatMap Meaning.qubits).eraseDups.length
  let numResults := (ms.flatMap Meaning.results).eraseDups.length
  "\n".intercalate
    ([s!"// Generated from QIR block {name}.", "OPENQASM 2.0;", "include \"qelib1.inc\";", ""]
      ++ (if numQubits = 0 then [] else [s!"qreg q[{numQubits}];"])
      ++ (if numResults = 0 then [] else [s!"creg c[{numResults}];"])
      ++ ms.flatMap (Meaning.lines (.ofMeanings ms)))

/-- The circuit of two passes. -/
def twoPassCircuit (ms : List Meaning) : Circuit where
  numQubits := (ms.flatMap Meaning.qubits).eraseDups.length
  numResults := (ms.flatMap Meaning.results).eraseDups.length
  operations := (ms.flatMap (Meaning.operations (.ofMeanings ms))).toArray

/-! ### The table -/

/-- The entry of a gate. -/
def GateKind.entry (k : GateKind) : GateEntry :=
  ⟨k.opcode, k.arity, OpenQasm.symbol k, Circuit.symbol k⟩

/-- The gates of the table are those that the pass knows, with the symbols that the
    dialects have for them. -/
theorem gateTable_eq : gateTable = GateKind.all.map GateKind.entry := by
  decide

theorem GateKind.entry_mem_gateTable (k : GateKind) : k.entry ∈ gateTable := by
  rw [gateTable_eq]
  exact List.mem_map_of_mem (by cases k <;> decide)

theorem GateKind.role_opcode (k : GateKind) : Role.ofOpcode k.opcode = .gate k := by
  rw [Role.ofOpcode, GateKind.ofOpcode?_opcode]

/-- The pass has no role for an opcode that is not named. -/
theorem role_of_notMem {opcode : String} (h : opcode ∉ namedOpcodes) :
    Role.ofOpcode opcode = .other := by
  have hgate : GateKind.ofOpcode? opcode = none := by
    rw [GateKind.ofOpcode?, List.find?_eq_none]
    intro k _ hk
    rw [decide_eq_true_eq] at hk
    rw [namedOpcodes, ← hk] at h
    exact h (List.mem_append_left _ (List.mem_map_of_mem k.entry_mem_gateTable))
  simp only [namedOpcodes, List.mem_append, List.mem_cons, not_or] at h
  simp [Role.ofOpcode, hgate, h]

theorem notMem_of_role {opcode : String} (h : Role.ofOpcode opcode = .other) :
    opcode ∉ namedOpcodes := by
  have hnamed : namedOpcodes.all (fun s => Role.ofOpcode s ≠ .other) = true := by
    decide +kernel
  intro hmem
  have hrole := List.all_eq_true.1 hnamed opcode hmem
  exact of_decide_eq_true hrole h

/-! ### One instruction -/

theorem Operand.text_eq (d : Dialect) (w : Wires) (o : Operand) :
    o.text d w = o.written d.qubitText d.resultText w := by
  cases o with
  | bool value => cases value <;> rfl
  | _ => rfl

theorem Instruction.instructionText_eq (d : Dialect) (w : Wires) (i : Instruction) :
    Emission.instructionText i.output i.opcode (i.operands.map (Operand.text d w))
      = i.written d.qubitText d.resultText w := by
  have htexts : i.operands.map (Operand.text d w)
      = i.operands.map (Operand.written d.qubitText d.resultText w) :=
    List.map_congr_left fun o _ => o.text_eq d w
  rw [htexts]
  cases houtput : i.output with
  | none =>
      simp only [Emission.instructionText, Instruction.written, houtput]
      rfl
  | some name =>
      simp only [Emission.instructionText, Instruction.written, houtput]
      rfl

theorem map_line_remarks (text : String) :
    (Operation.remarks text).map OpenQasm.line = (commentPieces text).map ("// " ++ ·) := by
  rw [Operation.remarks, List.map_map]
  rfl

/-- The writer puts lines together from the texts of their wires. -/
theorem line_measurement (q r : Nat) :
    OpenQasm.line (.measurement q r) = s!"measure q[{q}] -> c[{r}];" := by
  change _ = "measure q[" ++ q.repr ++ "] -> c[" ++ r.repr ++ "];"
  rw [← String.toList_inj]
  simp [OpenQasm.line, OpenQasm.qubit, OpenQasm.result]

theorem line_reset (q : Nat) :
    OpenQasm.line (.gate "reset" [q]) = s!"reset q[{q}];" := by
  change _ = "reset q[" ++ q.repr ++ "];"
  rw [← String.toList_inj]
  simp [OpenQasm.line, OpenQasm.qubit]

theorem readoutText_eq (name : String) (r : Nat) :
    "%" ++ name ++ " = " ++ OpenQasm.result r = s!"%{name} = c[{r}]" := by
  change _ = "%" ++ name ++ " = c[" ++ r.repr ++ "]"
  rw [← String.toList_inj]
  simp [OpenQasm.result]

/-- How the pass classifies an instruction with the meaning: its role, and what there is
    to know of its operands. What follows is read off these. -/
def Meaning.Classifies (i : Instruction) : Meaning → Prop
  | gate g qs => ∃ k : GateKind, g = k.entry ∧ i.role = .gate k ∧ i.operands = qs
      ∧ qs.length = k.arity
  | reset q => i.role = .reset ∧ i.operands = [q]
  | measurement q r => i.role = .measurement ∧ i.operands = [q, r]
  | measureReset q r => i.role = .measureReset ∧ i.operands = [q, r]
  | readout name r => i.role = .readout ∧ i.operands = [r] ∧ i.output.getD "_" = name
  | unsupported j => i.role = .other ∧ j = i

namespace Instruction

variable {i : Instruction} {m : Meaning}

theorem Means.classifies (h : i.Means m) : m.Classifies i := by
  cases h with
  | gate hg hcount output =>
      rw [gateTable_eq, List.mem_map] at hg
      rcases hg with ⟨k, -, rfl⟩
      exact ⟨k, rfl, k.role_opcode, rfl, hcount⟩
  | reset q output | measureReset q r output => exact ⟨rfl, rfl⟩
  | measurement hmem q r output =>
      simp only [List.mem_cons, List.not_mem_nil, or_false] at hmem
      rcases hmem with rfl | rfl <;> exact ⟨rfl, rfl⟩
  | readout hmem r output =>
      simp only [List.mem_cons, List.not_mem_nil, or_false] at hmem
      rcases hmem with rfl | rfl <;> exact ⟨rfl, rfl, rfl⟩
  | unsupported hnot => exact ⟨role_of_notMem hnot, rfl⟩

theorem Means.counted (h : i.Means m) : i.Counted := by
  have hclass := h.classifies
  rw [Counted]
  cases m with
  | gate g qs =>
      rcases hclass with ⟨k, -, hrole, rfl, hcount⟩
      simp [hrole, Role.operandCount?, hcount]
  | reset q | measurement q r | measureReset q r =>
      rcases hclass with ⟨hrole, hoperands⟩
      simp [hrole, hoperands, Role.operandCount?]
  | readout name r =>
      rcases hclass with ⟨hrole, hoperands, -⟩
      simp [hrole, hoperands, Role.operandCount?]
  | unsupported j =>
      rcases hclass with ⟨hrole, -⟩
      simp [hrole, Role.operandCount?]

theorem exists_means (h : i.Counted) : ∃ m, i.Means m := by
  rw [Counted] at h
  cases hcount : i.role.operandCount? with
  | none =>
      have hother : i.role = .other := by
        cases hrole : i.role <;> simp [hrole, Role.operandCount?] at hcount ⊢
      exact ⟨_, .unsupported (notMem_of_role hother)⟩
  | some count =>
      -- The demands of opcodes tell them apart in the same way; the names are not needed.
      have hdemands := demands_of_operandCount? OpenQasm.dialect hcount
      rw [hcount, Option.all_some, beq_iff_eq] at h
      generalize i.faultName OpenQasm.dialect = name at hdemands
      rcases i with ⟨opcode, operands, output⟩
      cases hdemands with
      | gate hlookup =>
          rw [Dialect.lookup?, Option.map_eq_some_iff] at hlookup
          rcases hlookup with ⟨k, hk, rfl⟩
          rw [GateKind.ofOpcode?] at hk
          have hopcode : k.opcode = opcode := by simpa using List.find?_some hk
          subst hopcode
          exact ⟨_, .gate k.entry_mem_gateTable h.symm output⟩
      | reset =>
          rcases List.length_eq_one_iff.1 h.symm with ⟨q, rfl⟩
          exact ⟨_, .reset q output⟩
      | measurement hmem =>
          rcases List.length_eq_two.1 h.symm with ⟨q, r, rfl⟩
          exact ⟨_, .measurement hmem q r output⟩
      | measureReset =>
          rcases List.length_eq_two.1 h.symm with ⟨q, r, rfl⟩
          exact ⟨_, .measureReset q r output⟩
      | readout hmem =>
          rcases List.length_eq_one_iff.1 h.symm with ⟨r, rfl⟩
          exact ⟨_, .readout hmem r output⟩

theorem Means.qubitMentions_eq (h : i.Means m) : i.qubitMentions = m.qubits := by
  have hclass := h.classifies
  rw [qubitMentions]
  cases m with
  | gate g qs =>
      rcases hclass with ⟨k, -, hrole, rfl, -⟩
      simp only [hrole, Meaning.qubits]
  | reset q | measurement q r | measureReset q r =>
      rcases hclass with ⟨hrole, hoperands⟩
      simp only [hrole, hoperands]
      rfl
  | readout name r =>
      rcases hclass with ⟨hrole, -, -⟩
      simp only [hrole, Meaning.qubits]
  | unsupported j =>
      rcases hclass with ⟨hrole, rfl⟩
      simp only [hrole, Meaning.qubits]

theorem Means.resultMentions_eq (h : i.Means m) : i.resultMentions = m.results := by
  have hclass := h.classifies
  rw [resultMentions]
  cases m with
  | gate g qs =>
      rcases hclass with ⟨k, -, hrole, -, -⟩
      simp only [hrole, Meaning.results]
  | reset q =>
      rcases hclass with ⟨hrole, -⟩
      simp only [hrole, Meaning.results]
  | measurement q r | measureReset q r =>
      rcases hclass with ⟨hrole, hoperands⟩
      simp only [hrole, hoperands]
      rfl
  | readout name r =>
      rcases hclass with ⟨hrole, hoperands, -⟩
      simp only [hrole, hoperands]
      rfl
  | unsupported j =>
      rcases hclass with ⟨hrole, rfl⟩
      simp only [hrole, Meaning.results]

/-- An instruction is written in OpenQASM as it is meant. -/
theorem Means.map_line (h : i.Means m) (w : Wires) :
    (i.rendering OpenQasm.dialect w).map OpenQasm.line = m.lines w := by
  have hclass := h.classifies
  rw [rendering]
  cases m with
  | gate g qs =>
      rcases hclass with ⟨k, rfl, hrole, rfl, -⟩
      simp only [hrole, List.map_cons, List.map_nil, OpenQasm.line, List.map_map]
      rfl
  | reset q =>
      rcases hclass with ⟨hrole, hoperands⟩
      simp only [hrole, hoperands]
      exact congrArg (fun l => [_, l]) (line_reset _)
  | measurement q r =>
      rcases hclass with ⟨hrole, hoperands⟩
      simp only [hrole, hoperands, List.map_cons, List.map_nil, line_measurement]
      rfl
  | measureReset q r =>
      rcases hclass with ⟨hrole, hoperands⟩
      simp only [hrole, hoperands, List.map_cons, line_measurement]
      exact congrArg (fun l => [_, _, l]) (line_reset _)
  | readout name r =>
      rcases hclass with ⟨hrole, hoperands, rfl⟩
      simp only [hrole, hoperands, map_line_remarks]
      exact congrArg (fun text => (commentPieces text).map ("// " ++ ·)) (readoutText_eq _ _)
  | unsupported j =>
      rcases hclass with ⟨hrole, rfl⟩
      simp only [hrole, instructionText_eq, List.map_cons, map_line_remarks]
      rfl

/-- An instruction is rendered in a circuit as it is meant. -/
theorem Means.rendering_eq (h : i.Means m) (w : Wires) :
    i.rendering Circuit.dialect w = m.operations w := by
  have hclass := h.classifies
  rw [rendering]
  cases m with
  | gate g qs =>
      rcases hclass with ⟨k, rfl, hrole, rfl, -⟩
      simp only [hrole]
      rfl
  | reset q | measurement q r | measureReset q r =>
      rcases hclass with ⟨hrole, hoperands⟩
      simp only [hrole, hoperands]
      rfl
  | readout name r =>
      rcases hclass with ⟨hrole, hoperands, rfl⟩
      simp only [hrole, hoperands]
      rfl
  | unsupported j =>
      rcases hclass with ⟨hrole, rfl⟩
      simp only [hrole, instructionText_eq]
      rfl

end Instruction

/-! ### A block -/

section Blocks

variable {is : List Instruction} {ms : List Meaning}

theorem exists_meanings_iff :
    (∃ ms, List.Forall₂ Instruction.Means is ms) ↔ ∀ i ∈ is, i.Counted := by
  constructor
  · rintro ⟨ms, h⟩ i hi
    induction h with
    | nil => cases hi
    | cons hmeans _ ih =>
        rcases List.mem_cons.1 hi with rfl | hi
        · exact hmeans.counted
        · exact ih hi
  · intro h
    induction is with
    | nil => exact ⟨[], .nil⟩
    | cons i is ih =>
        rcases Instruction.exists_means (h i List.mem_cons_self) with ⟨m, hm⟩
        rcases ih fun j hj => h j (List.mem_cons_of_mem i hj) with ⟨ms, hms⟩
        exact ⟨m :: ms, .cons hm hms⟩

/-- What is the same for an instruction and its meaning is the same for a list. -/
theorem flatMap_eq_of_means {α : Type} {f : Instruction → List α} {g : Meaning → List α}
    (hfg : ∀ i m, Instruction.Means i m → f i = g m) (h : List.Forall₂ Instruction.Means is ms) :
    is.flatMap f = ms.flatMap g := by
  induction h with
  | nil => rfl
  | cons hmeans _ ih => rw [List.flatMap_cons, List.flatMap_cons, hfg _ _ hmeans, ih]

end Blocks

namespace Emission

/-- The emission of a block, by the meanings of its instructions. -/
theorem ofBlock_of_means (d : Dialect) {b : Block} {ms : List Meaning}
    (h : List.Forall₂ Instruction.Means b.instructions.toList ms) :
    ∃ e, ofBlock d b = .ok e
      ∧ e.Follows (ms.flatMap Meaning.qubits) (ms.flatMap Meaning.results)
        (b.instructions.toList.flatMap (Instruction.rendering d (.ofMeanings ms))) := by
  have hqubits : b.qubitMentions = ms.flatMap Meaning.qubits :=
    flatMap_eq_of_means (fun _ _ hm => hm.qubitMentions_eq) h
  have hresults : b.resultMentions = ms.flatMap Meaning.results :=
    flatMap_eq_of_means (fun _ _ hm => hm.resultMentions_eq) h
  rcases ofBlock_of_counted d b (exists_meanings_iff.1 ⟨ms, h⟩) with ⟨e, he, hfollows⟩
  rw [Block.rendering, Block.wires, hqubits, hresults] at hfollows
  exact ⟨e, he, hfollows⟩

theorem text_eq_twoPassText {e : Emission} {ms : List Meaning}
    (hqubits : e.qubits.Records (ms.flatMap Meaning.qubits))
    (hresults : e.results.Records (ms.flatMap Meaning.results))
    (hbody : OpenQasm.body e = ms.flatMap (Meaning.lines (.ofMeanings ms))) (name : String) :
    OpenQasm.text name e = twoPassText name ms := by
  have hquantum : ("qreg" ++ " " ++ "q" ++ "[" : String) = "qreg q[" := by decide
  have hclassical : ("creg" ++ " " ++ "c" ++ "[" : String) = "creg c[" := by decide
  rw [OpenQasm.text, OpenQasm.registers, hbody, hqubits.size_eq, hresults.size_eq]
  simp only [OpenQasm.declaration, hquantum, hclassical, ← List.append_assoc]
  rfl

/-- **One pass gives what two passes give.** A block can be emitted exactly if each
    of its instructions means something. Each numbering then holds the collected
    identities without repetitions, and the text and the circuit are those of the two
    passes: the contributions of the instructions in their order, with wires that are
    numbered by the whole block. -/
theorem export_eq_twoPass (b : Block) :
    (∀ d, (∃ e, ofBlock d b = .ok e)
      ↔ ∃ ms, List.Forall₂ Instruction.Means b.instructions.toList ms)
    ∧ ∀ ms, List.Forall₂ Instruction.Means b.instructions.toList ms →
      (∃ e, ofBlock OpenQasm.dialect b = .ok e
        ∧ e.qubits.Records (ms.flatMap Meaning.qubits)
        ∧ e.results.Records (ms.flatMap Meaning.results)
        ∧ OpenQasm.body e = ms.flatMap (Meaning.lines (.ofMeanings ms))
        ∧ Artifact.ofBlock .openQasm b = .ok (.text (twoPassText b.name ms)))
      ∧ (∃ e, ofBlock Circuit.dialect b = .ok e
        ∧ e.qubits.Records (ms.flatMap Meaning.qubits)
        ∧ e.results.Records (ms.flatMap Meaning.results)
        ∧ e.operations.toList = ms.flatMap (Meaning.operations (.ofMeanings ms))
        ∧ Artifact.ofBlock .circuit b = .ok (.circuit (twoPassCircuit ms))) := by
  constructor
  · intro d
    rw [exists_meanings_iff]
    constructor
    · rintro ⟨e, he⟩
      exact counted_of_ofBlock he
    · intro hcounted
      rcases ofBlock_of_counted d b hcounted with ⟨e, he, -⟩
      exact ⟨e, he⟩
  · intro ms hms
    constructor
    · rcases ofBlock_of_means OpenQasm.dialect hms with ⟨e, he, hqubits, hresults, hoperations⟩
      have hbody : OpenQasm.body e = ms.flatMap (Meaning.lines (.ofMeanings ms)) := by
        rw [OpenQasm.body, hoperations, List.map_flatMap]
        exact flatMap_eq_of_means (fun _ _ hm => hm.map_line _) hms
      refine ⟨e, he, hqubits, hresults, hbody, Artifact.ofBlock_eq_ok_iff.2 ⟨e, he, ?_⟩⟩
      rw [Artifact.ofEmission, text_eq_twoPassText hqubits hresults hbody]
    · rcases ofBlock_of_means Circuit.dialect hms with ⟨e, he, hqubits, hresults, hoperations⟩
      rw [flatMap_eq_of_means (fun _ _ hm => hm.rendering_eq _) hms] at hoperations
      have hsound : e.Sound :=
        preserved_sound.ofBlock (fun _ => trivial) trivial sound_empty he
      refine ⟨e, he, hqubits, hresults, hoperations, Artifact.ofBlock_eq_ok_iff.2 ⟨e, he, ?_⟩⟩
      rw [Artifact.ofEmission, toCircuit_of_sound hsound, hqubits.size_eq, hresults.size_eq]
      rw [twoPassCircuit, ← hoperations, Array.toArray_toList]
      rfl

/-- A block with an instruction of every kind of routing, in which wires are
    mentioned again after others came in between. -/
def mixedBlock : Block where
  name := "entry"
  instructions :=
    #[{ opcode := "__quantum__qis__cnot__body", operands := [.qubit (some 7), .pointer (some 3)] },
      { opcode := "__quantum__qis__mresetz__body"
        operands := [.qubit (some 3), .result (some 9)] },
      { opcode := "foo"
        operands := [.result none, .qubit none, .integer (-4), .pointer (some 7), .bool true,
          .named "v", .raw "x \r\r\ny\n "]
        output := some "a" },
      { opcode := "__quantum__qir__read_result", operands := [.result (some 9)] },
      { opcode := "__quantum__qis__mz__body", operands := [.pointer (some 7), .result (some 9)] },
      { opcode := "__quantum__qis__m__body", operands := [.qubit (some 5), .pointer (some 9)] },
      { opcode := "__quantum__rt__read_result", operands := [.result none], output := some "b" },
      { opcode := "__quantum__qis__s__adj", operands := [.qubit (some 5)] },
      { opcode := "__quantum__qis__reset__body", operands := [.named "q"] }]

/-- What the instructions of the block mean. -/
def mixedMeanings : List Meaning :=
  [.gate ⟨"__quantum__qis__cnot__body", 2, "CX", "CNOT"⟩ [.qubit (some 7), .pointer (some 3)],
    .measureReset (.qubit (some 3)) (.result (some 9)),
    .unsupported
      { opcode := "foo"
        operands := [.result none, .qubit none, .integer (-4), .pointer (some 7), .bool true,
          .named "v", .raw "x \r\r\ny\n "]
        output := some "a" },
    .readout "_" (.result (some 9)),
    .measurement (.pointer (some 7)) (.result (some 9)),
    .measurement (.qubit (some 5)) (.pointer (some 9)),
    .readout "b" (.result none),
    .gate ⟨"__quantum__qis__s__adj", 1, "sdg", "Sadj"⟩ [.qubit (some 5)],
    .reset (.named "q")]

theorem export_eq_twoPass_mixedBlock :
    List.Forall₂ Instruction.Means mixedBlock.instructions.toList mixedMeanings
      ∧ Artifact.ofBlock .openQasm mixedBlock = .ok (.text ("\n".intercalate
        ["// Generated from QIR block entry.", "OPENQASM 2.0;", "include \"qelib1.inc\";", "",
          "qreg q[4];", "creg c[2];", "CX q[0], q[1];", "measure q[1] -> c[0];",
          "// Requires nonstandard reset gate:", "reset q[1];", "// Unsupported QIS operation:",
          "// %a = foo c[1], q[2], -4, q[0], true, %v, x ", "// y", "// %_ = c[0]",
          "measure q[0] -> c[0];", "measure q[3] -> c[0];", "// %b = c[1]", "sdg q[3];",
          "// Requires nonstandard reset gate:", "reset q[2];"]))
      ∧ Artifact.ofBlock .circuit mixedBlock = .ok (.circuit
        { numQubits := 4
          numResults := 2
          operations := #[.gate "CNOT" [0, 1], .measurement 1 0,
            .remark "Requires nonstandard reset gate:", .gate "Reset" [1],
            .remark "Unsupported QIS operation:", .remark "%a = foo 1, 2, -4, 0, true, %v, x ",
            .remark "y", .remark "%_ = 0", .measurement 0 0, .measurement 3 0, .remark "%b = 1",
            .gate "Sadj" [3], .remark "Requires nonstandard reset gate:",
            .gate "Reset" [2]] }) := by
  have hcnot : ⟨"__quantum__qis__cnot__body", 2, "CX", "CNOT"⟩ ∈ gateTable := by decide
  have hadjoint : ⟨"__quantum__qis__s__adj", 1, "sdg", "Sadj"⟩ ∈ gateTable := by decide
  have hmeans : List.Forall₂ Instruction.Means mixedBlock.instructions.toList mixedMeanings := by
    refine .cons (.gate hcnot rfl none) (.cons (.measureReset _ _ none)
      (.cons (.unsupported (by decide)) (.cons (.readout (by decide) _ none)
      (.cons (.measurement (by decide) _ _ none) (.cons (.measurement (by decide) _ _ none)
      (.cons (.readout (by decide) _ (some "b")) (.cons (.gate hadjoint rfl none)
      (.cons (.reset _ none) .nil))))))))
  rcases (export_eq_twoPass mixedBlock).2 mixedMeanings hmeans with
    ⟨⟨_, -, -, -, -, htext⟩, ⟨_, -, -, -, -, hcircuit⟩⟩
  refine ⟨hmeans, ?_, ?_⟩
  · rw [htext]
    decide +kernel
  · rw [hcircuit]
    decide +kernel

end Emission

end QuantumIR
