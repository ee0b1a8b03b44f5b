import Mathlib.Data.List.Forall2
import QuantumIR.Artifact
import QuantumIR.Proofs.Assembly.Moves
import QuantumIR.Proofs.OpenQasm.ReadBack

/-!
# Two Ways to a Circuit

A block becomes a circuit either directly or by way of its OpenQASM text, which is
written and read back. The two circuits are the same up to the names of gates and
the texts of remarks, and if there is none, both ways report the same miscount.

Gates and measurements agree because both ways render the same instructions with
the same wires. Remarks are less obvious. Their texts show wires, which the two
dialects write differently, and a text is trimmed before it is cut into lines, so
a different way of writing a wire could change how many lines there are. It does
not, because a wire is written as a non-empty text without blanks in both. The
relation `SameFeeds` carries this through concatenation: it compares what trimming
and cutting can observe of a text.

## Main definitions

* `Text.SameFeeds`: Two texts are cut into equally many lines, trimmed or not.
* `Operation.Corresponds`: Two operations differ in names and texts only.
* `Artifact.Agree`: Two outcomes differ in names and texts only.
* `Block.Numerable`: The wires of a block can be numbered in 64 bits.

## Theorems

* `SameFeeds.append`: Texts with the same line feeds can be joined.
* `corresponds_rendering`: An instruction is rendered alike in both dialects.
* `fault_counts`: A miscount is the same in all dialects.
* `circuit_agree_openQasmCircuit`: Both ways agree on every block.
-/

namespace QuantumIR

namespace Text

/-- Two texts that cannot be told apart by counting their lines, before or after
    blanks are removed from the end, whatever stands before or after them. -/
structure SameFeeds (s t : List Char) : Prop where
  blank : trimEnd s = [] ↔ trimEnd t = []
  whole : s.count '\n' = t.count '\n'
  trimmed : (trimEnd s).count '\n' = (trimEnd t).count '\n'

namespace SameFeeds

theorem refl (s : List Char) : SameFeeds s s :=
  ⟨Iff.rfl, rfl, rfl⟩

theorem append {s t s' t' : List Char} (h : SameFeeds s t) (h' : SameFeeds s' t') :
    SameFeeds (s ++ s') (t ++ t') := by
  have hwhole : (s ++ s').count '\n' = (t ++ t').count '\n' := by
    rw [List.count_append, List.count_append, h.whole, h'.whole]
  -- Whether trimming reaches the first part is the same on both sides.
  by_cases hblank : trimEnd s' = []
  · have hblank' : trimEnd t' = [] := h'.blank.1 hblank
    refine ⟨?_, hwhole, ?_⟩
    · rw [trimEnd_append, trimEnd_append, if_pos hblank, if_pos hblank']
      exact h.blank
    · rw [trimEnd_append, trimEnd_append, if_pos hblank, if_pos hblank']
      exact h.trimmed
  · have hblank' : trimEnd t' ≠ [] := fun ht => hblank (h'.blank.2 ht)
    refine ⟨?_, hwhole, ?_⟩
    · rw [trimEnd_append, trimEnd_append, if_neg hblank, if_neg hblank']
      simp [hblank, hblank']
    · rw [trimEnd_append, trimEnd_append, if_neg hblank, if_neg hblank', List.count_append,
        List.count_append, h.whole, h'.trimmed]

/-- Non-empty texts without blanks are alike, however different they are. -/
theorem of_solid {s t : List Char} (hs : s ≠ []) (ht : t ≠ [])
    (hs' : ∀ c ∈ s, isBlank c = false) (ht' : ∀ c ∈ t, isBlank c = false) : SameFeeds s t := by
  have hkeep : ∀ u : List Char, (∀ c ∈ u, isBlank c = false) → trimEnd u = u := by
    intro u hu
    induction u with
    | nil => rfl
    | cons c u ih =>
        rw [trimEnd_cons, if_neg (by simp [hu c]), ih fun d hd => hu d (List.mem_cons_of_mem _ hd)]
  have hcount : ∀ u : List Char, (∀ c ∈ u, isBlank c = false) → u.count '\n' = 0 := by
    intro u hu
    rw [List.count_eq_zero]
    intro hmem
    exact absurd (hu _ hmem) (by decide)
  refine ⟨?_, ?_, ?_⟩
  · rw [hkeep s hs', hkeep t ht']
    exact ⟨fun h => absurd h hs, fun h => absurd h ht⟩
  · rw [hcount s hs', hcount t ht']
  · rw [hkeep s hs', hkeep t ht', hcount s hs', hcount t ht']

theorem intercalate (sep : List Char) {ss ts : List (List Char)}
    (h : List.Forall₂ SameFeeds ss ts) :
    SameFeeds (sep.intercalate ss) (sep.intercalate ts) := by
  induction h with
  | nil => exact refl _
  | @cons s t ss ts hfirst hrest ih =>
      cases hrest with
      | nil =>
          rw [List.intercalate_singleton, List.intercalate_singleton]
          exact hfirst
      | cons hsecond hrest =>
          rw [List.intercalate_cons_cons, List.intercalate_cons_cons]
          exact (hfirst.append (refl sep)).append ih

end SameFeeds

end Text

open Text

namespace Emission

/-- A comment has one line more than it has line feeds. -/
theorem length_commentLines (text : String) :
    (commentLines text).length = text.toList.count '\n' + 1 := by
  rw [commentLines, List.length_map, length_splitOn]

end Emission

/-- Two operations that differ in names and texts only: gates are on the same qubits
    and are named by the symbols that the two dialects have for one opcode. -/
inductive Operation.Corresponds : Operation → Operation → Prop
  | gate (opcode : String) {g g' : Gate} (h : Circuit.dialect.lookup? opcode = some g)
      (h' : OpenQasm.dialect.lookup? opcode = some g') (targets : List Nat) :
      Corresponds (.gate g.symbol targets) (.gate g'.symbol targets)
  | reset (targets : List Nat) :
      Corresponds (.gate Circuit.dialect.reset.symbol targets)
        (.gate OpenQasm.dialect.reset.symbol targets)
  | measurement (q r : Nat) : Corresponds (.measurement q r) (.measurement q r)
  | remark (text text' : String) : Corresponds (.remark text) (.remark text')

/-- Two outcomes that differ in names and texts only. -/
inductive Artifact.Agree : Except ExportError Artifact → Except ExportError Artifact → Prop
  | circuits {c c' : Circuit} (hq : c.numQubits = c'.numQubits) (hr : c.numResults = c'.numResults)
      (hops : List.Forall₂ Operation.Corresponds c.operations.toList c'.operations.toList) :
      Agree (.ok (.circuit c)) (.ok (.circuit c'))
  | miscounts {err err' : ArityError} (hexpected : err.expected = err'.expected)
      (hfound : err.found = err'.found) : Agree (.error (.arity err)) (.error (.arity err'))

/-- The wires of the block can be numbered in 64 bits. -/
def Block.Numerable (b : Block) : Prop :=
  ∀ e, Emission.ofBlock OpenQasm.dialect b = .ok e →
    e.qubits.size < Decimal.limit64 ∧ e.results.size < Decimal.limit64

theorem Block.numerable_of_mentions {b : Block}
    (hq : b.qubitMentions.eraseDups.length < Decimal.limit64)
    (hr : b.resultMentions.eraseDups.length < Decimal.limit64) : b.Numerable := by
  intro e he
  rcases Emission.ofBlock_of_counted OpenQasm.dialect b (Emission.counted_of_ofBlock he) with
    ⟨e', he', hfollows⟩
  rw [he, Except.ok.injEq] at he'
  rw [he', hfollows.qubits.size_eq, hfollows.results.size_eq]
  exact ⟨hq, hr⟩

/-! ### Remarks -/

/-- A wire is written without blanks, as a number or as an element of a register. -/
theorem sameFeeds_wire {r : Char} (hr : isBlank r = false) (i : Nat) :
    SameFeeds i.repr.toList (OpenQasm.elementText r i) := by
  rw [Nat.toList_repr]
  refine .of_solid Nat.toDigits_ne_nil (List.cons_ne_nil _ _) ?_ ?_
  · exact fun c hc => isBlank_of_isDigit (isDigit_of_mem_toDigits hc)
  · intro c hc
    rcases OpenQasm.mem_elementText hc with rfl | rfl | hdigit | rfl
    · exact hr
    · decide
    · exact isBlank_of_isDigit hdigit
    · decide

theorem sameFeeds_qubitText (i : Nat) :
    SameFeeds (Circuit.dialect.qubitText i).toList (OpenQasm.dialect.qubitText i).toList := by
  have hwire := sameFeeds_wire (r := 'q') (by decide) i
  rw [← OpenQasm.toList_qubit] at hwire
  exact hwire

theorem sameFeeds_resultText (i : Nat) :
    SameFeeds (Circuit.dialect.resultText i).toList (OpenQasm.dialect.resultText i).toList := by
  have hwire := sameFeeds_wire (r := 'c') (by decide) i
  rw [← OpenQasm.toList_result] at hwire
  exact hwire

theorem sameFeeds_text (w : Wires) (o : Operand) :
    SameFeeds (o.text Circuit.dialect w).toList (o.text OpenQasm.dialect w).toList := by
  cases o with
  | qubit id => exact sameFeeds_qubitText _
  | result id => exact sameFeeds_resultText _
  | pointer id => exact sameFeeds_qubitText _
  | integer _ | double _ | bool _ | named _ | raw _ => exact .refl _

/-- Only the arguments in the text of an instruction depend on the dialect. -/
theorem toList_instructionText (output : Option String) (opcode : String) :
    ∃ lead : List Char, ∀ args, (Emission.instructionText output opcode args).toList
      = trimEnd (lead ++ (", ".intercalate args).toList) := by
  cases output with
  | none =>
      refine ⟨("" ++ opcode ++ " ").toList, fun args => ?_⟩
      rw [Emission.instructionText, String.toList_ofList, String.toList_append]
  | some name =>
      refine ⟨("%" ++ name ++ " = " ++ opcode ++ " ").toList, fun args => ?_⟩
      rw [Emission.instructionText, String.toList_ofList, String.toList_append]

/-- The text of an instruction has equally many lines in both dialects, although it
    is trimmed after its wires have been written. -/
theorem length_instructionText (w : Wires) (output : Option String) (opcode : String)
    (os : List Operand) :
    (Emission.commentLines (Emission.instructionText output opcode
        (os.map (Operand.text Circuit.dialect w)))).length
      = (Emission.commentLines (Emission.instructionText output opcode
        (os.map (Operand.text OpenQasm.dialect w)))).length := by
  have hargs : SameFeeds (", ".intercalate (os.map (Operand.text Circuit.dialect w))).toList
      (", ".intercalate (os.map (Operand.text OpenQasm.dialect w))).toList := by
    rw [String.toList_intercalate, String.toList_intercalate, List.map_map, List.map_map]
    refine .intercalate _ ?_
    rw [List.forall₂_map_left_iff, List.forall₂_map_right_iff, List.forall₂_same]
    exact fun o _ => sameFeeds_text w o
  rcases toList_instructionText output opcode with ⟨lead, htext⟩
  rw [Emission.length_commentLines, Emission.length_commentLines, htext, htext,
    ((SameFeeds.refl lead).append hargs).trimmed]

theorem length_readoutText (w : Wires) (name : String) (o : Operand) :
    (Emission.commentLines ("%" ++ name ++ " = "
        ++ Circuit.dialect.resultText (w.result o.identity))).length
      = (Emission.commentLines ("%" ++ name ++ " = "
        ++ OpenQasm.dialect.resultText (w.result o.identity))).length := by
  have hfeeds := ((SameFeeds.refl ("%" ++ name ++ " = ").toList).append
    (sameFeeds_resultText (w.result o.identity))).whole
  rw [← String.toList_append, ← String.toList_append] at hfeeds
  rw [Emission.length_commentLines, Emission.length_commentLines, hfeeds]

/-- Equally many remarks stand for each other, also when one side has been read
    back. -/
theorem corresponds_remarks {text text' : String}
    (h : (Emission.commentLines text).length = (Emission.commentLines text').length) :
    List.Forall₂ Operation.Corresponds (Operation.remarks text)
      ((Operation.remarks text').map OpenQasm.readBack) := by
  rw [Operation.remarks, Operation.remarks, List.map_map, List.forall₂_map_left_iff,
    List.forall₂_map_right_iff]
  exact List.forall₂_iff_get.2 ⟨h, fun _ _ _ => .remark _ _⟩

/-! ### Instructions -/

theorem lookup?_of_role (d : Dialect) {i : Instruction} {kind : GateKind}
    (h : i.role = .gate kind) : d.lookup? i.opcode = some (d.gate kind) := by
  have hkind : GateKind.ofOpcode? i.opcode = some kind := by
    rw [Instruction.role, Role.ofOpcode] at h
    cases hfound : GateKind.ofOpcode? i.opcode with
    | some k =>
        rw [hfound] at h
        injection h with h
        rw [h]
    | none =>
        -- All other opcodes are given other roles.
        rw [hfound] at h
        simp only [] at h
        split_ifs at h
  rw [Dialect.lookup?, hkind, Option.map_some]

theorem corresponds_resetRendering (w : Wires) (os : List Operand) :
    List.Forall₂ Operation.Corresponds (Instruction.resetRendering Circuit.dialect w os)
      ((Instruction.resetRendering OpenQasm.dialect w os).map OpenQasm.readBack) :=
  .cons (.remark _ _) (.cons (.reset _) .nil)

/-- An instruction is rendered alike in both dialects, given the same wires. -/
theorem corresponds_rendering (w : Wires) (i : Instruction) :
    List.Forall₂ Operation.Corresponds (i.rendering Circuit.dialect w)
      ((i.rendering OpenQasm.dialect w).map OpenQasm.readBack) := by
  unfold Instruction.rendering
  split
  · rename_i kind os hrole
    exact .cons (.gate i.opcode (lookup?_of_role _ hrole) (lookup?_of_role _ hrole) _) .nil
  · exact corresponds_resetRendering w _
  · exact .cons (.measurement _ _) .nil
  · exact .cons (.measurement _ _) (corresponds_resetRendering w _)
  · exact corresponds_remarks (length_readoutText w _ _)
  · exact .cons (.remark _ _) (corresponds_remarks (length_instructionText w _ _ _))
  · exact .nil

theorem corresponds_flatMap (w : Wires) (is : List Instruction) :
    List.Forall₂ Operation.Corresponds (is.flatMap (Instruction.rendering Circuit.dialect w))
      ((is.flatMap (Instruction.rendering OpenQasm.dialect w)).map OpenQasm.readBack) := by
  induction is with
  | nil => exact .nil
  | cons i is ih =>
      rw [List.flatMap_cons, List.flatMap_cons, List.map_append]
      exact List.rel_append (corresponds_rendering w i) ih

/-- What is miscounted does not depend on the dialect. -/
theorem fault_counts (d d' : Dialect) (i : Instruction) :
    (i.fault d).map (fun err => (err.expected, err.found))
      = (i.fault d').map (fun err => (err.expected, err.found)) := by
  rw [Instruction.fault, Instruction.fault]
  cases i.role.operandCount? with
  | none => rfl
  | some n =>
      by_cases h : i.operands.length = n
      · simp only [if_pos h, Option.map_none]
      · simp only [if_neg h, Option.map_some]

/-! ### Blocks -/

theorem agree_of_counted {b : Block} (hname : '\n' ∉ b.name.toList) (hsize : b.Numerable)
    (hb : ∀ i ∈ b.instructions.toList, i.Counted) :
    Artifact.Agree (Artifact.ofBlock .circuit b) (Artifact.ofBlock .openQasmCircuit b) := by
  rcases Emission.ofBlock_of_counted Circuit.dialect b hb with ⟨e, he, hfollows⟩
  rcases Emission.ofBlock_of_counted OpenQasm.dialect b hb with ⟨e', he', hfollows'⟩
  have hsound : e.Sound :=
    Emission.preserved_sound.ofBlock (fun _ => trivial) trivial Emission.sound_empty he
  have hsound' : e'.Sound :=
    Emission.preserved_sound.ofBlock (fun _ => trivial) trivial Emission.sound_empty he'
  have hwritable : ∀ o ∈ e'.operations.toList, OpenQasm.Writable o :=
    OpenQasm.preserved_writable.ofBlock OpenQasm.gateReadable_dialect OpenQasm.gateReadable_reset
      (by simp) he'
  have hdirect : Artifact.ofBlock .circuit b
      = .ok (.circuit ⟨e.qubits.size, e.results.size, e.operations⟩) := by
    rw [Artifact.ofBlock, show Target.circuit.dialect = Circuit.dialect from rfl, he]
    simp only [Artifact.ofEmission, Emission.toCircuit_of_sound hsound]
    rfl
  -- The way through the text gives what was recorded, with remarks read back.
  have hread : Artifact.ofBlock .openQasmCircuit b
      = .ok (.circuit ⟨e'.qubits.size, e'.results.size,
        (e'.operations.toList.map OpenQasm.readBack).toArray⟩) := by
    rw [Artifact.ofBlock, show Target.openQasmCircuit.dialect = OpenQasm.dialect from rfl, he']
    simp only [Artifact.ofEmission,
      OpenQasm.circuit_text hname hsound' hwritable (hsize e' he').1 (hsize e' he').2]
    rfl
  rw [hdirect, hread]
  refine .circuits ?_ ?_ ?_
  · rw [hfollows.qubits.size_eq, hfollows'.qubits.size_eq]
  · rw [hfollows.results.size_eq, hfollows'.results.size_eq]
  · rw [hfollows.operations, hfollows'.operations]
    exact corresponds_flatMap b.wires b.instructions.toList

theorem agree_of_fault {b : Block} {err : ArityError}
    (h : b.instructions.toList.findSome? (Instruction.fault Circuit.dialect) = some err) :
    Artifact.Agree (Artifact.ofBlock .circuit b) (Artifact.ofBlock .openQasmCircuit b) := by
  -- The first miscounted instruction is the same in both dialects, and so are its counts.
  have hcounts : (b.instructions.toList.findSome? (Instruction.fault Circuit.dialect)).map
        (fun err => (err.expected, err.found))
      = (b.instructions.toList.findSome? (Instruction.fault OpenQasm.dialect)).map
        (fun err => (err.expected, err.found)) := by
    rw [List.map_findSome?, List.map_findSome?]
    exact congrArg (List.findSome? · b.instructions.toList)
      (funext (fault_counts Circuit.dialect OpenQasm.dialect))
  cases h' : b.instructions.toList.findSome? (Instruction.fault OpenQasm.dialect) with
  | none =>
      rw [h, h'] at hcounts
      cases hcounts
  | some err' =>
      rw [h, h', Option.map_some, Option.map_some, Option.some.injEq, Prod.mk.injEq] at hcounts
      rw [Artifact.ofBlock, Artifact.ofBlock,
        show Target.circuit.dialect = Circuit.dialect from rfl,
        show Target.openQasmCircuit.dialect = OpenQasm.dialect from rfl,
        Emission.ofBlock_of_fault h, Emission.ofBlock_of_fault h']
      exact .miscounts hcounts.1 hcounts.2

theorem agree_of_notMem {b : Block} (hname : '\n' ∉ b.name.toList) (hsize : b.Numerable) :
    Artifact.Agree (Artifact.ofBlock .circuit b) (Artifact.ofBlock .openQasmCircuit b) := by
  cases h : b.instructions.toList.findSome? (Instruction.fault Circuit.dialect) with
  | none =>
      rw [List.findSome?_eq_none_iff] at h
      exact agree_of_counted hname hsize
        fun i hi => (Instruction.fault_eq_none_iff Circuit.dialect i).1 (h i hi)
  | some err => exact agree_of_fault h

/-- The two ways to a circuit agree on every block whose name is a single line, and
    so on every block that is read from a text of assembly: both give circuits that
    correspond, or both report the same miscount. -/
theorem circuit_agree_openQasmCircuit :
    (∀ b : Block, '\n' ∉ b.name.toList → b.Numerable →
      Artifact.Agree (Artifact.ofBlock .circuit b) (Artifact.ofBlock .openQasmCircuit b))
    ∧ ∀ (text : String) (fs : Array FunctionDef), Assembly.functions text = .ok fs →
      ∀ f ∈ fs.toList, ∀ b ∈ f.blocks.toList, b.Numerable →
        Artifact.Agree (Artifact.ofBlock .circuit b) (Artifact.ofBlock .openQasmCircuit b) := by
  refine ⟨fun b => agree_of_notMem, ?_⟩
  intro text fs hfs f hf b hb hsize
  have hname := Assembly.functions_isName hfs f hf b hb
  -- A block that was read has a name, and a name holds no line feed.
  refine agree_of_notMem (fun hmem => ?_) hsize
  exact absurd (hname.2 _ hmem) (by decide)

/-- A block whose comments have several lines, some of them blank. -/
def noisyBlock : Block where
  name := "entry"
  instructions :=
    #[{ opcode := "foo\n", operands := [.raw "\n\t", .pointer none, .raw " \n"] },
      { opcode := "__quantum__qis__cnot__body", operands := [.qubit (some 4), .named "x"] },
      { opcode := "__quantum__qir__read_result", operands := [.result (some 0)]
        output := some "a\nb" }]

theorem circuit_agree_openQasmCircuit_noisyBlock :
    '\n' ∉ noisyBlock.name.toList ∧ noisyBlock.Numerable
      ∧ Artifact.Agree (Artifact.ofBlock .circuit noisyBlock)
        (Artifact.ofBlock .openQasmCircuit noisyBlock) := by
  have hname : '\n' ∉ noisyBlock.name.toList := by decide
  have hsize : noisyBlock.Numerable := Block.numerable_of_mentions (by decide) (by decide)
  exact ⟨hname, hsize, circuit_agree_openQasmCircuit.1 noisyBlock hname hsize⟩

end QuantumIR
