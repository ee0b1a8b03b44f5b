import Mathlib.Algebra.GroupWithZero.Nat
import QuantumIR.Proofs.OpenQasm.ReadBack

/-!
# The Lines of a Text

What the text of a block looks like when it is cut at its line feeds: the header, the
version, the inclusion, an empty line, the declarations, and the body, in which every
line is a comment or a statement about declared wires.

A block holds arbitrary strings. Opcodes, names of values and operands without a
meaning are written into comments, and a comment is cut into lines before it is
recorded, so a line feed in one of them starts another comment. That no string can
pass for a statement is a matter of counting: there are as many statements as the
instructions of the block stand for.

The name of the block is the exception. It is written into the header as it is, and
the header is not cut. A line feed in the name ends the header early; what follows it
in the name stands in front of the version, where nothing of the kind may stand.

## Main definitions

* `Instruction.applications`, `Block.applications`: How many statements an
  instruction or a block stands for.
* `StatementLine`: A line of the body that is no comment.
* `Layout`: The lines of a text with a given number of statements.

## Theorems

* `countP_rendering`: Operations of an instruction that are no remarks.
* `isCommentLine_line`: Exactly the lines of remarks are comments.
* `not_layout_of_version`: The version occurs only once, as the second line.
* `text_layout`: The lines of the text of a block, up to the lines of its name.
-/

namespace QuantumIR

/-! ### Applications -/

/-- How many gates, resets and measurements an instruction stands for. -/
def Instruction.applications (i : Instruction) : Nat :=
  match i.role with
  | .gate _ | .reset | .measurement => 1
  | .measureReset => 2
  | .readout | .other => 0

/-- How many gates, resets and measurements a block stands for. -/
def Block.applications (b : Block) : Nat :=
  (b.instructions.toList.map Instruction.applications).sum

theorem Operation.countP_remarks (text : String) :
    (Operation.remarks text).countP (fun o => !o.isRemark) = 0 := by
  rw [List.countP_eq_zero, Operation.remarks]
  intro o ho
  rcases List.mem_map.1 ho with ⟨line, -, rfl⟩
  simp [Operation.isRemark]

/-- The operations of an instruction that are no remarks. -/
theorem Instruction.countP_rendering (d : Dialect) (w : Wires) {i : Instruction} (hi : i.Counted) :
    (i.rendering d w).countP (fun o => !o.isRemark) = i.applications := by
  rw [Counted] at hi
  rw [rendering, applications]
  cases hrole : i.role with
  | gate kind => rfl
  | reset => rfl
  | measurement | measureReset =>
      simp only [hrole, Role.operandCount?, Option.all_some, beq_iff_eq] at hi
      rcases List.length_eq_two.1 hi.symm with ⟨q, r, hops⟩
      simp only [hops]
      rfl
  | readout =>
      simp only [hrole, Role.operandCount?, Option.all_some, beq_iff_eq] at hi
      rcases List.length_eq_one_iff.1 hi.symm with ⟨r, hops⟩
      simp only [hops]
      exact Operation.countP_remarks _
  | other =>
      -- The announcement is a remark as well.
      rw [List.countP_cons_of_neg (by simp [Operation.isRemark])]
      exact Operation.countP_remarks _

theorem Block.countP_rendering (d : Dialect) {b : Block}
    (hb : ∀ i ∈ b.instructions.toList, i.Counted) :
    (b.rendering d).countP (fun o => !o.isRemark) = b.applications := by
  rw [rendering, List.countP_flatMap, applications]
  congr 1
  exact List.map_congr_left fun i hi => Instruction.countP_rendering d b.wires (hb i hi)

namespace OpenQasm

/-! ### Layouts -/

/-- How the header of a text begins. -/
def headerStart : String := "// Generated from QIR block "

/-- The header of the text of a block. It is one line if the name is. -/
def headerLine (blockName : String) : List Char :=
  headerStart.toList ++ (blockName.toList ++ ['.'])

/-- Whether the line is a comment. -/
def isCommentLine (l : List Char) : Bool :=
  "// ".toList.isPrefixOf l

/-- A gate of the table or a reset, or a measurement, on wires below the bounds. -/
inductive StatementLine (nq nr : Nat) : List Char → Prop
  | gate {name : String} {targets : List Nat} (hname : name = "reset" ∨ ∃ kind, name = symbol kind)
      (hne : targets ≠ []) (hlt : ∀ t ∈ targets, t < nq) :
      StatementLine nq nr (name.toList ++ ' ' :: (argumentsText targets ++ [';']))
  | measurement {q r : Nat} (hq : q < nq) (hr : r < nr) :
      StatementLine nq nr ("measure".toList ++ ' ' :: (elementText 'q' q
        ++ ' ' :: '-' :: '>' :: ' ' :: (elementText 'c' r ++ [';'])))

/-- The declaration of a register, if it has elements. -/
def declarationLines (kind : RegisterKind) (r : Char) (size : Nat) : List (List Char) :=
  if size = 0 then [] else [kind.keyword.toList ++ ' ' :: (elementText r size ++ [';'])]

/-- The lines of a text with `n` statements. -/
inductive Layout (n : Nat) : List (List Char) → Prop
  | intro {header : List Char} {nq nr : Nat} {body : List (List Char)}
      (hheader : headerStart.toList <+: header)
      (hbody : ∀ l ∈ body, isCommentLine l = true ∨ StatementLine nq nr l)
      (hcount : body.countP (fun l => !isCommentLine l) = n) :
      Layout n (header :: version.toList :: "include \"qelib1.inc\";".toList :: []
        :: (declarationLines .quantum 'q' nq ++ (declarationLines .classical 'c' nr ++ body)))

/-! ### Operations as lines -/

/-- A gate of the operation is one of the table, or the reset. -/
def InTable : Operation → Prop
  | .gate name _ => name = "reset" ∨ ∃ kind, name = symbol kind
  | _ => True

theorem preserved_inTable :
    Emission.Preserved (fun g => g = dialect.reset ∨ ∃ kind, g = dialect.gate kind)
      fun e => ∀ o ∈ e.operations.toList, InTable o := by
  refine Emission.preserved_forall ?_ (fun _ _ => trivial) (fun _ _ => trivial)
  rintro g targets (rfl | ⟨kind, rfl⟩) -
  · exact .inl rfl
  · exact .inr ⟨kind, rfl⟩

theorem isCommentLine_append {a : Char} (ha : a ≠ '/') (w rest : List Char) :
    isCommentLine (a :: w ++ rest) = false := by
  have hslashes : "// ".toList = '/' :: ['/', ' '] := rfl
  rw [isCommentLine, hslashes, List.cons_append, List.isPrefixOf_cons_cons, beq_false_of_ne ha.symm,
    Bool.false_and]

/-- Exactly the lines of remarks are comments. -/
theorem isCommentLine_line {o : Operation} (ho : Writable o) :
    isCommentLine (line o).toList = o.isRemark := by
  cases o with
  | gate name targets =>
      rcases exists_of_isGateName ho.1 with ⟨a, w, hchars, ha, -⟩
      -- The name is an identifier, and none begins with a slash.
      have hslash : a ≠ '/' := by
        rintro rfl
        exact absurd ha (by decide)
      rw [toList_line_gate, hchars]
      exact isCommentLine_append hslash w _
  | measurement q r =>
      rw [toList_line_measurement]
      exact isCommentLine_append (by decide) _ _
  | remark text =>
      rw [toList_line_remark]
      rfl

theorem statementLine_line {nq nr : Nat} {o : Operation} (hrange : o.InRange nq nr)
    (htable : InTable o) (ho : Writable o) (hremark : o.isRemark = false) :
    StatementLine nq nr (line o).toList := by
  cases o with
  | gate name targets =>
      rw [toList_line_gate]
      exact .gate htable ho.2 hrange
  | measurement q r =>
      rw [toList_line_measurement]
      exact .measurement hrange.1 hrange.2
  | remark text => cases hremark

/-- The lines of the body of a text. -/
def bodyLines (e : Emission) : List (List Char) :=
  e.operations.toList.map fun o => (line o).toList

theorem bodyLines_layout {e : Emission} (hsound : e.Sound)
    (htable : ∀ o ∈ e.operations.toList, InTable o)
    (hwritable : ∀ o ∈ e.operations.toList, Writable o) :
    ∀ l ∈ bodyLines e, isCommentLine l = true ∨ StatementLine e.qubits.size e.results.size l := by
  intro l hl
  rcases List.mem_map.1 hl with ⟨o, ho, rfl⟩
  cases hremark : o.isRemark with
  | true => exact .inl ((isCommentLine_line (hwritable o ho)).trans hremark)
  | false =>
      exact .inr (statementLine_line (hsound.operations o ho) (htable o ho) (hwritable o ho)
        hremark)

theorem countP_bodyLines {e : Emission} (hwritable : ∀ o ∈ e.operations.toList, Writable o) :
    (bodyLines e).countP (fun l => !isCommentLine l)
      = e.operations.toList.countP (fun o => !o.isRemark) := by
  rw [bodyLines, List.countP_map]
  refine List.countP_congr fun o ho => ?_
  simp only [Function.comp_apply, isCommentLine_line (hwritable o ho)]

/-! ### Texts as lines -/

theorem map_toList_declaration_eq (kind : RegisterKind) (r : Char) (size : Nat) :
    (declaration kind.keyword (String.ofList [r]) size).map String.toList
      = declarationLines kind r size := by
  by_cases h : size = 0
  · rw [declaration, if_pos h, declarationLines, if_pos h, List.map_nil]
  · rw [map_toList_declaration kind r h, declarationLines, if_neg h]

/-- The lines of a text after its header. -/
def laterLines (e : Emission) : List (List Char) :=
  version.toList :: "include \"qelib1.inc\";".toList :: []
    :: (declarationLines .quantum 'q' e.qubits.size
      ++ (declarationLines .classical 'c' e.results.size ++ bodyLines e))

theorem textLines_eq (blockName : String) (e : Emission) :
    textLines blockName e = headerLine blockName :: laterLines e := by
  have hq := map_toList_declaration_eq .quantum 'q' e.qubits.size
  have hr := map_toList_declaration_eq .classical 'c' e.results.size
  have hheader : ("// Generated from QIR block " ++ blockName ++ ".").toList
      = headerLine blockName := by
    rw [String.toList_append, String.toList_append, List.append_assoc]
    rfl
  rw [textLines, laterLines, bodyLines, ← hq, ← hr, preamble, List.map_cons, hheader]
  rfl

/-- The header is cut like any other text, and the lines after it are whole. -/
theorem splitOn_text {blockName : String} {e : Emission}
    (hwritable : ∀ o ∈ e.operations.toList, Writable o) :
    (text blockName e).toList.splitOn '\n'
      = (headerLine blockName).splitOn '\n' ++ laterLines e := by
  -- Nothing after the header depends on the name, so any name without a line feed
  -- shows that the lines after the header have none.
  have hlater : ∀ l ∈ laterLines e, '\n' ∉ l := by
    have hempty : '\n' ∉ "".toList := by decide
    have hall := notMem_textLines hempty hwritable
    rw [textLines_eq] at hall
    exact fun l hl => hall l (List.mem_cons_of_mem _ hl)
  have hne : laterLines e ≠ [] := List.cons_ne_nil _ _
  have hjoin : (text blockName e).toList
      = headerLine blockName ++ '\n' :: ['\n'].intercalate (laterLines e) := by
    rw [toList_text, textLines_eq, List.intercalate_cons_of_ne_nil hne]
    simp
  rw [hjoin, List.splitOn_append_cons_self, List.splitOn_intercalate '\n' hlater hne]

/-- No statement begins like the version does. -/
theorem StatementLine.head?_ne {nq nr : Nat} {l : List Char} (h : StatementLine nq nr l) :
    l.head? ≠ some 'O' := by
  cases h with
  | measurement _ _ => exact fun h => absurd h (by simp)
  | @gate name targets hname _ _ =>
      have hsymbol : name.toList ≠ [] ∧ name.toList.head? ≠ some 'O' := by
        rcases hname with rfl | ⟨kind, rfl⟩
        · decide
        · cases kind <;> decide
      rw [List.head?_append_of_ne_nil _ hsymbol.1]
      exact hsymbol.2

theorem head?_ne_of_mem_declarationLines {kind : RegisterKind} {r : Char} {size : Nat}
    {l : List Char} (h : l ∈ declarationLines kind r size) : l.head? ≠ some 'O' := by
  rw [declarationLines] at h
  split at h
  · cases h
  · rw [List.mem_singleton.1 h]
    cases kind <;> simp [RegisterKind.keyword]

/-- In a layout the version stands in the second line and in no later one. -/
theorem not_layout_of_version {n : Nat} {first second : List Char} {more : List (List Char)}
    (h : version.toList ∈ more) : ¬ Layout n (first :: second :: more) := by
  have hhead : version.toList.head? = some 'O' := rfl
  rintro (⟨-, hbody, -⟩)
  rw [List.mem_cons, List.mem_cons, List.mem_append, List.mem_append] at h
  rcases h with h | h | h | h | h
  · exact absurd h (by decide)
  · exact absurd h (by decide)
  · exact head?_ne_of_mem_declarationLines h hhead
  · exact head?_ne_of_mem_declarationLines h hhead
  · rcases hbody _ h with hcomment | hstatement
    · exact absurd hcomment (by decide)
    · exact hstatement.head?_ne hhead

/-- A line feed in the name of the block breaks the header, which leaves the version
    in a place where it may not stand. -/
theorem not_layout_of_mem {blockName : String} (hname : '\n' ∈ blockName.toList) {n : Nat}
    {e : Emission} : ¬ Layout n ((headerLine blockName).splitOn '\n' ++ laterLines e) := by
  rcases List.append_of_mem hname with ⟨before, after, hsplit⟩
  have hheader : headerLine blockName
      = (headerStart.toList ++ before) ++ '\n' :: (after ++ ['.']) := by
    rw [headerLine, hsplit, List.append_assoc before, List.cons_append, List.append_assoc]
  rw [hheader, List.splitOn_append_cons_self]
  -- The header is at least two lines, and the version comes after them.
  rcases List.exists_cons_of_ne_nil (List.splitOn_ne_nil '\n' (headerStart.toList ++ before))
    with ⟨first, others, hfirst⟩
  have hothers : others ++ (after ++ ['.']).splitOn '\n' ≠ [] :=
    List.append_ne_nil_of_right_ne_nil _ (List.splitOn_ne_nil _ _)
  rcases List.exists_cons_of_ne_nil hothers with ⟨second, more, hsecond⟩
  rw [hfirst, List.cons_append, hsecond]
  have hversion : version.toList ∈ laterLines e := List.mem_cons_self
  exact not_layout_of_version (List.mem_append_right _ hversion)

/-- **Only its name can add lines to the text of a block.** Cut at its line feeds, the
    text is its header, cut in the same way, and lines that make a layout with any
    header. The statements among them are as many as the instructions stand for,
    whatever the strings of the block are. The whole text is a layout exactly if there
    is no line feed in the name. -/
theorem text_layout {b : Block} {e : Emission} (h : Emission.ofBlock dialect b = .ok e) :
    ∃ later, (text b.name e).toList.splitOn '\n' = (headerLine b.name).splitOn '\n' ++ later
      ∧ (∀ header, headerStart.toList <+: header →
        Layout b.applications (header :: later))
      ∧ ('\n' ∉ b.name.toList →
        Layout b.applications ((text b.name e).toList.splitOn '\n'))
      ∧ ('\n' ∈ b.name.toList → ∀ n, ¬ Layout n ((text b.name e).toList.splitOn '\n')) := by
  have hcounted := Emission.counted_of_ofBlock h
  have hsound : e.Sound :=
    Emission.preserved_sound.ofBlock (fun _ => trivial) trivial Emission.sound_empty h
  have hwritable : ∀ o ∈ e.operations.toList, Writable o :=
    preserved_writable.ofBlock gateReadable_dialect gateReadable_reset (by simp) h
  have htable : ∀ o ∈ e.operations.toList, InTable o :=
    preserved_inTable.ofBlock (fun kind => .inr ⟨kind, rfl⟩) (.inl rfl) (by simp) h
  have hcount : (bodyLines e).countP (fun l => !isCommentLine l) = b.applications := by
    -- The statements are counted where the operations are known in closed form.
    rcases Emission.ofBlock_of_counted dialect b hcounted with ⟨e', he', hfollows⟩
    rw [h, Except.ok.injEq] at he'
    rw [countP_bodyLines hwritable, he', hfollows.operations,
      Block.countP_rendering dialect hcounted]
  have hlayout : ∀ header, headerStart.toList <+: header →
      Layout b.applications (header :: laterLines e) :=
    fun header hheader => .intro hheader (bodyLines_layout hsound htable hwritable) hcount
  refine ⟨laterLines e, splitOn_text hwritable, hlayout, fun hname => ?_, fun hname n => ?_⟩
  · have hheader : '\n' ∉ headerLine b.name := by
      rw [headerLine, List.mem_append, List.mem_append, not_or, not_or]
      exact ⟨by decide, hname, by decide⟩
    rw [splitOn_text hwritable, List.splitOn_eq_singleton hheader]
    exact hlayout _ (List.prefix_append _ _)
  · rw [splitOn_text hwritable]
    exact not_layout_of_mem hname

/-- A block with line feeds and statements in all kinds of strings but its name. -/
def hostileBlock : Block where
  name := "entry"
  instructions :=
    #[{ opcode := "__quantum__qis__mresetz__body", operands := [.raw "\nx q[0];", .named "\n"] },
      { opcode := "foo\nqreg q[9];", operands := [.named "v\nx q[7];", .raw "r\r\n//", .qubit none]
        output := some "a\nmeasure q[0] -> c[0];" },
      { opcode := "__quantum__rt__read_result", operands := [.result (some 2)]
        output := some "\nOPENQASM 2.0;" },
      { opcode := "__quantum__qis__swap__body", operands := [.qubit (some 5), .pointer (some 6)] }]

theorem text_layout_hostileBlock :
    ∃ e, Emission.ofBlock dialect hostileBlock = .ok e
      ∧ Layout 3 ((text hostileBlock.name e).toList.splitOn '\n') := by
  rcases Emission.ofBlock_of_counted dialect hostileBlock (by decide) with ⟨e, he, -⟩
  rcases text_layout he with ⟨-, -, -, hlayout, -⟩
  exact ⟨e, he, hlayout (by decide)⟩

/-- A block without instructions whose name holds a statement. -/
def brokenHeader : Block where
  name := "entry\nx q[0];\n//"

/-- The statement is a line of the text, and the version is the fourth. -/
theorem not_layout_brokenHeader :
    ∃ e, Emission.ofBlock dialect brokenHeader = .ok e
      ∧ (text brokenHeader.name e).toList.splitOn '\n'
        = ["// Generated from QIR block entry", "x q[0];", "//.", "OPENQASM 2.0;",
          "include \"qelib1.inc\";", ""].map String.toList
      ∧ ∀ n, ¬ Layout n ((text brokenHeader.name e).toList.splitOn '\n') := by
  have hlines : (text brokenHeader.name {}).toList.splitOn '\n'
      = ["// Generated from QIR block entry", "x q[0];", "//.", "OPENQASM 2.0;",
        "include \"qelib1.inc\";", ""].map String.toList := by
    decide +kernel
  refine ⟨{}, rfl, hlines, fun n => ?_⟩
  rw [hlines]
  exact not_layout_of_version (by decide)

end OpenQasm

end QuantumIR
