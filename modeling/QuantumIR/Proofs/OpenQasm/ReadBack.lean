import QuantumIR.Proofs.Emission.Session
import QuantumIR.Proofs.OpenQasm.WrittenLine
import QuantumIR.Proofs.Text.LineByLine

/-!
# Reading Back What Was Written

The text of an emission is read back as the circuit of its operations. The writer
and the reader share nothing but the text, so the proof follows it from the top: a
comment that is dropped because no version has been met, the version, the
declarations, and then one line for each operation.

Registers are declared only if they have elements, so a reader may arrive at the
body without knowing one of them. `State.Ready` says what the body can rely on: a
register is known if there is an element of it, and no operation refers to any
other. The numbers are those of the emission, which is sound, and their digits are
read as these numbers if they fit into 64 bits.

Not every operation can be written. `Writable` holds of those that can, and it
holds of all that an emission records if the gates it is asked for have names that
do not open another statement. Remarks are the other danger, since they hold
arbitrary text. They are single lines that begin with slashes, so whatever they
say, they are read as remarks; only blanks at their end are lost.

## Main definitions

* `GateReadable`: A gate whose line is read back as this gate.
* `Writable`: An operation that can be written as a line.
* `readBack`: What is read back from the line of an operation.
* `State.Ready`: The state of a reader between the declarations and the body.

## Theorems

* `preserved_writable`: Every recorded operation can be written.
* `step_line`, `run_body`: Lines of operations add these operations.
* `run_eq_runLines`, `tolerates_step`: The reader goes line by line.
* `run_lines_intercalate`: Lines that are joined are read one after the other.
* `run_preamble`, `run_declaration`: What the lines before the body leave.
* `circuit_text`: The text of an emission is read as the circuit of its operations.
* `circuit_text_session`: So is the text of every session, in closed form.
-/

namespace QuantumIR

open Text

namespace OpenQasm

/-- Whether a gate of this name is read back as a gate: an identifier that does not
    open another statement. -/
def isGateName (name : String) : Bool :=
  match name.toList with
  | a :: w =>
    isIdentifierStart a && w.all isWordChar && !(["include", "qreg", "creg"].contains name)
  | [] => false

/-- The gate has a name that can be read back and acts on something. -/
def GateReadable (g : Gate) : Prop :=
  isGateName g.symbol = true ∧ 0 < g.arity

instance (g : Gate) : Decidable (GateReadable g) :=
  inferInstanceAs (Decidable (_ ∧ _))

/-- The line of the operation can be read back. -/
def Writable : Operation → Prop
  | .gate name targets => isGateName name = true ∧ targets ≠ []
  | .measurement _ _ => True
  | .remark text => '\n' ∉ text.toList

/-- What is read back from the line of an operation. The blanks at the end of a
    remark are lost. -/
def readBack : Operation → Operation
  | .remark text => .remark (String.ofList (trimEnd text.toList))
  | o => o

theorem gateReadable_dialect (k : GateKind) : GateReadable (dialect.gate k) := by
  cases k <;> decide

theorem gateReadable_reset : GateReadable dialect.reset := by
  decide

/-- Whatever is asked of an emission, its operations can be written, if this holds
    of the gates that are asked for. -/
theorem preserved_writable :
    Emission.Preserved GateReadable fun e => ∀ o ∈ e.operations.toList, Writable o := by
  refine Emission.preserved_forall ?_ (fun _ _ => trivial) (fun _ h => h)
  intro g targets hg hcount
  refine ⟨hg.1, fun hnil => ?_⟩
  rw [hnil, List.length_nil] at hcount
  exact absurd hg.2 (by omega)

theorem exists_of_isGateName {name : String} (h : isGateName name = true) :
    ∃ a w, name.toList = a :: w ∧ isIdentifierStart a = true ∧ (∀ c ∈ w, isWordChar c = true)
      ∧ ∀ kw ∈ ["include", "qreg", "creg"], a :: w ≠ kw.toList := by
  rcases hchars : name.toList with _ | ⟨a, w⟩
  · rw [isGateName, hchars] at h
    cases h
  · simp only [isGateName, hchars, Bool.and_eq_true, List.all_eq_true, Bool.not_eq_true'] at h
    rcases h with ⟨⟨ha, hw⟩, hother⟩
    refine ⟨a, w, rfl, ha, hw, fun kw hkw heq => ?_⟩
    rw [← hchars, String.toList_inj] at heq
    rw [heq, ← Bool.not_eq_true, List.contains_iff_mem] at hother
    exact hother hkw

/-! ### Lines -/

theorem toList_line_gate (name : String) (targets : List Nat) :
    (line (.gate name targets)).toList
      = name.toList ++ ' ' :: (argumentsText targets ++ [';']) := by
  have hqubits : (targets.map qubit).map String.toList = targets.map (elementText 'q') := by
    rw [List.map_map]
    exact List.map_congr_left fun t _ => toList_qubit t
  simp only [line, String.toList_append, String.toList_intercalate, hqubits,
    argumentsText]
  simp

theorem toList_line_measurement (q r : Nat) :
    (line (.measurement q r)).toList = "measure".toList ++ ' ' :: (elementText 'q' q
      ++ ' ' :: '-' :: '>' :: ' ' :: (elementText 'c' r ++ [';'])) := by
  simp [line, String.toList_append, toList_qubit, toList_result]

theorem toList_line_remark (text : String) :
    (line (.remark text)).toList = '/' :: '/' :: ' ' :: text.toList := by
  simp [line, String.toList_append]

theorem comment?_of_ne {c : Char} (hc : c ≠ '/') (s : List Char) : comment? (c :: s) = none := by
  rw [comment?, literal?_cons_of_ne rfl hc, Option.map_none]

/-- A statement that is recognised is what its line says, once the version is
    known. -/
theorem State.read_statement {s : State} (hs : s.versioned = true) {c : Char} {t : List Char}
    (hblank : isBlank c = false) (hslash : c ≠ '/') {statement : Statement}
    (hparse : Statement.parse? (c :: (t ++ [';'])) = some statement) :
    s.read (trim (c :: (t ++ [';']))) = s.interpret statement := by
  rw [trim_cons_concat hblank (by decide), State.read, if_neg (by simp), comment?_of_ne hslash]
  simp only [hs, hparse, if_true]

/-- A comment is read without the blanks at its end. If nothing else is left, also
    the space after the slashes is one of them. -/
theorem comment?_trim (text : List Char) :
    comment? (trim ('/' :: '/' :: ' ' :: text)) = some (trimEnd text) := by
  have hslashes : trim ('/' :: '/' :: ' ' :: text) = '/' :: '/' :: trimEnd (' ' :: text) := by
    rw [trim_cons (by decide)]
    exact congrArg _ (trimEnd_append_cons (c := '/') (by decide) [] (' ' :: text))
  have hspace : (char? ' ' (trimEnd (' ' :: text))).getD (trimEnd (' ' :: text))
      = trimEnd text := by
    rw [trimEnd_cons]
    -- The space belongs to the comment only if something else does.
    by_cases hempty : trimEnd text = []
    · rw [hempty]
      rfl
    · rw [if_neg (by simp [hempty]), char?_cons, Option.getD_some]
  rw [hslashes, comment?, show literal? "//" ('/' :: '/' :: trimEnd (' ' :: text))
    = some (trimEnd (' ' :: text)) from literal?_append "//" _, Option.map_some, hspace]

/-- A comment is a remark once the version is known, and is dropped before. -/
theorem State.read_comment (s : State) (text : List Char) :
    s.read (trim ('/' :: '/' :: ' ' :: text))
      = .ok (s, if s.versioned then some (.remark (String.ofList (trimEnd text))) else none) := by
  have hcomment := comment?_trim text
  have hempty : trim ('/' :: '/' :: ' ' :: text) ≠ [] :=
    ne_of_apply_ne comment? (by rw [hcomment]; exact nofun)
  rw [State.read, if_neg (by simpa using hempty), hcomment]

/-! ### The body -/

/-- The state of a reader that has met the version and the declarations of
    registers with the given sizes. -/
structure State.Ready (nq nr : Nat) (s : State) : Prop where
  versioned : s.versioned = true
  numQubits : s.circuit.numQubits = nq
  numResults : s.circuit.numResults = nr
  quantum : 0 < nq → s.quantum = some "q"
  classical : 0 < nr → s.classical = some "c"

section Body

variable {nq nr : Nat} {s : State}

theorem State.Ready.push (h : s.Ready nq nr) (o : Operation) :
    State.Ready nq nr { s with circuit := s.circuit.push o } :=
  ⟨h.versioned, h.numQubits, h.numResults, h.quantum, h.classical⟩

theorem State.Ready.read_gate (h : s.Ready nq nr) (hnq : nq < Decimal.limit64) {name : String}
    {targets : List Nat} (hname : isGateName name = true) (hne : targets ≠ [])
    (hrange : ∀ t ∈ targets, t < nq) :
    s.read (trim (line (.gate name targets)).toList) = .ok (s, some (.gate name targets)) := by
  rcases exists_of_isGateName hname with ⟨a, w, hchars, ha, hw, hkeyword⟩
  have hparse := Statement.parse?_gate ha hw (hkeyword _ (by simp)) (hkeyword _ (by simp))
    (hkeyword _ (by simp)) hne
  have hblank : isBlank a = false :=
    isBlank_of_isNameChar (isNameChar_of_isWordChar (isWordChar_of_isIdentifierStart ha))
  have hslash : a ≠ '/' := by
    rintro rfl
    exact absurd ha (by decide)
  have htext : a :: w ++ ' ' :: (argumentsText targets ++ [';'])
      = a :: (w ++ ' ' :: argumentsText targets ++ [';']) := by simp
  rw [toList_line_gate, hchars]
  rw [htext] at hparse ⊢
  rw [State.read_statement h.versioned hblank hslash hparse, ← hchars, String.ofList_toList]
  -- There is a target, so there is a qubit and its register is declared.
  rcases List.exists_mem_of_ne_nil targets hne with ⟨t, ht⟩
  have hdeclared := h.quantum (Nat.lt_of_le_of_lt (Nat.zero_le _) (hrange t ht))
  have hargs := arguments_elementText fun u hu => Nat.lt_trans (hrange u hu) hnq
  simp only [State.interpret, hdeclared, hargs]
  rfl

theorem State.Ready.read_measurement (h : s.Ready nq nr) (hnq : nq < Decimal.limit64)
    (hnr : nr < Decimal.limit64) {q r : Nat} (hq : q < nq) (hr : r < nr) :
    s.read (trim (line (.measurement q r)).toList) = .ok (s, some (.measurement q r)) := by
  have hparse := Statement.parse?_measurement q r
  have htext : "measure".toList ++ ' ' :: (elementText 'q' q
        ++ ' ' :: '-' :: '>' :: ' ' :: (elementText 'c' r ++ [';']))
      = 'm' :: ("easure".toList ++ ' ' :: (elementText 'q' q
        ++ ' ' :: '-' :: '>' :: ' ' :: elementText 'c' r) ++ [';']) := by simp
  rw [toList_line_measurement]
  rw [htext] at hparse ⊢
  rw [State.read_statement h.versioned (by decide) (by decide) hparse]
  -- Both registers have an element, so both are declared.
  have hquantum := h.quantum (Nat.lt_of_le_of_lt (Nat.zero_le _) hq)
  have hclassical := h.classical (Nat.lt_of_le_of_lt (Nat.zero_le _) hr)
  simp only [State.interpret, resolve, hquantum, hclassical, index_toDigits (Nat.lt_trans hq hnq),
    index_toDigits (Nat.lt_trans hr hnr)]
  rfl

/-- The line of an operation says this operation. -/
theorem State.Ready.read_line (h : s.Ready nq nr) (hnq : nq < Decimal.limit64)
    (hnr : nr < Decimal.limit64) {o : Operation} (ho : Writable o) (hrange : o.InRange nq nr) :
    s.read (trim (line o).toList) = .ok (s, some (readBack o)) := by
  cases o with
  | gate name targets => exact h.read_gate hnq ho.1 ho.2 hrange
  | measurement q r => exact h.read_measurement hnq hnr hrange.1 hrange.2
  | remark text =>
      rw [toList_line_remark, State.read_comment, if_pos h.versioned]
      rfl

/-- The line of an operation adds this operation to the circuit. -/
theorem step_line (h : s.Ready nq nr) (hnq : nq < Decimal.limit64) (hnr : nr < Decimal.limit64)
    {o : Operation} (ho : Writable o) (hrange : o.InRange nq nr) (n : Nat) :
    step n (line o).toList s = .ok { s with circuit := s.circuit.push (readBack o) } := by
  have hadd : (s.circuit.add (readBack o)).result = .ok (s.circuit.push (readBack o)) := by
    -- Reading back changes texts only, so what was in range still is.
    refine Circuit.result_add_eq_ok_iff.2 ⟨?_, rfl⟩
    rw [h.numQubits, h.numResults]
    cases o with
    | gate name targets => exact hrange
    | measurement q r => exact hrange
    | remark text => trivial
  rw [step, h.read_line hnq hnr ho hrange]
  simp only [hadd]

/-- The lines of operations add these operations in their order. -/
theorem run_body (h : s.Ready nq nr) (hnq : nq < Decimal.limit64) (hnr : nr < Decimal.limit64)
    {os : List Operation} (hos : ∀ o ∈ os, Writable o) (hrange : ∀ o ∈ os, o.InRange nq nr)
    (n : Nat) :
    run n (os.map fun o => (line o).toList) s
      = .ok { s with circuit := { s.circuit with
          operations := s.circuit.operations ++ (os.map readBack).toArray } } := by
  induction os generalizing s n with
  | nil => simp [run]
  | cons o os ih =>
      have hstep := step_line h hnq hnr (hos o List.mem_cons_self) (hrange o List.mem_cons_self) n
      -- The state stays ready, since an operation declares nothing.
      have hrest := ih (h.push (readBack o)) (fun p hp => hos p (List.mem_cons_of_mem _ hp))
        (fun p hp => hrange p (List.mem_cons_of_mem _ hp)) (n + 1)
      rw [List.map_cons, run, hstep, List.map_cons]
      exact hrest.trans (by rw [Circuit.operations_push_append]; rfl)

end Body

/-! ### The lines before the body -/

theorem run_eq_runLines : run = runLines step := by
  funext n ls s
  induction ls generalizing n s with
  | nil => rfl
  | cons l ls ih =>
      rw [run, runLines]
      cases step n l s with
      | error err => rfl
      | ok s' => exact ih (n + 1) s'

theorem tolerates_step : Tolerates step where
  dropReturn := by
    intro n l s
    rw [step, step, trim_dropReturn]
  empty := fun _ _ => rfl

theorem run_append (ls ms : List (List Char)) (n : Nat) (s : State) :
    run n (ls ++ ms) s = (run n ls s).bind (run (n + ls.length) ms) := by
  rw [run_eq_runLines]
  exact runLines_append n ls ms s

/-- Lines that are joined by line feeds have the effect that they have one after
    the other: what joining them loses makes no difference. -/
theorem run_lines_intercalate {ls : List (List Char)} (h : ∀ l ∈ ls, '\n' ∉ l) (n : Nat)
    (s : State) : run n (lines (['\n'].intercalate ls)) s = run n ls s := by
  rw [run_eq_runLines]
  exact tolerates_step.runLines_lines_intercalate h n s

/-- A declaration of a register that is not there yet is accepted. -/
theorem step_declaration (kind : RegisterKind) {r : Char} (hr : isIdentifierStart r = true)
    {size : Nat} (hsize : size < Decimal.limit64) {s s' : State} (hs : s.versioned = true)
    (hdeclare : s.declare kind (String.ofList [r]) size = .ok s') (n : Nat) :
    step n (kind.keyword.toList ++ ' ' :: (elementText r size ++ [';'])) s = .ok s' := by
  have hparse := Statement.parse?_declaration kind hr size
  have hkeyword : ∃ c w, kind.keyword.toList = c :: w ∧ isBlank c = false ∧ c ≠ '/' := by
    cases kind with
    | quantum => exact ⟨'q', "reg".toList, rfl, by decide, by decide⟩
    | classical => exact ⟨'c', "reg".toList, rfl, by decide, by decide⟩
  rcases hkeyword with ⟨c, w, hchars, hblank, hslash⟩
  have htext : kind.keyword.toList ++ ' ' :: (elementText r size ++ [';'])
      = c :: (w ++ ' ' :: elementText r size ++ [';']) := by simp [hchars]
  have hread : s.read (trim (kind.keyword.toList ++ ' ' :: (elementText r size ++ [';'])))
      = .ok (s', none) := by
    rw [htext] at hparse ⊢
    rw [State.read_statement hs hblank hslash hparse, State.interpret, index_toDigits hsize]
    simp only [bind, Except.bind, hdeclare]
    rfl
  rw [step, hread]

theorem map_toList_declaration (kind : RegisterKind) (r : Char) {size : Nat} (h : size ≠ 0) :
    (declaration kind.keyword (String.ofList [r]) size).map String.toList
      = [kind.keyword.toList ++ ' ' :: (elementText r size ++ [';'])] := by
  rw [declaration, if_neg h]
  simp [String.toList_append, elementText, Nat.toList_repr]

/-- The state before the first operation, when registers of the given sizes have
    been declared. -/
def opened (nq nr : Nat) : State where
  circuit := { numQubits := nq, numResults := nr }
  versioned := true
  quantum := if nq = 0 then none else some "q"
  classical := if nr = 0 then none else some "c"

theorem ready_opened (nq nr : Nat) : (opened nq nr).Ready nq nr where
  versioned := rfl
  numQubits := rfl
  numResults := rfl
  quantum := fun h => if_neg (Nat.ne_of_gt h)
  classical := fun h => if_neg (Nat.ne_of_gt h)

/-- The lines that declare a register, none if it has no elements. -/
theorem run_declaration (kind : RegisterKind) {r : Char} (hr : isIdentifierStart r = true)
    {size : Nat} (hsize : size < Decimal.limit64) {s s' : State} (hs : s.versioned = true)
    (hzero : size = 0 → s = s')
    (hdeclare : size ≠ 0 → s.declare kind (String.ofList [r]) size = .ok s') (n : Nat) :
    run n ((declaration kind.keyword (String.ofList [r]) size).map String.toList) s = .ok s' := by
  by_cases h : size = 0
  · rw [declaration, if_pos h, ← hzero h]
    rfl
  · rw [map_toList_declaration kind r h, run, step_declaration kind hr hsize hs (hdeclare h)]
    rfl

theorem run_quantum {nq : Nat} (h : nq < Decimal.limit64) (n : Nat) :
    run n ((declaration "qreg" "q" nq).map String.toList) (opened 0 0) = .ok (opened nq 0) := by
  refine run_declaration .quantum (r := 'q') (by decide) h rfl ?_ ?_ n
  · rintro rfl
    rfl
  · intro hne
    simp [opened, State.declare, hne]

theorem run_classical (nq : Nat) {nr : Nat} (h : nr < Decimal.limit64) (n : Nat) :
    run n ((declaration "creg" "c" nr).map String.toList) (opened nq 0) = .ok (opened nq nr) := by
  refine run_declaration .classical (r := 'c') (by decide) h rfl ?_ ?_ n
  · rintro rfl
    rfl
  · intro hne
    simp [opened, State.declare, hne]

/-- The preamble leaves nothing behind but the version. Its comment stands before
    the version and is dropped. -/
theorem run_preamble (blockName : String) (n : Nat) :
    run n ((preamble blockName).map String.toList) {} = .ok (opened 0 0) := by
  have hcomment : step n ("// Generated from QIR block " ++ blockName ++ ".").toList {}
      = .ok {} := by
    have htext : ("// Generated from QIR block " ++ blockName ++ ".").toList
        = '/' :: '/' :: ' '
          :: ("Generated from QIR block ".toList ++ blockName.toList ++ ['.']) := by
      simp [String.toList_append]
    rw [htext, step, State.read_comment]
    rfl
  -- The lines after the comment are fixed texts, and reading them is evaluation.
  have hversion : ∀ m, step m version.toList {} = .ok (opened 0 0) := fun _ => rfl
  have hinclude : ∀ m, step m "include \"qelib1.inc\";".toList (opened 0 0) = .ok (opened 0 0) :=
    fun _ => rfl
  have hempty : ∀ m, step m "".toList (opened 0 0) = .ok (opened 0 0) := fun _ => rfl
  simp only [preamble, List.map_cons, List.map_nil, run, hcomment, hversion, hinclude, hempty]

/-! ### The whole text -/

theorem notMem_line {o : Operation} (ho : Writable o) : '\n' ∉ (line o).toList := by
  have hq : ∀ i, '\n' ∉ elementText 'q' i :=
    fun i => notMem_elementText i (by decide) (by decide) (by decide) (by decide)
  have hc : ∀ i, '\n' ∉ elementText 'c' i :=
    fun i => notMem_elementText i (by decide) (by decide) (by decide) (by decide)
  cases o with
  | gate name targets =>
      have hname : '\n' ∉ name.toList := by
        rcases exists_of_isGateName ho.1 with ⟨a, w, hchars, ha, hw, -⟩
        rw [hchars]
        intro hmem
        rcases List.mem_cons.1 hmem with rfl | hmem
        · exact absurd ha (by decide)
        · exact absurd (hw _ hmem) (by decide)
      have hargs : '\n' ∉ argumentsText targets :=
        notMem_argumentsText targets (by decide) (by decide) (by decide)
      rw [toList_line_gate]
      simp [hname, hargs]
  | measurement q r =>
      rw [toList_line_measurement]
      simp [hq, hc]
  | remark text =>
      have htext : '\n' ∉ text.toList := ho
      rw [toList_line_remark]
      simp [htext]

theorem notMem_declaration (kind : RegisterKind) {r : Char} (hr : isIdentifierStart r = true)
    (size : Nat) :
    ∀ l ∈ (declaration kind.keyword (String.ofList [r]) size).map String.toList, '\n' ∉ l := by
  intro l hl
  by_cases hzero : size = 0
  · rw [declaration, if_pos hzero] at hl
    cases hl
  · rw [map_toList_declaration kind r hzero, List.mem_singleton] at hl
    have hr' : '\n' ≠ r := by
      rintro rfl
      exact absurd hr (by decide)
    have hkeyword : '\n' ∉ kind.keyword.toList := by cases kind <;> decide
    have helement := notMem_elementText size hr' (by decide) (by decide) (by decide)
    rw [hl]
    simp [hkeyword, helement]

theorem notMem_preamble {blockName : String} (hname : '\n' ∉ blockName.toList) :
    ∀ l ∈ (preamble blockName).map String.toList, '\n' ∉ l := by
  intro l hl
  simp only [preamble, List.map_cons, List.map_nil, List.mem_cons, List.not_mem_nil, or_false] at hl
  rcases hl with rfl | rfl | rfl | rfl
  · simp [String.toList_append, hname]
  · decide
  · decide
  · exact List.not_mem_nil

/-- The lines of the text of an emission. -/
def textLines (blockName : String) (e : Emission) : List (List Char) :=
  (preamble blockName).map String.toList
    ++ ((declaration "qreg" "q" e.qubits.size).map String.toList
      ++ ((declaration "creg" "c" e.results.size).map String.toList
        ++ e.operations.toList.map fun o => (line o).toList))

section Text

variable {blockName : String} {e : Emission}

theorem toList_text : (text blockName e).toList = ['\n'].intercalate (textLines blockName e) := by
  rw [text, String.toList_intercalate, registers, body]
  simp [textLines, List.map_map, Function.comp_def]

theorem notMem_textLines (hname : '\n' ∉ blockName.toList)
    (hwritable : ∀ o ∈ e.operations.toList, Writable o) :
    ∀ l ∈ textLines blockName e, '\n' ∉ l := by
  intro l hl
  rw [textLines, List.mem_append, List.mem_append, List.mem_append] at hl
  rcases hl with hl | hl | hl | hl
  · exact notMem_preamble hname l hl
  · exact notMem_declaration .quantum (r := 'q') (by decide) _ l hl
  · exact notMem_declaration .classical (r := 'c') (by decide) _ l hl
  · rcases List.mem_map.1 hl with ⟨o, ho, rfl⟩
    exact notMem_line (hwritable o ho)

/-- The lines are read part by part: each part leaves the state in which the next
    one begins. -/
theorem run_textLines (hsound : e.Sound) (hwritable : ∀ o ∈ e.operations.toList, Writable o)
    (hq : e.qubits.size < Decimal.limit64) (hr : e.results.size < Decimal.limit64) (n : Nat) :
    (run n (textLines blockName e) {}).map State.circuit = .ok
      { numQubits := e.qubits.size
        numResults := e.results.size
        operations := (e.operations.toList.map readBack).toArray } := by
  rw [textLines, run_append, run_preamble]
  simp only [Except.bind]
  rw [run_append, run_quantum hq]
  simp only [Except.bind]
  rw [run_append, run_classical _ hr]
  simp only [Except.bind]
  rw [run_body (ready_opened _ _) hq hr hwritable hsound.operations]
  simp [opened, Except.map]

/-- The text of an emission is read back as the circuit of its operations. -/
theorem circuit_text (hname : '\n' ∉ blockName.toList) (hsound : e.Sound)
    (hwritable : ∀ o ∈ e.operations.toList, Writable o) (hq : e.qubits.size < Decimal.limit64)
    (hr : e.results.size < Decimal.limit64) :
    circuit (text blockName e) = .ok
      { numQubits := e.qubits.size
        numResults := e.results.size
        operations := (e.operations.toList.map readBack).toArray } := by
  rw [circuit, toList_text, run_lines_intercalate (notMem_textLines hname hwritable),
    run_textLines hsound hwritable hq hr]

end Text

/-- Reading back undoes writing, over whole sessions. The circuit that is read has
    the wires of the two numberings, and its operations are those of the lines of
    the body, in order and one for one: what the block and each call rendered, with
    the final numbers of the wires in the order of the arguments. Only the blanks at
    the end of a remark are lost. -/
theorem circuit_text_session (b : Block) (cs : List Call) (e : Emission)
    (hname : '\n' ∉ b.name.toList) (he : Emission.ofBlock dialect b = .ok e)
    (hgates : ∀ g os, .gate g os ∈ cs → GateReadable g)
    (hq : (Session.run dialect e cs).qubits.size < Decimal.limit64)
    (hr : (Session.run dialect e cs).results.size < Decimal.limit64) :
    circuit (text b.name (Session.run dialect e cs)) = .ok
        { numQubits := (Session.run dialect e cs).qubits.size
          numResults := (Session.run dialect e cs).results.size
          operations := ((Session.rendering dialect b cs).map readBack).toArray }
      ∧ body (Session.run dialect e cs) = (Session.rendering dialect b cs).map line
      ∧ (Session.run dialect e cs).qubits.Records (Session.qubitMentions b cs)
      ∧ (Session.run dialect e cs).results.Records (Session.resultMentions b cs) := by
  have hfollows := Emission.follows_session he cs
  -- Both properties that reading needs hold of nothing and are kept by every call.
  have hsound : (Session.run dialect e cs).Sound := by
    refine Emission.preserved_sound.session (fun _ => trivial) trivial e cs
      (fun _ _ _ => trivial) ?_
    exact Emission.preserved_sound.ofBlock (fun _ => trivial) trivial Emission.sound_empty he
  have hwritable : ∀ o ∈ (Session.run dialect e cs).operations.toList, Writable o := by
    refine preserved_writable.session gateReadable_dialect gateReadable_reset e cs hgates ?_
    exact preserved_writable.ofBlock gateReadable_dialect gateReadable_reset (by simp) he
  refine ⟨?_, ?_, hfollows.qubits, hfollows.results⟩
  · rw [circuit_text hname hsound hwritable hq hr, hfollows.operations]
  · rw [body, hfollows.operations]

/-- A session in which every kind of call occurs, two of them fail, a gate has the
    name of a statement and a comment the form of one. -/
def mixedCalls : List Call :=
  [.gate ⟨"measure", 1⟩ [.qubit (some 5)],
    .gate ⟨"cx", 2⟩ [.qubit (some 6)],
    .comment " qreg q[1]; \r\r\n\t",
    .showResult (.result (some 2)),
    .measure (.named "v") (.pointer (some 2)),
    .showQubit (.qubit (some 9)),
    .emit [{ opcode := "__quantum__qis__swap__body"
             operands := [.pointer (some 9), .qubit (some 5)] },
      { opcode := "__quantum__qis__reset__body", operands := [] },
      { opcode := "__quantum__qis__x__body", operands := [.qubit (some 5)] }]]

theorem circuit_text_session_mixedCalls :
    ∃ e, Emission.ofBlock dialect { name := "entry\r" } = .ok e
      ∧ (∀ g os, .gate g os ∈ mixedCalls → GateReadable g)
      ∧ circuit (text "entry\r" (Session.run dialect e mixedCalls)) = .ok
        { numQubits := 3
          numResults := 1
          operations := #[.gate "measure" [0], .remark " qreg q[1];", .remark "",
            .measurement 1 0, .gate "swap" [2, 0],
            .remark "Requires nonstandard reset gate:"] } := by
  have he : Emission.ofBlock dialect { name := "entry\r" } = .ok {} := rfl
  have hgates : ∀ g os, .gate g os ∈ mixedCalls → GateReadable g := by
    intro g os hmem
    simp only [mixedCalls, List.mem_cons, Call.gate.injEq, reduceCtorEq, List.not_mem_nil,
      or_false] at hmem
    rcases hmem with ⟨rfl, -⟩ | ⟨rfl, -⟩
    · decide
    · decide
  have hfollows := Emission.follows_session he mixedCalls
  have hq : (Session.run dialect {} mixedCalls).qubits.size = 3 := by
    rw [hfollows.qubits.size_eq]
    decide
  have hr : (Session.run dialect {} mixedCalls).results.size = 1 := by
    rw [hfollows.results.size_eq]
    decide
  have hread := (circuit_text_session { name := "entry\r" } mixedCalls {} (by decide) he hgates
    (by rw [hq]; decide) (by rw [hr]; decide)).1
  refine ⟨{}, he, hgates, ?_⟩
  rw [hread, hq, hr]
  decide

end OpenQasm

end QuantumIR
