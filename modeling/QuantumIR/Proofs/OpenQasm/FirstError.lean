import QuantumIR.Proofs.OpenQasm.Acceptance
import QuantumIR.Proofs.OpenQasm.ReadBack

/-!
# The First Error in a Text of OpenQASM

Where an error comes from, and how much of the text it takes to know.

The first lines of a text that is read can be read by themselves, and the circuit is
then a beginning of the whole one. If a text is refused there is one line that decides
it: the lines before it can be read, and no text that begins with the lines up to it
is accepted.

A malformed line is reported with its number, so the error says which line it is. A
wire out of range is reported without one. The line is still determined by the text,
and the error can be found in it: it is a gate or a measurement, and the wire that is
reported is the first of it that lies beyond the size with which an earlier line
declares its register.

## Main definitions

* `Decides`: A line of a text is the one because of which it is refused.
* `Beyond`: The first element of a line that lies beyond its register.

## Theorems

* `step_eq_error_iff`: Why a line is refused.
* `Leaves.declares_iff`: The registers of a state are those of the lines before it.
* `beyond_of_step`: What a line looks like that has a wire out of range.
* `run_operations_prefix`: Operations are only added.
* `decides_iff`: The first line that is refused decides, and no other.
* `circuit_firstError`: Texts that are read, and what an error says about the others.
-/

namespace QuantumIR

namespace OpenQasm

open Text

/-- The line of the given number decides that the text is refused: the lines before it
    are read by themselves, and every text that begins with the lines up to it is
    refused with the given error. -/
def Decides (text : String) (number : Nat) (err : Error) : Prop :=
  (∃ c, circuit (firstLines (number - 1) text) = .ok c)
    ∧ ∀ other, BeginAlike number text other → circuit other = .error err

/-- The first element of a gate or a measurement that lies beyond the register which the
    earlier lines declare, as it is reported. -/
inductive Beyond (earlier : List (List Char)) (line : List Char) : Circuit.Error → Prop
  | target {name : String} {before after : List (List Char)} {arg : List Char} {e : Element}
      {size : Nat} (hread : Reads line (.gate name (before ++ arg :: after)))
      (hbefore : ∀ a ∈ before, ∃ f, ElementShape f a ∧ RefersTo earlier .quantum f)
      (harg : ElementShape e arg) (hsize : Declares earlier .quantum e.register size)
      (h : size ≤ e.value) : Beyond earlier line (.qubitOutOfRange e.value size)
  | qubit {q r : Element} {size : Nat} (hread : Reads line (.measurement q r))
      (hsize : Declares earlier .quantum q.register size) (h : size ≤ q.value) :
      Beyond earlier line (.qubitOutOfRange q.value size)
  | result {q r : Element} {size : Nat} (hread : Reads line (.measurement q r))
      (hq : RefersTo earlier .quantum q) (hsize : Declares earlier .classical r.register size)
      (h : size ≤ r.value) : Beyond earlier line (.resultOutOfRange r.value size)

/-! ### Lines that are refused -/

/-- A line is refused over what it says, or over the wires of its operation. -/
theorem step_eq_error_iff {n : Nat} {l : List Char} {s : State} {err : Error} :
    step n l s = .error err
      ↔ (∃ fault, s.read (trim l) = .error fault ∧ err = .malformed n fault)
        ∨ ∃ t o e, s.read (trim l) = .ok (t, some o)
          ∧ o.Exceeds t.circuit.numQubits t.circuit.numResults e ∧ err = .outOfRange e := by
  rw [step]
  rcases s.read (trim l) with fault | ⟨t, _ | o⟩
  · simp [eq_comm]
  · simp
  · simp only [reduceCtorEq, false_and, exists_false, false_or, Except.ok.injEq, Prod.mk.injEq,
      Option.some.injEq, ← Circuit.result_add_eq_error_iff]
    cases hadd : (t.circuit.add o).result with
    | ok c =>
        constructor
        · intro h
          cases h
        · rintro ⟨_, _, _, ⟨rfl, rfl⟩, herror, -⟩
          rw [hadd] at herror
          cases herror
    | error e =>
        constructor
        · intro h
          cases h
          exact ⟨t, o, e, ⟨rfl, rfl⟩, hadd, rfl⟩
        · rintro ⟨_, _, _, ⟨rfl, rfl⟩, herror, rfl⟩
          rw [hadd] at herror
          cases herror
          rfl

/-- An operation that is no remark is that of a statement after the version. -/
theorem State.exists_interprets_of_read {s t : State} {line : List Char} {o : Operation}
    (h : s.read line = .ok (t, some o)) (ho : o.isRemark = false) :
    ∃ statement, Reads line statement ∧ s.Interprets statement t (some o) := by
  by_cases haside : IsAside line
  · rcases isAside_iff.1 haside with rfl | ⟨text, htext⟩
    · cases h
    · rw [read_comment_eq htext] at h
      cases hs : s.versioned with
      | true =>
          rw [hs] at h
          cases h
          cases ho
      | false =>
          rw [hs] at h
          cases h
  · rcases (read_of_not_isAside haside).1 h with ⟨-, hstatement⟩ | ⟨-, -, -, hnone⟩
    · exact hstatement
    · cases hnone

section Registers

variable {earlier before ls : List (List Char)} {l : List Char} {s : State} {n : Nat}

/-- What precedes the version declares nothing, and neither does the version. -/
theorem declares_append_version (h : ∀ l ∈ before, IsAside l) {kind : RegisterKind}
    {name : String} {size : Nat} :
    Declares (before ++ version.toList :: ls) kind name size ↔ Declares ls kind name size := by
  have hversion : Reads version.toList (.gate "OPENQASM" ["2.0".toList]) :=
    Statement.parse?_eq_some_iff.1 (by decide)
  constructor
  · rintro ⟨l, hl, e, hread, he⟩
    rw [List.mem_append, List.mem_cons] at hl
    rcases hl with hl | rfl | hl
    · exact absurd (h l hl) hread.not_isAside
    · cases hversion.unique hread
    · exact ⟨l, hl, e, hread, he⟩
  · rintro ⟨l, hl, e⟩
    exact ⟨l, List.mem_append_right before (List.mem_cons_of_mem _ hl), e⟩

/-- The registers of a state are those that the lines before it declare. -/
theorem Leaves.declares_iff (h : Leaves ls s) (kind : RegisterKind) (name : String) (size : Nat) :
    Declares ls kind name size ↔ s.register kind = some name ∧ s.size kind = size := by
  cases h with
  | asides h =>
      constructor
      · rintro ⟨l, hl, e, hread, -⟩
        exact absurd (h l hl) hread.not_isAside
      · rintro ⟨hregister, -⟩
        cases kind <;> cases hregister
  | versioned h _ htracks =>
      rw [declares_append_version h]
      exact htracks.registers kind name size

variable (hdeclares : ∀ kind name size,
  Declares earlier kind name size ↔ s.register kind = some name ∧ s.size kind = size)

include hdeclares

/-- A line whose operation has a wire out of range is a gate or a measurement, and the
    wire is that of an element of it. -/
theorem beyond_of_step {e : Circuit.Error} (h : step n l s = .error (.outOfRange e)) :
    Beyond earlier (trim l) e := by
  rcases step_eq_error_iff.1 h with ⟨fault, -, herror⟩ | ⟨t, o, e', hread, hexceeds, herror⟩
  · cases herror
  cases herror
  have hremark : o.isRemark = false := by cases hexceeds <;> rfl
  rcases State.exists_interprets_of_read hread hremark with ⟨statement, hstatement, heffect⟩
  cases heffect with
  | measurement hq hr =>
      cases hexceeds with
      | qubit _ hle => exact .qubit hstatement (declares_of_knows hdeclares hq) hle
      | result hlt hle =>
          exact .result hstatement ⟨_, declares_of_knows hdeclares hq, hlt⟩
            (declares_of_knows hdeclares hr) hle
  | @gate name args targets hargs =>
      -- The arguments are divided where the targets are.
      cases hexceeds with
      | @target _ before after t hbefore hle =>
          have hsplit := List.take_append_drop before.length args
          have hfirst := List.forall₂_take_append args before (t :: after) hargs
          have hlast := List.forall₂_drop_append args before (t :: after) hargs
          rcases List.forall₂_cons_right_iff.1 hlast with ⟨arg, rest, harg, -, hdrop⟩
          rcases harg with ⟨e, hshape, hknows, rfl⟩
          rw [← hsplit, hdrop] at hstatement
          exact .target hstatement (refersTo_of_targets hdeclares hfirst hbefore) hshape
            (declares_of_knows hdeclares hknows) hle

end Registers

/-! ### Lines that are read -/

theorem Move.operations_prefix {l : List Char} {s s' : State} (h : Move l s s') :
    s.circuit.operations.toList <+: s'.circuit.operations.toList := by
  have hpush : ∀ (t : State) o, t.circuit.operations.toList
      <+: (t.push o).circuit.operations.toList := by
    intro t o
    rw [State.push, Circuit.toList_operations_push]
    exact List.prefix_append _ _
  cases h with
  | blank _ | dropped _ _ | version _ _ => exact List.prefix_rfl
  | remark _ _ => exact hpush s _
  | silent _ _ heffect =>
      cases heffect with
      | inclusion => exact List.prefix_rfl
      | declaration _ _ =>
          exact ⟨[], by rw [State.operations_withRegister, List.append_nil]⟩
  | operation _ _ heffect _ =>
      cases heffect with
      | measurement _ _ | gate _ _ => exact hpush s _

/-- Operations are only added, at the end. -/
theorem run_operations_prefix {n : Nat} {ls : List (List Char)} {s s' : State}
    (h : run n ls s = .ok s') :
    s.circuit.operations.toList <+: s'.circuit.operations.toList := by
  induction ls generalizing n s with
  | nil =>
      cases h
      exact List.prefix_rfl
  | cons l ls ih =>
      rcases run_cons_eq_ok_iff.1 h with ⟨t, hmove, hrest⟩
      exact hmove.operations_prefix.trans (ih hrest)

/-! ### Texts -/

section Texts

variable {text : String} {place : Nat} {err : Error}

theorem circuit_firstLines (count : Nat) (text : String) :
    circuit (firstLines count text)
      = (run 1 ((lines text.toList).take count) {}).map State.circuit := by
  rw [circuit, run_eq_runLines, tolerates_step.runLines_firstLines]

theorem exists_circuit_firstLines_iff {count : Nat} :
    (∃ c, circuit (firstLines count text) = .ok c)
      ↔ ∃ s, runLines step 1 ((lines text.toList).take count) {} = .ok s := by
  rw [circuit_firstLines, run_eq_runLines]
  cases runLines step 1 ((lines text.toList).take count) {} with
  | error err => simp [Except.map]
  | ok s => simp [Except.map]

theorem circuit_eq_error_iff :
    circuit text = .error err ↔ ∃ place, RefusedAt step {} (lines text.toList) place err := by
  rw [← runLines_eq_error_iff, ← run_eq_runLines, circuit]
  cases run 1 (lines text.toList) {} with
  | error err => simp [Except.map]
  | ok s => simp [Except.map]

/-- A malformed line is reported with its own number. -/
theorem number_of_refusedAt {ls : List (List Char)} {number : Nat} {fault : Fault}
    (h : RefusedAt step {} ls place (.malformed number fault)) : number = place + 1 := by
  rcases h with ⟨-, -, hstep⟩
  rcases step_eq_error_iff.1 hstep with ⟨_, -, herror⟩ | ⟨_, _, _, -, -, herror⟩
  · cases herror
    rfl
  · cases herror

/-- The first line that is refused decides about the text, and no other line does. -/
theorem decides_iff (h : RefusedAt step {} (lines text.toList) place err) (number : Nat) :
    Decides text number err ↔ number = place + 1 := by
  constructor
  · rintro ⟨hbefore, hsame⟩
    -- Lines after the refused one are not preceded by lines that can be read.
    have hle : number ≤ place + 1 := by
      have := h.take_eq_ok_iff.1 (exists_circuit_firstLines_iff.1 hbefore)
      omega
    -- Lines before it do not decide: the text might have ended with them.
    have hge : place < number := by
      refine Nat.lt_of_not_le fun hlt => ?_
      have hfeed : ∀ l ∈ (lines text.toList).take number, '\n' ∉ l :=
        fun l hl => notMem_of_mem_lines (List.mem_of_mem_take hl)
      have hlines := lines_endLines hfeed
      have hother := hsame (endLines ((lines text.toList).take number)) (by
        rw [BeginAlike, hlines, List.take_take, Nat.min_self])
      rcases h.take_eq_ok_iff.2 hlt with ⟨s, hs⟩
      rw [circuit, hlines, run_eq_runLines, hs] at hother
      cases hother
    omega
  · rintro rfl
    refine ⟨exists_circuit_firstLines_iff.2 (h.take_eq_ok_iff.2 (Nat.le_refl place)), ?_⟩
    intro other hother
    exact circuit_eq_error_iff.2 ⟨place, h.of_take_eq hother⟩

/-- The first lines of a text that is read are read, and their circuit is a beginning
    of the whole. -/
theorem exists_circuit_firstLines {c : Circuit} (h : circuit text = .ok c) (count : Nat) :
    ∃ p, circuit (firstLines count text) = .ok p
      ∧ p.operations.toList <+: c.operations.toList := by
  rcases circuit_eq_ok_iff_run.1 h with ⟨s, hrun, rfl⟩
  rw [← List.take_append_drop count (lines text.toList), run_append] at hrun
  cases hfirst : run 1 ((lines text.toList).take count) {} with
  | error err =>
      rw [hfirst] at hrun
      cases hrun
  | ok t =>
      rw [hfirst] at hrun
      refine ⟨t.circuit, ?_, run_operations_prefix hrun⟩
      rw [circuit_firstLines, hfirst, Except.map]

end Texts

/-- **Texts that are read, and what an error says about the others.** The first lines of
    a text that is read are read by themselves, and their operations are the first of all.
    A malformed line has the number that is reported, and it is the one line that decides
    about the text. If a wire is out of range, there is one line that decides as well. It
    is a gate or a measurement, and the wire is that of its first element which lies
    beyond the register that is declared before this line. -/
theorem circuit_firstError (text : String) :
    (∀ c, circuit text = .ok c → ∀ count, ∃ p, circuit (firstLines count text) = .ok p
      ∧ p.operations.toList <+: c.operations.toList)
    ∧ (∀ number fault, circuit text = .error (.malformed number fault) →
      1 ≤ number ∧ number ≤ (lines text.toList).length
        ∧ ∀ k, Decides text k (.malformed number fault) ↔ k = number)
    ∧ ∀ err, circuit text = .error (.outOfRange err) →
      ∃ number line, 1 ≤ number ∧ number ≤ (lines text.toList).length
        ∧ (∀ k, Decides text k (.outOfRange err) ↔ k = number)
        ∧ (trimmedLines text)[number - 1]? = some line
        ∧ Beyond ((trimmedLines text).take (number - 1)) line err := by
  refine ⟨fun c hc => exists_circuit_firstLines hc, ?_, ?_⟩
  · intro number fault h
    rcases circuit_eq_error_iff.1 h with ⟨place, hrefused⟩
    cases number_of_refusedAt hrefused
    exact ⟨Nat.succ_pos place, hrefused.lt_length, decides_iff hrefused⟩
  · intro err h
    rcases circuit_eq_error_iff.1 h with ⟨place, hrefused⟩
    have hlt := hrefused.lt_length
    have hdecides := decides_iff hrefused
    rcases hrefused with @⟨l, s, hl, hbefore, hstep⟩
    rw [← run_eq_runLines] at hbefore
    refine ⟨place + 1, trim l, Nat.succ_pos place, hlt, hdecides, ?_, ?_⟩
    · rw [Nat.add_sub_cancel, trimmedLines, List.getElem?_map, hl, Option.map_some]
    · rw [Nat.add_sub_cancel, trimmedLines, ← List.map_take]
      exact beyond_of_step (leaves_of_run hbefore).declares_iff hstep

/-- A text with a comment before the version, an empty line and both ends of lines. -/
def shortText : String :=
  "// ahead\r\nOPENQASM 2.0;\n\r\nqreg q[2];\ncreg c[1];\r\n x q[1];\n// note\n"

/-- The same with a gate on a qubit that the register does not have, on its eighth
    line. The line after it is malformed. -/
def wideText : String :=
  shortText ++ "cx q[1], q[2];\r\nmeasure;\n"

/-- The same with the malformed line first. -/
def malformedText : String :=
  shortText ++ "measure;\ncx q[1], q[2];\r\n"

theorem circuit_firstError_wideText :
    circuit shortText = .ok ⟨2, 1, #[.gate "x" [1], .remark "note"]⟩
      ∧ (∃ p, circuit (firstLines 6 shortText) = .ok p
        ∧ p.operations.toList <+: [.gate "x" [1], .remark "note"])
      ∧ circuit malformedText = .error (.malformed 8 (.unsupportedStatement "measure;"))
      ∧ Decides malformedText 8 (.malformed 8 (.unsupportedStatement "measure;"))
      ∧ circuit wideText = .error (.outOfRange (.qubitOutOfRange 2 2))
      ∧ ∃ number line, Decides wideText number (.outOfRange (.qubitOutOfRange 2 2))
        ∧ (trimmedLines wideText)[number - 1]? = some line
        ∧ Beyond ((trimmedLines wideText).take (number - 1)) line (.qubitOutOfRange 2 2) := by
  have hshort : circuit shortText = .ok ⟨2, 1, #[.gate "x" [1], .remark "note"]⟩ := by
    decide +kernel
  have hmalformed : circuit malformedText
      = .error (.malformed 8 (.unsupportedStatement "measure;")) := by
    decide +kernel
  have hwide : circuit wideText = .error (.outOfRange (.qubitOutOfRange 2 2)) := by
    decide +kernel
  rcases (circuit_firstError malformedText).2.1 _ _ hmalformed with ⟨-, -, hdecides⟩
  rcases (circuit_firstError wideText).2.2 _ hwide with
    ⟨number, line, -, -, hnumber, hline, hbeyond⟩
  exact ⟨hshort, (circuit_firstError shortText).1 _ hshort 6, hmalformed, (hdecides 8).2 rfl,
    hwide, number, line, (hnumber number).2 rfl, hline, hbeyond⟩

end OpenQasm

end QuantumIR
