import QuantumIR.Proofs.OpenQasm.Moves
import QuantumIR.Proofs.OpenQasm.ReadBack

/-!
# Lines That Do Not Act

Blank lines and comments leave their mark on a circuit as remarks and nowhere else. A
text is read, up to remarks, like its other lines alone: with the same success, the
same wires and the same gates and measurements, whatever the comments say. Only the
numbers in the reports of errors are lost.

This is said by forgetting. `Circuit.withoutRemarks` is the circuit that is left when
the remarks are taken out, and a state of the reader is treated alike. The reader never
looks at the operations it has collected, so on a line that acts it does not matter
whether the remarks are there.

The text of an emission has one line for each remark, since remarks hold no line feed.
The lines that act are then those of the header, of the declarations and of the other
operations, and they do not depend on the remarks. Names of gates may be arbitrary
texts here, and so may the name of the block: what they break, they break with remarks
and without.

## Main definitions

* `Operation.SingleLine`: A remark has no line feed.
* `Circuit.withoutRemarks`, `State.withoutRemarks`: All but the remarks.
* `actingLines`: The lines that are neither blank nor comments.

## Theorems

* `State.read_withoutRemarks`: What a line says does not depend on the remarks.
* `step_aside`: Blank lines and comments add remarks at most.
* `step_withoutRemarks`, `run_withoutRemarks`: The effect of lines, up to remarks.
* `circuit_withoutRemarks`: The circuit of a text is that of its acting lines.
* `actingLines_text`: The acting lines of the text of an emission.
-/

namespace QuantumIR

/-- A remark is a single line. -/
def Operation.SingleLine : Operation → Prop
  | remark text => '\n' ∉ text.toList
  | _ => True

namespace Circuit

/-- The circuit without its remarks. -/
def withoutRemarks (c : Circuit) : Circuit :=
  { c with operations := c.wireOperations.toArray }

theorem withoutRemarks_push_remark (c : Circuit) (text : String) :
    (c.push (.remark text)).withoutRemarks = c.withoutRemarks := by
  simp [withoutRemarks, wireOperations, push, Operation.isRemark]

theorem withoutRemarks_push {o : Operation} (h : o.isRemark = false) (c : Circuit) :
    (c.push o).withoutRemarks = c.withoutRemarks.push o := by
  simp [withoutRemarks, wireOperations, push, h]

/-- Whether an operation is refused does not depend on the operations before it. -/
theorem result_add_withoutRemarks {o : Operation} (h : o.isRemark = false) (c : Circuit) :
    (c.withoutRemarks.add o).result = (c.add o).result.map withoutRemarks := by
  cases hadd : (c.add o).result with
  | ok c' =>
      rcases result_add_eq_ok_iff.1 hadd with ⟨hrange, rfl⟩
      rw [Except.map, withoutRemarks_push h]
      exact result_add_eq_ok_iff.2 ⟨hrange, rfl⟩
  | error err =>
      have hexceeds : o.Exceeds c.numQubits c.numResults err := result_add_eq_error_iff.1 hadd
      exact result_add_eq_error_iff.2 hexceeds

end Circuit

namespace OpenQasm

open Text

instance : DecidablePred IsAside :=
  fun line => inferInstanceAs (Decidable (line = [] ∨ "//".toList <+: line))

/-- The lines that are neither blank nor comments. -/
def actingLines (ls : List (List Char)) : List (List Char) :=
  ls.filter fun l => ¬ IsAside (trim l)

namespace State

/-- The state without the remarks of its circuit. -/
def withoutRemarks (s : State) : State :=
  { s with circuit := s.circuit.withoutRemarks }

theorem declare_withoutRemarks (s : State) (kind : RegisterKind) (name : String) (size : Nat) :
    s.withoutRemarks.declare kind name size
      = (s.declare kind name size).map withoutRemarks := by
  cases kind with
  | quantum =>
      rw [declare, declare, apply_ite (Except.map withoutRemarks)]
      rfl
  | classical =>
      rw [declare, declare, apply_ite (Except.map withoutRemarks)]
      rfl

/-- What a statement says does not depend on the remarks. -/
theorem interpret_withoutRemarks (s : State) (statement : Statement) :
    s.withoutRemarks.interpret statement
      = (s.interpret statement).map (Prod.map withoutRemarks id) := by
  have hquantum : s.withoutRemarks.quantum = s.quantum := rfl
  have hclassical : s.withoutRemarks.classical = s.classical := rfl
  cases statement with
  | inclusion => rfl
  | declaration kind e =>
      simp only [interpret, declare_withoutRemarks]
      cases index e.digits with
      | error fault => rfl
      | ok size =>
          simp only [bind, Except.bind]
          cases s.declare kind e.register size <;> rfl
  | measurement q r =>
      simp only [interpret, hquantum, hclassical]
      cases resolve s.quantum q with
      | error fault => rfl
      | ok i =>
          simp only [bind, Except.bind]
          cases resolve s.classical r <;> rfl
  | gate name args =>
      simp only [interpret, hquantum]
      cases arguments s.quantum args <;> rfl

/-- What a line that acts says does not depend on the remarks. -/
theorem read_withoutRemarks (s : State) {line : List Char} (h : ¬ IsAside line) :
    s.withoutRemarks.read line = (s.read line).map (Prod.map withoutRemarks id) := by
  have hversioned : s.withoutRemarks.versioned = s.versioned := rfl
  rw [read, read, comment?_of_not_isAside h]
  simp only [if_neg (isEmpty_of_not_isAside h), hversioned]
  cases s.versioned with
  | true =>
      simp only [if_true]
      cases Statement.parse? line with
      | none => rfl
      | some statement => exact s.interpret_withoutRemarks statement
  | false =>
      simp only [Bool.false_eq_true, if_false]
      by_cases hversion : line = version.toList
      · rw [if_pos hversion, if_pos hversion]
        rfl
      · rw [if_neg hversion, if_neg hversion]
        rfl

/-- The operation of a line that acts is no remark. -/
theorem isRemark_of_read {s t : State} {line : List Char} {o : Operation} (h : ¬ IsAside line)
    (hread : s.read line = .ok (t, some o)) : o.isRemark = false := by
  rcases (read_of_not_isAside h).1 hread with ⟨-, statement, -, heffect⟩ | ⟨-, -, -, hnone⟩
  · cases heffect <;> rfl
  · cases hnone

end State

/-! ### Lines -/

/-- A blank line or a comment adds a remark at most. -/
theorem step_aside {l : List Char} (h : IsAside (trim l)) (n : Nat) (s : State) :
    ∃ s', step n l s = .ok s' ∧ s'.withoutRemarks = s.withoutRemarks := by
  rcases isAside_iff.1 h with hblank | ⟨text, htext⟩
  · exact ⟨s, step_of_move (.blank hblank) n, rfl⟩
  · cases hs : s.versioned with
    | false => exact ⟨s, step_of_move (.dropped htext hs) n, rfl⟩
    | true =>
        refine ⟨_, step_of_move (.remark htext hs) n, ?_⟩
        rw [State.withoutRemarks, State.push, Circuit.withoutRemarks_push_remark]
        rfl

/-- A line that acts has the same effect without the remarks. -/
theorem step_withoutRemarks {l : List Char} (h : ¬ IsAside (trim l)) (n m : Nat) (s : State) :
    (step m l s.withoutRemarks).toOption
      = (step n l s).toOption.map State.withoutRemarks := by
  rw [step, step, s.read_withoutRemarks h]
  cases hread : s.read (trim l) with
  | error fault => rfl
  | ok said =>
      rcases said with ⟨t, _ | o⟩
      · rfl
      · have hadd : (t.withoutRemarks.circuit.add o).result
            = (t.circuit.add o).result.map Circuit.withoutRemarks :=
          Circuit.result_add_withoutRemarks (State.isRemark_of_read h hread) t.circuit
        simp only [Except.map, Prod.map_apply, id_eq, hadd]
        cases (t.circuit.add o).result <;> rfl

/-- Lines have the effect, up to remarks, that those of them have which act. -/
theorem run_withoutRemarks (n m : Nat) (ls : List (List Char)) (s : State) :
    (run m (actingLines ls) s.withoutRemarks).toOption
      = (run n ls s).toOption.map State.withoutRemarks := by
  induction ls generalizing n m s with
  | nil => rfl
  | cons l ls ih =>
      by_cases h : IsAside (trim l)
      -- The line is left out on one side, and on the other it changes nothing but remarks.
      · rcases step_aside h n s with ⟨s', hstep, hs'⟩
        have hrest : actingLines (l :: ls) = actingLines ls := by
          rw [actingLines, List.filter_cons_of_neg (by simpa using h), actingLines]
        rw [hrest, run, hstep, ← hs']
        exact ih (n + 1) m s'
      · have hrest : actingLines (l :: ls) = l :: actingLines ls := by
          rw [actingLines, List.filter_cons_of_pos (by simpa using h), actingLines]
        have hstep := step_withoutRemarks h n m s
        -- Both sides refuse the line, or both go on from states that differ in remarks.
        rw [hrest, run, run]
        cases hfirst : step n l s with
        | error err =>
            rw [hfirst] at hstep
            cases hother : step m l s.withoutRemarks with
            | error err' => rfl
            | ok t =>
                rw [hother] at hstep
                cases hstep
        | ok s' =>
            rw [hfirst] at hstep
            cases hother : step m l s.withoutRemarks with
            | error err' =>
                rw [hother] at hstep
                cases hstep
            | ok t =>
                rw [hother] at hstep
                cases hstep
                exact ih (n + 1) (m + 1) s'

/-! ### Texts -/

theorem toOption_map {ε α β : Type} (f : α → β) (x : Except ε α) :
    (x.map f).toOption = x.toOption.map f := by
  cases x <;> rfl

/-- The circuit of a text is, up to remarks, that of its acting lines. -/
theorem circuit_withoutRemarks (text : String) :
    (circuit text).toOption.map Circuit.withoutRemarks
      = ((run 1 (actingLines (text.toList.splitOn '\n')) {}).map State.circuit).toOption := by
  have hread : run 1 (lines text.toList) {} = run 1 (text.toList.splitOn '\n') {} := by
    rw [run_eq_runLines]
    exact tolerates_step.runLines_lines 1 text.toList {}
  -- No remarks are there at the start, so the acting lines are read from the same state.
  have hacting := run_withoutRemarks 1 1 (text.toList.splitOn '\n') {}
  rw [show State.withoutRemarks {} = {} from rfl] at hacting
  rw [circuit, hread, toOption_map, toOption_map, hacting, Option.map_map, Option.map_map]
  rfl

/-! ### Texts of emissions -/

/-- Joined texts are cut like each of them. -/
theorem splitOn_intercalate_flatMap {ls : List (List Char)} (h : ls ≠ []) :
    (['\n'].intercalate ls).splitOn '\n' = ls.flatMap (·.splitOn '\n') := by
  induction ls with
  | nil => exact absurd rfl h
  | cons l ls ih =>
      rcases ls with _ | ⟨m, ls⟩
      · simp
      · have hjoin : ['\n'].intercalate (l :: m :: ls)
            = l ++ '\n' :: ['\n'].intercalate (m :: ls) := by
          rw [List.intercalate_cons_cons, List.append_assoc, List.singleton_append]
        rw [hjoin, List.splitOn_append_cons_self, ih (List.cons_ne_nil m ls)]
        rfl

/-- A remark of a single line is a comment of a single line. -/
theorem actingLines_remark {text : String} (h : '\n' ∉ text.toList) :
    actingLines ((line (.remark text)).toList.splitOn '\n') = [] := by
  have hfeed : '\n' ∉ '/' :: '/' :: ' ' :: text.toList := by simp [h]
  have haside : IsAside (trim ('/' :: '/' :: ' ' :: text.toList)) :=
    isAside_iff.2 (.inr ⟨_, comment?_eq_some_iff.1 (comment?_trim text.toList)⟩)
  rw [toList_line_remark, List.splitOn_eq_singleton hfeed, actingLines,
    List.filter_cons_of_neg (by simpa using haside), List.filter_nil]

/-- Remarks do not show in the lines that act. -/
theorem flatMap_actingLines {os : List Operation} (h : ∀ o ∈ os, o.SingleLine) :
    os.flatMap (fun o => actingLines ((line o).toList.splitOn '\n'))
      = (os.filter fun o => !o.isRemark).flatMap
          fun o => actingLines ((line o).toList.splitOn '\n') := by
  induction os with
  | nil => rfl
  | cons o os ih =>
      rcases List.forall_mem_cons.1 h with ⟨ho, hos⟩
      cases o with
      | remark text =>
          rw [List.flatMap_cons, actingLines_remark ho, ih hos, List.nil_append,
            List.filter_cons_of_neg (by simp [Operation.isRemark])]
      | gate _ _ | measurement _ _ =>
          rw [List.flatMap_cons, ih hos, List.filter_cons_of_pos (by simp [Operation.isRemark]),
            List.flatMap_cons]

/-- The lines of the text of an emission that act. The remarks are not among them. -/
theorem actingLines_text {blockName : String} {e : Emission}
    (h : ∀ o ∈ e.operations.toList, o.SingleLine) :
    actingLines ((text blockName e).toList.splitOn '\n')
      = ((preamble blockName ++ registers e).map String.toList).flatMap
          (fun l => actingLines (l.splitOn '\n'))
        ++ (e.operations.toList.filter fun o => !o.isRemark).flatMap
          fun o => actingLines ((line o).toList.splitOn '\n') := by
  have htext : (text blockName e).toList = ['\n'].intercalate
      ((preamble blockName ++ registers e).map String.toList
        ++ e.operations.toList.map fun o => (line o).toList) := by
    rw [toList_text, textLines, registers]
    simp
  have hne : (preamble blockName ++ registers e).map String.toList
      ++ e.operations.toList.map (fun o => (line o).toList) ≠ [] := by
    simp [preamble]
  rw [htext, splitOn_intercalate_flatMap hne, actingLines, List.filter_flatMap,
    List.flatMap_append, List.flatMap_map (fun o => (line o).toList)]
  exact congrArg _ (flatMap_actingLines h)

end OpenQasm

end QuantumIR
