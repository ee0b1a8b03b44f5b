import QuantumIR.Proofs.Assembly.Completeness

/-!
# Texts Behind Texts

Assembly is compositional: two texts with a line feed between them are read as the
one and then the other. The functions of the second come behind those of the first,
and an error in the second is the same error, found as many lines further down as
the first text and the line feed take up.

This needs the reader to carry nothing over a boundary at which no function is open.
It is not enough to know that for the texts which the grammar allows, since the first
text may hold anything that happens to be read: tables without rows, braces inside of
tables, lines that are no assembly at all. The flag for a table is what could be carried
over, and `settled_run` says that it is down at every such boundary. Everything else is
the matter of `run_behind`, which speaks of every state. What was read before shows in
two places only, the functions in front and the number of the next line, and both can be
taken out of a run.

Counting the lines is the other half. A carriage return at the end of the first text
becomes part of a line end, and a line feed there leaves an empty line behind, so the
lines of the whole are not simply those of the parts. `run_lines` removes the
difference: pieces between line feeds are read like lines, and there is always one
more of them than there are line feeds.

## Main definitions

* `Error.behind`: An error as it is reported behind other lines.
* `State.behind`: A state as it is behind other functions.

## Theorems

* `step_behind`, `run_behind`: What was read before can be taken out of a run.
* `run_lines`: A text may be read by its pieces between line feeds.
* `run_concatenated`: Two texts are read one after the other.
* `run_of_functions_eq_ok`: A text that is read leaves nothing but its functions.
* `functions_concatenated`: The functions of two texts, and the errors in the second.
-/

namespace QuantumIR

namespace Assembly

open Text

/-- The error as it is reported when the text stands behind `count` other lines. -/
def Error.behind (count : Nat) : Error → Error
  | unterminatedFunction name => unterminatedFunction name
  | malformedCall line text => malformedCall (line + count) text
  | malformedInstruction line text => malformedInstruction (line + count) text

/-- The state as it is when the functions `fs` were read before. -/
def State.behind (fs : Array FunctionDef) (s : State) : State :=
  { s with finished := fs ++ s.finished }

section Behind

variable (count number : Nat) (line : List Char) (fs : Array FunctionDef)

theorem instruction_behind :
    instruction (number + count) line
      = (instruction number line).mapError (Error.behind count) := by
  rw [instruction, instruction]
  by_cases hcall : mentionsCall line = true
  · rw [if_pos hcall, if_pos hcall]
    cases call? line <;> rfl
  · rw [if_neg hcall, if_neg hcall]
    cases plain? line <;> rfl

theorem stepOutside_behind (s : State) :
    stepOutside line (s.behind fs) = (stepOutside line s).behind fs := by
  rw [stepOutside, stepOutside]
  cases header? line <;> rfl

theorem stepInside_behind (s : State) (f : OpenFunction) :
    stepInside (number + count) line (s.behind fs) f
      = ((stepInside number line s f).map (State.behind fs)).mapError (Error.behind count) := by
  rw [stepInside, stepInside]
  have hflag : (s.behind fs).inTable = s.inTable := rfl
  rw [hflag]
  by_cases htable : s.inTable = true
  · rw [if_pos htable, if_pos htable]
    rfl
  rw [if_neg htable, if_neg htable]
  by_cases hbrace : line = ['\x7d']
  · -- The only line that touches the finished functions adds one at their end.
    rw [if_pos hbrace, if_pos hbrace]
    simp only [Except.map, Except.mapError, State.behind, Array.append_push]
  rw [if_neg hbrace, if_neg hbrace]
  cases label? line with
  | some label => rfl
  | none =>
      by_cases hterminator : isTerminator line = true
      · simp only [if_pos hterminator]
        rfl
      · -- The only line that can fail reports its number.
        simp only [if_neg hterminator, instruction_behind]
        cases instruction number line <;> rfl

/-- The effect of a line does not depend on what was read before. -/
theorem step_behind (s : State) :
    step (number + count) line (s.behind fs)
      = ((step number line s).map (State.behind fs)).mapError (Error.behind count) := by
  have hcurrent : (s.behind fs).current = s.current := rfl
  rw [step, step, hcurrent]
  by_cases hempty : line.isEmpty = true
  · rw [if_pos hempty, if_pos hempty]
    rfl
  rw [if_neg hempty, if_neg hempty]
  cases s.current with
  | none =>
      simp only [stepOutside_behind]
      rfl
  | some f => exact stepInside_behind count number line fs s f

/-- Reading does not depend on what was read before: functions are put behind the
    earlier ones, and lines are counted on. -/
theorem run_behind (ls : List (List Char)) (s : State) :
    run (number + count) ls (s.behind fs)
      = ((run number ls s).map (State.behind fs)).mapError (Error.behind count) := by
  induction ls generalizing number s with
  | nil => rfl
  | cons l ls ih =>
      rw [run, run, step_behind]
      cases step number (content l) s with
      | error err => rfl
      | ok s' =>
          have hrest := ih (number + 1) s'
          rwa [Nat.add_right_comm] at hrest

theorem finish_behind (s : State) :
    (s.behind fs).finish = (s.finish.map (fs ++ ·)).mapError (Error.behind count) := by
  have hcurrent : (s.behind fs).current = s.current := rfl
  rw [State.finish, State.finish, hcurrent]
  cases s.current <;> rfl

end Behind

/-- A text may be read by its pieces between line feeds. Neither the carriage returns
    at their ends nor an empty last piece makes a difference. -/
theorem run_lines (number : Nat) (t : List Char) (s : State) :
    run number (lines t) s = run number (t.splitOn '\n') s := by
  rw [run_eq_runLines]
  exact tolerates_step.runLines_lines number t s

theorem run_append (number : Nat) (ls ms : List (List Char)) (s : State) :
    run number (ls ++ ms) s = (run number ls s).bind (run (number + ls.length) ms) := by
  rw [run_eq_runLines]
  exact runLines_append number ls ms s

/-- Two texts with a line feed between them are read one after the other. The second
    begins as many lines further down as the first has line feeds, and one more. -/
theorem run_concatenated (a b : String) (s : State) :
    run 1 (lines (a ++ "\n" ++ b).toList) s
      = (run 1 (lines a.toList) s).bind
          (run (1 + (a.toList.count '\n' + 1)) (lines b.toList)) := by
  have hpieces : (a ++ "\n" ++ b).toList.splitOn '\n'
      = a.toList.splitOn '\n' ++ b.toList.splitOn '\n' := by
    rw [String.toList_append, String.toList_append, List.append_assoc]
    exact List.splitOn_append_cons_self ..
  rw [run_lines, run_lines, hpieces, run_append, length_splitOn]
  congr 1
  funext s'
  rw [run_lines]

/-- A text that is read leaves nothing but its functions. -/
theorem run_of_functions_eq_ok {text : String} {fs : Array FunctionDef}
    (h : functions text = .ok fs) : run 1 (lines text.toList) {} = .ok (State.behind fs {}) := by
  rw [functions] at h
  cases hrun : run 1 (lines text.toList) {} with
  | error err =>
      rw [hrun] at h
      cases h
  | ok s =>
      -- No table goes on behind the text, whatever its lines were.
      have hsettled : s.Settled := settled_run (fun _ => rfl) hrun
      rw [hrun] at h
      simp only [State.finish] at h
      rcases s with ⟨finished, _ | f, inTable⟩
      · obtain rfl : inTable = false := hsettled rfl
        injection h with h
        rw [State.behind, Array.append_empty, ← h]
      · cases h

/-- Reading is compositional. If a text is read as functions, then the text with
    another one behind it is read as these and the functions of the other; and if the
    other is refused, then so is the whole, for the same reason and at the same line,
    counted from the beginning of the whole. -/
theorem functions_concatenated (a b : String) (fs : Array FunctionDef)
    (h : functions a = .ok fs) :
    (∀ gs, functions b = .ok gs → functions (a ++ "\n" ++ b) = .ok (fs ++ gs))
      ∧ ∀ e, functions b = .error e →
          functions (a ++ "\n" ++ b) = .error (e.behind (a.toList.count '\n' + 1)) := by
  have hwhole : functions (a ++ "\n" ++ b)
      = ((functions b).map (fs ++ ·)).mapError (Error.behind (a.toList.count '\n' + 1)) := by
    rw [functions, functions, run_concatenated, run_of_functions_eq_ok h]
    simp only [Except.bind, run_behind]
    cases run 1 (lines b.toList) {} with
    | error err => rfl
    | ok s => exact finish_behind _ fs s
  refine ⟨?_, ?_⟩
  · intro gs hb
    rw [hwhole, hb]
    rfl
  · intro e hb
    rw [hwhole, hb]
    rfl

/-- A text that ends in the middle of a line end, after a function with a table. A brace
    in the table does not close the function. -/
def returnText : String :=
  "define void @f() \x7b\r\n  switch i64 %n, label %a [\n\x7d\n  ]\n\x7d ; end\r"

/-- A text with a call that has no callee on its third line. -/
def calleelessText : String :=
  "define void @g() \x7b\n\n  call void\n\x7d\n"

theorem functions_concatenated_returnText :
    functions returnText = .ok #[{ name := "f" }]
      ∧ functions (returnText ++ "\n" ++ returnText) = .ok #[{ name := "f" }, { name := "f" }]
      ∧ functions calleelessText = .error (.malformedCall 3 "call void")
      ∧ functions (returnText ++ "\n" ++ calleelessText)
        = .error (.malformedCall 8 "call void") := by
  have hfirst : functions returnText = .ok #[{ name := "f" }] := by decide +kernel
  have hsecond : functions calleelessText = .error (.malformedCall 3 "call void") := by
    decide +kernel
  exact ⟨hfirst, (functions_concatenated _ _ _ hfirst).1 _ hfirst, hsecond,
    (functions_concatenated _ _ _ hfirst).2 _ hsecond⟩

end Assembly

end QuantumIR
