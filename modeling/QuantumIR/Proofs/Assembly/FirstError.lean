import QuantumIR.Proofs.Assembly.Headers

/-!
# The First Error in a Text of Assembly

Where an error comes from, and how much of the text it takes to know.

A line can be refused only inside of an open function, and there only if it is read as
an instruction; a text that is refused over a line is therefore unterminated just
before it. The error names the line by its number, with all lines counted, and shows
what is left of it without comment and blanks. What follows the line is never looked
at.

A function that is not closed is no matter of a single line. It shows at the end of
the text, but the text could have ended at any place after its header, with the same
error: from the header on, a function of this name is open.

## Main definitions

* `Error.line?`: The line that an error is about.

## Theorems

* `step_eq_error`: In which states a line is refused, and how it is reported.
* `Move.current_name`: Where the name of an open function comes from.
* `exists_opening`: An open function has been open since its header.
* `functions_firstError`: What an error says about the text.
-/

namespace QuantumIR

namespace Assembly

open Text

/-- The line that an error is about: its number and the text that is shown of it. A
    function that is not closed is no matter of a single line. -/
def Error.line? : Error → Option (Nat × String)
  | unterminatedFunction _ => none
  | malformedCall line text => some (line, text)
  | malformedInstruction line text => some (line, text)

variable {number : Nat} {line : List Char} {ls : List (List Char)} {s s' : State} {err : Error}

/-! ### Lines that are refused -/

theorem line?_of_instruction (h : instruction number line = .error err) :
    err.line? = some (number, String.ofList line) := by
  rw [instruction] at h
  split at h
  · split at h
    · cases h
    · cases h
      rfl
  · split at h
    · cases h
    · cases h
      rfl

/-- Rows of tables, braces, labels and terminators are accepted as they are. -/
theorem instruction_of_stepInside {f : OpenFunction}
    (h : stepInside number line s f = .error err) : instruction number line = .error err := by
  rw [stepInside] at h
  split at h
  · cases h
  split at h
  · cases h
  split at h
  · cases h
  split at h
  · cases h
  cases hread : instruction number line with
  | ok i =>
      rw [hread] at h
      cases h
  | error err' =>
      rw [hread] at h
      cases h
      rfl

/-- A line is refused only in an open function, where it is not empty, and the error
    shows its number and all of it. -/
theorem step_eq_error (h : step number line s = .error err) :
    ∃ f, s.current = some f ∧ line ≠ [] ∧ err.line? = some (number, String.ofList line) := by
  rw [step] at h
  split at h
  · cases h
  rename_i hempty
  have hne : line ≠ [] := fun hnil => hempty (List.isEmpty_iff.2 hnil)
  cases hs : s.current with
  | none =>
      rw [hs] at h
      cases h
  | some f =>
      rw [hs] at h
      exact ⟨f, rfl, hne, line?_of_instruction (instruction_of_stepInside h)⟩

/-! ### Functions that are not closed -/

/-- An open function has just been opened by a header, or it was open before under the
    same name. -/
theorem Move.current_name {g : OpenFunction} (h : Move number line s s')
    (hg : s'.current = some g) :
    (s.current = none ∧ header? line = some g.name)
      ∨ ∃ f, s.current = some f ∧ f.name = g.name := by
  cases h with
  | blank _ => exact .inr ⟨g, hg, rfl⟩
  | outside hs _ =>
      rw [hs] at hg
      cases hg
  | header hs hname =>
      cases hg
      exact .inl ⟨hs, hname⟩
  | table _ _ | terminator _ _ _ => exact .inr ⟨g, hg, rfl⟩
  | label hs _ _ | instruction hs _ _ =>
      cases hg
      exact .inr ⟨_, hs, rfl⟩
  | brace _ _ _ => cases hg

/-- A function that is open at the end has been open since its header. Before the header
    no function was open, and after it there was always one of this name. -/
theorem exists_opening {g : OpenFunction} (h : run 1 ls {} = .ok s) (hg : s.current = some g) :
    ∃ place l t, ls[place]? = some l ∧ header? (content l) = some g.name
      ∧ run 1 (ls.take place) {} = .ok t ∧ t.current = none
      ∧ ∀ count, place < count →
          ∃ u f, run 1 (ls.take count) {} = .ok u ∧ u.current = some f ∧ f.name = g.name := by
  induction ls using List.reverseRecOn generalizing s g with
  | nil =>
      cases h
      cases hg
  | append_singleton ls l ih =>
      -- All of the lines are taken by any count that goes beyond the others.
      have hall : ∀ count, ls.length < count → (ls ++ [l]).take count = ls ++ [l] := by
        intro count hcount
        exact List.take_of_length_le (by rwa [List.length_append])
      have hwhole := h
      rw [run_eq_runLines, runLines_concat_eq_ok_iff, ← run_eq_runLines] at h
      rcases h with ⟨t, hbefore, hstep⟩
      rcases (move_of_step hstep).current_name hg with ⟨hnone, hheader⟩ | ⟨f, hf, hname⟩
      · refine ⟨ls.length, l, t, by simp, hheader, by simpa using hbefore, hnone, ?_⟩
        intro count hcount
        exact ⟨s, g, by rw [hall count hcount, hwhole], hg, rfl⟩
      · rcases ih hbefore hf with ⟨place, m, u, hm, hheader, hu, hnone, hopen⟩
        have hlt : place < ls.length := (List.getElem?_eq_some_iff.1 hm).1
        refine ⟨place, m, u, ?_, by rw [hheader, hname], ?_, hnone, ?_⟩
        · rw [List.getElem?_append_left hlt, hm]
        · rw [List.take_append_of_le_length (Nat.le_of_lt hlt), hu]
        · intro count hcount
          by_cases hle : count ≤ ls.length
          · rcases hopen count hcount with ⟨v, k, hv, hk, hkname⟩
            exact ⟨v, k, by rw [List.take_append_of_le_length hle, hv], hk, hkname.trans hname⟩
          · exact ⟨s, g, by rw [hall count (Nat.lt_of_not_le hle), hwhole], hg, rfl⟩

/-! ### Texts -/

section Texts

variable {text : String}

theorem functions_of_run_eq_error (h : run 1 (lines text.toList) {} = .error err) :
    functions text = .error err := by
  rw [functions, h]

theorem functions_of_current (h : run 1 (lines text.toList) {} = .ok s) {f : OpenFunction}
    (hf : s.current = some f) : functions text = .error (.unterminatedFunction f.name) := by
  rw [functions, h]
  simp only [State.finish, hf]

/-- An error that is about a line comes from the first line that is refused. -/
theorem refusedAt_of_functions {shown : String} (h : functions text = .error err)
    (hline : err.line? = some (number, shown)) :
    ∃ place, RefusedAt (fun n l => step n (content l)) {} (lines text.toList) place err := by
  rw [← runLines_eq_error_iff, ← run_eq_runLines]
  rw [functions] at h
  split at h
  · -- The end of the text is no line.
    rw [State.finish] at h
    split at h
    · cases h
    · cases h
      cases hline
  · rename_i hrun
    cases h
    exact hrun

/-- A text that is not terminated is read to its end, with a function of this name
    open. -/
theorem exists_current_of_functions {name : String}
    (h : functions text = .error (.unterminatedFunction name)) :
    ∃ s f, run 1 (lines text.toList) {} = .ok s ∧ s.current = some f ∧ f.name = name := by
  rw [functions] at h
  split at h
  · rename_i s hrun
    rw [State.finish] at h
    split at h
    · cases h
    · rename_i f hf
      cases h
      exact ⟨s, f, hrun, hf, rfl⟩
  · -- No line is refused with this error.
    rename_i err hrun
    cases h
    rw [run_eq_runLines, runLines_eq_error_iff] at hrun
    rcases hrun with ⟨place, hrefused⟩
    rcases hrefused with ⟨-, -, hstep⟩
    rcases step_eq_error hstep with ⟨f, -, -, hline⟩
    cases hline

end Texts

/-- **What an error says about the text.** An error about a line names a line of the text
    by its number and shows its code, which is not empty; the lines before it are
    unterminated, and every text that begins with the same lines up to this one is
    refused with the same error. An error about a function that is not closed comes from
    a header of that name before which the text can be read by itself, and it is the
    error of all first lines of the text that include this header. -/
theorem functions_firstError (text : String) :
    (∀ err number shown, functions text = .error err → err.line? = some (number, shown) →
      1 ≤ number ∧ number ≤ (lines text.toList).length
        ∧ shown ≠ ""
        ∧ (lines text.toList)[number - 1]?.map content = some shown.toList
        ∧ (∃ name, functions (firstLines (number - 1) text) = .error (.unterminatedFunction name))
        ∧ ∀ other, BeginAlike number text other → functions other = .error err)
    ∧ ∀ name, functions text = .error (.unterminatedFunction name) →
      ∃ number, 1 ≤ number ∧ number ≤ (lines text.toList).length
        ∧ (∃ fs, functions (firstLines (number - 1) text) = .ok fs)
        ∧ (lines text.toList)[number - 1]?.bind (fun l => header? (content l)) = some name
        ∧ ∀ count, number ≤ count →
            functions (firstLines count text) = .error (.unterminatedFunction name) := by
  constructor
  · intro err number shown h hline
    rcases refusedAt_of_functions h hline with ⟨place, hrefused⟩
    have hlt := hrefused.lt_length
    have hsame := hrefused
    rcases hrefused with ⟨hl, hbefore, hstep⟩
    rcases step_eq_error hstep with ⟨f, hf, hne, hshown⟩
    rw [hline, Option.some.injEq, Prod.mk.injEq] at hshown
    rcases hshown with ⟨rfl, rfl⟩
    refine ⟨Nat.succ_pos place, hlt, ?_, ?_, ?_, ?_⟩
    · intro hempty
      rw [← String.toList_inj, String.toList_ofList] at hempty
      exact hne hempty
    · rw [Nat.add_sub_cancel, hl, String.toList_ofList, Option.map_some]
    · refine ⟨f.name, functions_of_current ?_ hf⟩
      rw [Nat.add_sub_cancel, run_firstLines, run_eq_runLines, hbefore]
    · intro other hother
      refine functions_of_run_eq_error ?_
      rw [run_eq_runLines]
      exact (hsame.of_take_eq hother).runLines_eq
  · intro name h
    rcases exists_current_of_functions h with ⟨s, g, hrun, hg, rfl⟩
    rcases exists_opening hrun hg with ⟨place, l, t, hl, hheader, hbefore, hnone, hopen⟩
    refine ⟨place + 1, Nat.succ_pos place, (List.getElem?_eq_some_iff.1 hl).1, ?_, ?_, ?_⟩
    · refine ⟨t.finished, ?_⟩
      rw [Nat.add_sub_cancel, functions, run_firstLines, hbefore]
      simp only [State.finish, hnone]
    · rw [Nat.add_sub_cancel, hl, Option.bind_some, hheader]
    · intro count hcount
      rcases hopen count hcount with ⟨u, f, hu, hf, hname⟩
      rw [← hname]
      refine functions_of_current ?_ hf
      rw [run_firstLines, hu]

/-- A text with a line that is neither a call nor another instruction. It is the fourth
    line, behind an empty one and a comment. -/
def brokenText : String :=
  "define void @f() \x7b\r\n\n; call void\n  %x = ; rest\n  call void\n\x7d"

/-- A text with two functions, of which the second is not closed. -/
def openText : String :=
  "define void @f() \x7b\n\x7d\n\ndefine void @g() \x7b ; open\n  ret void\n"

theorem functions_firstError_brokenText :
    functions brokenText = .error (.malformedInstruction 4 "%x =")
      ∧ (∃ name, functions (firstLines 3 brokenText) = .error (.unterminatedFunction name))
      ∧ (∀ other, BeginAlike 4 brokenText other →
          functions other = .error (.malformedInstruction 4 "%x ="))
      ∧ functions openText = .error (.unterminatedFunction "g")
      ∧ ∃ number, (∃ fs, functions (firstLines (number - 1) openText) = .ok fs)
          ∧ functions (firstLines number openText) = .error (.unterminatedFunction "g") := by
  have hbroken : functions brokenText = .error (.malformedInstruction 4 "%x =") := by
    decide +kernel
  have hopen : functions openText = .error (.unterminatedFunction "g") := by decide +kernel
  rcases (functions_firstError brokenText).1 _ _ _ hbroken rfl with
    ⟨-, -, -, -, hbefore, hsame⟩
  rcases (functions_firstError openText).2 _ hopen with ⟨number, -, -, hread, -, hafter⟩
  exact ⟨hbroken, hbefore, hsame, hopen, number, hread, hafter number (Nat.le_refl number)⟩

end Assembly

end QuantumIR
