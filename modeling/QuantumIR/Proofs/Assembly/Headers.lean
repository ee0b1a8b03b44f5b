import QuantumIR.Proofs.Assembly.Concatenation
import QuantumIR.Proofs.Text.Shape

/-!
# Headers and Functions

Which of the lines that look like the beginning of a function do begin one.

The reader asks for a header only where no function is open. In front of a line the
open functions are those of the lines before it, and a function that is open at the end
of a text is what makes the text unterminated; so a line begins a function exactly if it
has the shape of a header and the lines before it are a text that can be read by
itself. `functions_headers` says this, and it says what becomes of the others.

A header inside of an open function is not reported. Its shape also fits the loosest
shape of an instruction, a word of small letters with anything behind it, so it becomes
an instruction named `define` of the function that is open, and the brace that was to
close the inner function closes the outer one. A missing brace therefore shows as an
error only if no other function comes after it. `not_headers_unclosedText` is such a
text: two definitions, of which one is returned.

The names are followed through a run by `State.functions`, which counts the open
function as if it ended at once. A closing brace then changes nothing, and the one move
that adds a name is the one that opens a function.

## Main definitions

* `HeaderLine`, `headers`: The lines of a text that have the shape of a header.
* `EndsInTable`: A text ends in the middle of a table.
* `HasOpcode`: A function has an instruction with a given opcode.
* `State.functions`: The functions of a state, the open one included.

## Theorems

* `Move.names`: What a line does to the names of the functions.
* `names_run`: The names after a run are those in the headers met outside.
* `Move.hasOpcode`, `run_hasOpcode`: Instructions stay in their function.
* `opcode_of_header?`: What a header is if it is read as an instruction.
* `functions_headers`: Which headers begin a function, and what becomes of the others.
-/

namespace QuantumIR

namespace Assembly

open Text

/-- A line that has the shape of a header, wherever it stands. -/
structure HeaderLine where
  /-- How many lines stand before it. -/
  before : Nat
  /-- The name in it. -/
  name : String
deriving DecidableEq, Repr

/-- The lines that have the shape of a header, in their order. -/
def headerLines (ls : List (List Char)) : List HeaderLine :=
  ls.zipIdx.filterMap fun (l, k) => (header? (content l)).map (HeaderLine.mk k)

/-- The lines of a text that have the shape of a header, in their order. -/
def headers (text : String) : List HeaderLine :=
  headerLines (lines text.toList)

/-- The text ends in a function, in the middle of a table of jump targets. -/
def EndsInTable (text : String) : Prop :=
  ∃ s f, run 1 (lines text.toList) {} = .ok s ∧ s.current = some f ∧ s.inTable = true

/-- The function has an instruction with the given opcode, in one of its blocks. -/
def HasOpcode (d : FunctionDef) (opcode : String) : Prop :=
  ∃ b ∈ d.blocks.toList, ∃ i ∈ b.instructions.toList, i.opcode = opcode

/-- The functions of a state, the open one last and as if it ended here. -/
def State.functions (s : State) : List FunctionDef :=
  s.finished.toList ++ (s.current.map OpenFunction.close).toList

/-! ### Names -/

/-- What a line does to the names of the functions: a header outside of all functions
    adds one, and nothing else does. -/
theorem Move.names {number : Nat} {line : List Char} {s s' : State} (h : Move number line s s') :
    s'.functions.map (·.name)
      = s.functions.map (·.name) ++ if s.current.isNone then (header? line).toList else [] := by
  cases h with
  | blank h =>
      have hnone : header? line = none := by rw [h]; rfl
      simp [hnone]
  | outside hs h => simp [hs, h]
  | header hs h => simp [hs, h, State.functions, OpenFunction.close]
  | table hs _ => simp [hs, State.functions, OpenFunction.close]
  | brace hs _ _ => simp [hs, State.functions, OpenFunction.close]
  | label hs _ _ => simp [hs, State.functions, OpenFunction.close, OpenFunction.startBlock]
  | terminator hs _ _ => simp [hs, State.functions, OpenFunction.close]
  | instruction hs _ _ => simp [hs, State.functions, OpenFunction.close, OpenFunction.push]

theorem headerLines_concat (ls : List (List Char)) (l : List Char) :
    headerLines (ls ++ [l])
      = headerLines ls ++ ((header? (content l)).map (HeaderLine.mk ls.length)).toList := by
  rw [headerLines, headerLines, List.zipIdx_append, List.filterMap_append]
  cases hheader : header? (content l) with
  | none => simp [hheader]
  | some name => simp [hheader]

theorem exists_line_of_mem_headerLines {ls : List (List Char)} {p : HeaderLine}
    (h : p ∈ headerLines ls) : ∃ l, ls[p.before]? = some l ∧ header? (content l) = some p.name := by
  rw [headerLines, List.mem_filterMap] at h
  rcases h with ⟨⟨l, k⟩, hl, hmap⟩
  rw [Option.map_eq_some_iff] at hmap
  rcases hmap with ⟨name, hname, rfl⟩
  exact ⟨l, List.mk_mem_zipIdx_iff_getElem?.1 hl, hname⟩

/-- Whether the lines before a place are read and leave no function open. -/
def isOutside (ls : List (List Char)) (place : Nat) : Bool :=
  match run 1 (ls.take place) {} with
  | .ok s => s.current.isNone
  | .error _ => false

theorem isOutside_concat {ls : List (List Char)} {place : Nat} (h : place ≤ ls.length)
    (l : List Char) : isOutside (ls ++ [l]) place = isOutside ls place := by
  rw [isOutside, isOutside, List.take_append_of_le_length h]

/-- The names after a run are those in the headers that were met where no function was
    open. -/
theorem names_run {ls : List (List Char)} {s : State} (h : run 1 ls {} = .ok s) :
    s.functions.map (·.name)
      = ((headerLines ls).filter fun p => isOutside ls p.before).map (·.name) := by
  -- A line is judged by the lines before it, so lines are added at the end.
  induction ls using List.reverseRecOn generalizing s with
  | nil =>
      rw [run, Except.ok.injEq] at h
      rw [← h]
      rfl
  | append_singleton ls l ih =>
      rw [run_eq_runLines, runLines_concat_eq_ok_iff, ← run_eq_runLines] at h
      rcases h with ⟨t, hrun, hstep⟩
      -- Earlier headers are judged as before, and the new one by the state `t`.
      have hearlier : (headerLines ls).filter (fun p => isOutside (ls ++ [l]) p.before)
          = (headerLines ls).filter fun p => isOutside ls p.before := by
        refine List.filter_congr ?_
        intro p hp
        rcases exists_line_of_mem_headerLines hp with ⟨k, hk, -⟩
        exact isOutside_concat (Nat.le_of_lt (List.getElem?_eq_some_iff.1 hk).1) l
      have hnew : isOutside (ls ++ [l]) ls.length = t.current.isNone := by
        rw [isOutside_concat (Nat.le_refl _), isOutside, List.take_length, hrun]
      rw [(move_of_step hstep).names, ih hrun, headerLines_concat, List.filter_append, hearlier,
        List.map_append]
      congr 1
      cases header? (content l) with
      | none => simp
      | some name => cases hopen : t.current.isNone <;> simp [hnew, hopen]

/-! ### Instructions stay -/

theorem OpenFunction.hasOpcode_startBlock {f : OpenFunction} {opcode : String}
    (h : HasOpcode f.close opcode) (label : String) :
    HasOpcode (f.startBlock label).close opcode := by
  rcases h with ⟨b, hb, hi⟩
  refine ⟨b, ?_, hi⟩
  rw [OpenFunction.close, OpenFunction.blocks_startBlock, Array.toList_push]
  exact List.mem_append_left _ hb

theorem OpenFunction.hasOpcode_push {f : OpenFunction} {opcode : String}
    (h : HasOpcode f.close opcode) (j : Instruction) : HasOpcode (f.push j).close opcode := by
  rcases h with ⟨b, hb, i, hi, hopcode⟩
  rcases OpenFunction.mem_blocks.1 hb with hearlier | hcurrent
  · exact ⟨b, OpenFunction.mem_blocks.2 (.inl hearlier), i, hi, hopcode⟩
  · -- The block being filled is replaced by one with more in it.
    refine ⟨b.push j, OpenFunction.mem_blocks.2 (.inr ?_), i, ?_, hopcode⟩
    · rw [OpenFunction.push, hcurrent, Option.getD_some]
    · rw [Block.push, Array.toList_push]
      exact List.mem_append_left _ hi

theorem OpenFunction.hasOpcode_push_self (f : OpenFunction) (i : Instruction) :
    HasOpcode (f.push i).close i.opcode := by
  refine ⟨_, OpenFunction.mem_blocks.2 (.inr rfl), i, ?_, rfl⟩
  rw [Block.push, Array.toList_push]
  exact List.mem_append_right _ List.mem_cons_self

theorem State.mem_functions {s : State} {d : FunctionDef} :
    d ∈ s.functions ↔ d ∈ s.finished.toList ∨ ∃ f, s.current = some f ∧ f.close = d := by
  simp [State.functions]

/-- An instruction that a function has stays in a function of this name, whatever the
    line is. -/
theorem Move.hasOpcode {number : Nat} {line : List Char} {s s' : State} {name opcode : String}
    (h : Move number line s s') (hs : ∃ d ∈ s.functions, d.name = name ∧ HasOpcode d opcode) :
    ∃ d ∈ s'.functions, d.name = name ∧ HasOpcode d opcode := by
  rcases hs with ⟨d, hd, hname, hopcode⟩
  rcases State.mem_functions.1 hd with hfinished | ⟨f, hf, rfl⟩
  · -- Finished functions are never touched.
    refine ⟨d, State.mem_functions.2 (.inl ?_), hname, hopcode⟩
    cases h with
    | brace _ _ _ =>
        rw [Array.toList_push]
        exact List.mem_append_left _ hfinished
    | _ => exact hfinished
  · cases h with
    | blank _ => exact ⟨_, hd, hname, hopcode⟩
    | outside hnone _ => rw [hf] at hnone; cases hnone
    | header hnone _ => rw [hf] at hnone; cases hnone
    | table _ _ => exact ⟨_, State.mem_functions.2 (.inr ⟨f, hf, rfl⟩), hname, hopcode⟩
    | brace hs _ _ =>
        rw [hf, Option.some.injEq] at hs
        subst hs
        exact ⟨_, State.mem_functions.2 (.inl (by simp)), hname, hopcode⟩
    | label hs _ _ =>
        rw [hf, Option.some.injEq] at hs
        subst hs
        exact ⟨_, State.mem_functions.2 (.inr ⟨_, rfl, rfl⟩), hname,
          OpenFunction.hasOpcode_startBlock hopcode _⟩
    | terminator _ _ _ => exact ⟨_, State.mem_functions.2 (.inr ⟨f, hf, rfl⟩), hname, hopcode⟩
    | instruction hs _ _ =>
        rw [hf, Option.some.injEq] at hs
        subst hs
        exact ⟨_, State.mem_functions.2 (.inr ⟨_, rfl, rfl⟩), hname,
          OpenFunction.hasOpcode_push hopcode _⟩

theorem run_hasOpcode {number : Nat} {ls : List (List Char)} {s s' : State} {name opcode : String}
    (hs : ∃ d ∈ s.functions, d.name = name ∧ HasOpcode d opcode)
    (h : run number ls s = .ok s') : ∃ d ∈ s'.functions, d.name = name ∧ HasOpcode d opcode :=
  run_of_move (P := fun s => ∃ d ∈ s.functions, d.name = name ∧ HasOpcode d opcode)
    (fun hs hmove => hmove.hasOpcode hs) hs h

/-! ### Headers as other lines -/

section Header

variable {line : List Char} {name : String}

theorem exists_of_header? (h : header? line = some name) :
    ∃ s, line = "define".toList ++ s ∧ Stops isWordChar s ∧ '@' ∈ s := by
  simp only [header?, Option.bind_eq_bind, Option.bind_eq_some_iff] at h
  rcases h with ⟨s, hs, h⟩
  refine ⟨s, literal?_eq_some_iff.1 hs, ?_⟩
  split at h
  · rename_i hempty
    simp only [Option.bind_eq_some_iff] at h
    rcases h with ⟨t, ht, -⟩
    refine ⟨?_, ?_⟩
    · have hrest := stops_dropWhile isWordChar s
      rwa [← List.takeWhile_append_dropWhile (p := isWordChar) (l := s), List.isEmpty_iff.1 hempty]
    · have hmem : '@' ∈ s.dropWhile (· != '@') := by
        rw [char?_eq_some_iff.1 ht]
        exact List.mem_cons_self
      exact (List.dropWhile_suffix _).subset hmem
  · cases h

theorem label?_of_header? (h : header? line = some name) : label? line = none := by
  rcases exists_of_header? h with ⟨s, rfl, -, hat⟩
  rw [Option.eq_none_iff_forall_not_mem]
  intro label hlabel
  simp only [label?, Option.bind_eq_bind, Option.bind_eq_some_iff, Option.mem_def] at hlabel
  rcases hlabel with ⟨⟨w, r⟩, hcut, hcolon⟩
  split at hcolon
  · rename_i hr
    rcases word?_eq_some_iff.1 hcut with ⟨hline, ⟨-, hw⟩, -⟩
    -- A label is a name and a colon, and neither holds the `@` of a header.
    have hmem : '@' ∈ w ++ [':'] := by
      rw [← show r = [':'] from hr, ← hline]
      exact List.mem_append_right _ hat
    rcases List.mem_append.1 hmem with hmem | hmem
    · exact absurd (hw _ hmem) (by decide)
    · exact absurd hmem (by decide)
  · cases hcolon

theorem isTerminator_of_header? (h : header? line = some name) : isTerminator line = false := by
  rcases exists_of_header? h with ⟨s, rfl, -, -⟩
  have hletter : ∀ w ∈ terminators, w.toList.head? ≠ some 'd' := by decide
  rw [isTerminator, ← Bool.not_eq_true, List.contains_iff_mem]
  intro hmem
  refine hletter _ hmem ?_
  rw [firstWord, String.toList_ofList]
  rfl

/-- A header is never a call, so where it is read as an instruction it is one that is
    named like the first word of every header. -/
theorem opcode_of_header? (h : header? line = some name) {number : Nat} {i : Instruction}
    (hi : instruction number line = .ok i) : i.opcode = "define" := by
  rcases exists_of_header? h with ⟨s, rfl, hs, -⟩
  have hcall : call? ("define".toList ++ s) = none := rfl
  have hlower : BeginsLower "define".toList := ⟨'d', "efine".toList, rfl, by decide⟩
  have hplain := plain?_boundText none hlower (List.all_eq_true.1 rfl) hs
  rw [instruction, hcall] at hi
  split at hi
  · cases hi
  · rw [show "define".toList ++ s = boundText none ++ ("define".toList ++ s) from rfl,
      hplain] at hi
    injection hi with hi
    rw [← hi]
    rfl

end Header

/-! ### The functions of a text -/

theorem run_firstLines (count number : Nat) (text : String) (s : State) :
    run number (lines (firstLines count text).toList) s
      = run number ((lines text.toList).take count) s := by
  rw [run_eq_runLines]
  exact tolerates_step.runLines_firstLines count number text s

theorem isOk_functions_firstLines (count : Nat) (text : String) :
    (functions (firstLines count text)).isOk = isOutside (lines text.toList) count := by
  rw [functions, isOutside, run_firstLines]
  cases run 1 ((lines text.toList).take count) {} with
  | error err => rfl
  | ok s =>
      simp only [State.finish]
      cases s.current <;> rfl

/-- A line in a text that is read divides the run in two. -/
theorem exists_run_of_getElem? {ls : List (List Char)} {place : Nat} {l : List Char} {s' : State}
    (hl : ls[place]? = some l) (h : run 1 ls {} = .ok s') :
    ∃ s t number, run 1 (ls.take place) {} = .ok s ∧ step number (content l) s = .ok t
      ∧ run (number + 1) (ls.drop (place + 1)) t = .ok s' := by
  rw [eq_take_append_cons hl, run_append] at h
  cases hbefore : run 1 (ls.take place) {} with
  | error err =>
      rw [hbefore] at h
      cases h
  | ok s =>
      simp only [hbefore, Except.bind, run] at h
      split at h
      · rename_i t hstep
        exact ⟨s, t, _, rfl, hstep, h⟩
      · cases h

/-- A header inside of an open function is a row of a table, or it becomes an
    instruction of this function. -/
theorem Move.absorbs {number : Nat} {line : List Char} {name : String} {s s' : State}
    {f : OpenFunction} (h : Move number line s s') (hline : header? line = some name)
    (hf : s.current = some f) :
    s.inTable = true ∨ ∃ d ∈ s'.functions, d.name = f.name ∧ HasOpcode d "define" := by
  cases h with
  | blank h => rw [h] at hline; cases hline
  | outside hs _ => rw [hf] at hs; cases hs
  | header hs _ => rw [hf] at hs; cases hs
  | table _ htable => exact .inl htable
  | brace _ _ h => rw [h] at hline; cases hline
  | label _ _ h => rw [label?_of_header? hline] at h; cases h
  | terminator _ _ h => rw [isTerminator_of_header? hline] at h; cases h
  | @instruction g i hs _ h =>
      rw [hf, Option.some.injEq] at hs
      subst hs
      refine .inr ⟨_, State.mem_functions.2 (.inr ⟨_, rfl, rfl⟩), rfl, ?_⟩
      rw [← opcode_of_header? hline h]
      exact OpenFunction.hasOpcode_push_self f i

/-- Which lines begin a function. The functions of a text correspond one to one, in
    order and by name, to those lines with the shape of a header before which the text
    can be read by itself. So they correspond to all lines of this shape if and only if
    that holds of all of them. Before any other the text is unterminated, and the line
    is passed over in a table or kept as an instruction `define` of the function that is
    open. -/
theorem functions_headers (text : String) (fs : Array FunctionDef) (h : functions text = .ok fs) :
    fs.toList.map (·.name)
        = ((headers text).filter fun p => (functions (firstLines p.before text)).isOk).map (·.name)
      ∧ (fs.toList.map (·.name) = (headers text).map (·.name)
          ↔ ∀ p ∈ headers text, (functions (firstLines p.before text)).isOk = true)
      ∧ ∀ p ∈ headers text, (functions (firstLines p.before text)).isOk = true
          ∨ ∃ name, functions (firstLines p.before text) = .error (.unterminatedFunction name)
              ∧ (EndsInTable (firstLines p.before text)
                  ∨ ∃ d ∈ fs.toList, d.name = name ∧ HasOpcode d "define") := by
  have hrun := run_of_functions_eq_ok h
  have hfunctions : (State.behind fs {}).functions = fs.toList := by
    simp [State.functions, State.behind]
  have hnames : fs.toList.map (·.name) = ((headers text).filter fun p =>
      (functions (firstLines p.before text)).isOk).map (·.name) := by
    simp only [isOk_functions_firstLines]
    rw [← hfunctions, names_run hrun]
    rfl
  refine ⟨hnames, ?_, ?_⟩
  · rw [hnames, ← List.filter_eq_self]
    refine ⟨fun heq => ?_, fun heq => by rw [heq]⟩
    -- Nothing can be left out without the list of names becoming shorter.
    have hlength := congrArg List.length heq
    rw [List.length_map, List.length_map] at hlength
    exact List.filter_sublist.eq_of_length hlength
  · intro p hp
    rcases exists_line_of_mem_headerLines hp with ⟨l, hl, hheader⟩
    rcases exists_run_of_getElem? hl hrun with ⟨s, t, number, hbefore, hstep, hafter⟩
    rw [← run_firstLines] at hbefore
    cases hcurrent : s.current with
    | none =>
        left
        rw [functions, hbefore]
        simp only [State.finish, hcurrent]
        rfl
    | some f =>
        right
        refine ⟨f.name, ?_, ?_⟩
        · rw [functions, hbefore]
          simp only [State.finish, hcurrent]
        · rcases (move_of_step hstep).absorbs hheader hcurrent with htable | habsorbed
          · exact .inl ⟨s, f, hbefore, hcurrent, htable⟩
          · rw [← hfunctions]
            exact .inr (run_hasOpcode habsorbed hafter)

/-- A text with headers in each of the three places: outside, in a table, and in a
    function that is open. -/
def nestedText : String :=
  "define void @outer() \x7b\nswitch i64 %n, label %a [\ndefine void @row()\n]\n"
    ++ "define void @inner() \x7b\nret void\n\x7d"

/-- The function that is read from it. -/
def outerFunction : FunctionDef where
  name := "outer"
  blocks := #[{ name := "0", instructions :=
    #[{ opcode := "define", operands := [.raw "void @inner() \x7b"] }] }]

theorem functions_headers_nestedText :
    functions nestedText = .ok #[outerFunction]
      ∧ headers nestedText = [⟨0, "outer"⟩, ⟨2, "row"⟩, ⟨4, "inner"⟩]
      ∧ ((headers nestedText).filter fun p =>
          (functions (firstLines p.before nestedText)).isOk).map (·.name) = ["outer"]
      ∧ ∃ name, functions (firstLines 4 nestedText) = .error (.unterminatedFunction name)
          ∧ (EndsInTable (firstLines 4 nestedText)
              ∨ ∃ d ∈ [outerFunction], d.name = name ∧ HasOpcode d "define") := by
  have hread : functions nestedText = .ok #[outerFunction] := by decide +kernel
  have hheaders : headers nestedText = [⟨0, "outer"⟩, ⟨2, "row"⟩, ⟨4, "inner"⟩] := by
    decide +kernel
  have hinner : ⟨4, "inner"⟩ ∈ headers nestedText := by
    rw [hheaders]
    decide
  rcases functions_headers nestedText _ hread with ⟨hnames, -, hother⟩
  refine ⟨hread, hheaders, hnames.symm, ?_⟩
  exact (hother _ hinner).resolve_left (by decide +kernel)

/-- Two definitions, of which the first lacks its closing brace. -/
def unclosedText : String :=
  "define void @first() \x7b\nentry:\n  ret void\n\ndefine void @second() \x7b\nentry:\n"
    ++ "  ret void\n\x7d\n"

/-- The only function that is read from it. -/
def firstFunction : FunctionDef where
  name := "first"
  blocks := #[{ name := "entry", instructions :=
    #[{ opcode := "define", operands := [.raw "void @second() \x7b"] }] }, { name := "entry" }]

/-- A definition can be lost. The missing brace is not reported, and the second
    definition is an instruction of the first. -/
theorem not_headers_unclosedText :
    functions unclosedText = .ok #[firstFunction]
      ∧ functions unclosedText ≠ .error (.unterminatedFunction "first")
      ∧ [firstFunction].map (·.name) ≠ (headers unclosedText).map (·.name) := by
  have hread : functions unclosedText = .ok #[firstFunction] := by decide +kernel
  have hheaders : (headers unclosedText).map (·.name) = ["first", "second"] := by decide +kernel
  refine ⟨hread, ?_, ?_⟩
  · rw [hread]
    exact nofun
  · rw [hheaders]
    decide

end Assembly

end QuantumIR
