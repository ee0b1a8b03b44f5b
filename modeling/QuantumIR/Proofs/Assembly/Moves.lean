import QuantumIR.Assembly.Reader
import QuantumIR.Proofs.Text.Cut

/-!
# What a Line of Assembly Can Do

The reader tests a line for one shape after the other, so every fact about what it
has read would repeat the same case distinction. `Move` states it once: the ways in
which a line that is accepted changes the state, each with the conditions under
which it does so. A property of the state is then kept by a run if each of the moves
keeps it.

`Settled` is the property that makes functions independent of each other. The flag
for a table is no part of the open function, and a closing brace does not take it
down, so a table that is left open could swallow lines of the next function. It
cannot, for a brace that stands in a table closes nothing.

`Blocks` holds of a state if a predicate holds of every block that the state knows,
finished or open. As blocks are only started with a name and filled with
instructions, it is enough that the predicate holds of fresh blocks and is not lost
when an instruction is added.

## Main definitions

* `Move`: The effect of an accepted line, by cases.
* `State.Settled`: No table goes on outside of all functions.
* `State.Blocks`: A predicate holds of all blocks read so far.
* `IsName`: A non-empty text of name characters.

## Theorems

* `move_of_step`: Every accepted line makes a move.
* `run_of_move`: What every move keeps, a run keeps.
* `settled_run`: No run leaves a table open outside of all functions.
* `run_blocks`, `functions_blocks`: A predicate that fresh blocks have and adding
  keeps holds of all blocks that are read.
* `functions_isName`: Blocks that are read have names.
-/

namespace QuantumIR

namespace Assembly

open Text

/-- The effect of a line that is accepted. -/
inductive Move (number : Nat) (line : List Char) (s : State) : State → Prop
  | blank (h : line = []) : Move number line s s
  | outside (hs : s.current = none) (h : header? line = none) : Move number line s s
  | header {name : String} (hs : s.current = none) (h : header? line = some name) :
      Move number line s { s with current := some { name } }
  | table {f : OpenFunction} (hs : s.current = some f) (htable : s.inTable = true) :
      Move number line s { s with inTable := !line.contains ']' }
  | brace {f : OpenFunction} (hs : s.current = some f) (htable : s.inTable = false)
      (h : line = ['\x7d']) :
      Move number line s { s with finished := s.finished.push f.close, current := none }
  | label {f : OpenFunction} {label : String} (hs : s.current = some f)
      (htable : s.inTable = false) (h : label? line = some label) :
      Move number line s { s with current := some (f.startBlock label) }
  | terminator {f : OpenFunction} (hs : s.current = some f) (htable : s.inTable = false)
      (h : isTerminator line = true) :
      Move number line s { s with inTable := opensTable line }
  | instruction {f : OpenFunction} {i : Instruction} (hs : s.current = some f)
      (htable : s.inTable = false) (h : instruction number line = .ok i) :
      Move number line s { s with current := some (f.push i) }

/-- Every line that is accepted makes a move. -/
theorem move_of_step {number : Nat} {line : List Char} {s s' : State}
    (h : step number line s = .ok s') : Move number line s s' := by
  rw [step] at h
  split at h
  · rename_i hempty
    injection h with h
    rw [← h]
    exact .blank (List.isEmpty_iff.1 hempty)
  cases hs : s.current with
  | none =>
      rw [hs] at h
      simp only [stepOutside, Except.ok.injEq] at h
      cases hheader : header? line with
      | none =>
          rw [hheader] at h
          rw [← h]
          exact .outside hs hheader
      | some name =>
          rw [hheader] at h
          rw [← h]
          exact .header hs hheader
  | some f =>
      rw [hs] at h
      simp only [stepInside] at h
      -- The tests are made in the order in which the reader makes them.
      by_cases htable : s.inTable = true
      · rw [if_pos htable, Except.ok.injEq] at h
        rw [← h]
        exact .table hs htable
      rw [if_neg htable] at h
      rw [Bool.not_eq_true] at htable
      by_cases hbrace : line = ['\x7d']
      · rw [if_pos hbrace, Except.ok.injEq] at h
        rw [← h]
        exact .brace hs htable hbrace
      rw [if_neg hbrace] at h
      cases hlabel : label? line with
      | some label =>
          simp only [hlabel, Except.ok.injEq] at h
          rw [← h]
          exact .label hs htable hlabel
      | none =>
          simp only [hlabel] at h
          by_cases hterminator : isTerminator line = true
          · rw [if_pos hterminator, Except.ok.injEq] at h
            rw [← h]
            exact .terminator hs htable hterminator
          rw [if_neg hterminator] at h
          cases hread : Assembly.instruction number line with
          | error err =>
              rw [hread] at h
              cases h
          | ok i =>
              rw [hread] at h
              injection h with h
              rw [← h]
              exact .instruction hs htable hread

/-- What every move keeps, a run keeps. -/
theorem run_of_move {P : State → Prop}
    (hmove : ∀ {number line s s'}, P s → Move number line s s' → P s') {number : Nat}
    {ls : List (List Char)} {s s' : State} (hs : P s) (h : run number ls s = .ok s') : P s' := by
  induction ls generalizing number s with
  | nil =>
      rw [run, Except.ok.injEq] at h
      rwa [← h]
  | cons l ls ih =>
      rw [run] at h
      cases hstep : step number (content l) s with
      | error err =>
          rw [hstep] at h
          cases h
      | ok t =>
          rw [hstep] at h
          exact ih (hmove hs (move_of_step hstep)) h

/-! ### Tables -/

/-- Where no function is open, no table goes on. -/
def State.Settled (s : State) : Prop :=
  s.current = none → s.inTable = false

/-- A line keeps the state settled. Tables begin and go on only inside of functions, and a
    function is closed only where no table goes on. -/
theorem State.Settled.move {number : Nat} {line : List Char} {s s' : State} (hs : s.Settled)
    (h : Move number line s s') : s'.Settled := by
  cases h with
  | blank _ => exact hs
  | outside _ _ => exact hs
  | brace _ htable _ => exact fun _ => htable
  | table hopen _ | terminator hopen _ _ =>
      -- The flag may go up, but the function stays open.
      intro hnone
      rw [hopen] at hnone
      cases hnone
  | header _ _ | label _ _ _ | instruction _ _ _ =>
      intro hnone
      cases hnone

/-- After any lines that are read, well formed or not, no table goes on where no function
    is open. -/
theorem settled_run {number : Nat} {ls : List (List Char)} {s s' : State} (hs : s.Settled)
    (h : run number ls s = .ok s') : s'.Settled :=
  run_of_move (fun hs hmove => hs.move hmove) hs h

/-! ### Blocks -/

/-- The predicate holds of every block that has been read, in finished functions and
    in the open one. -/
structure State.Blocks (P : Block → Prop) (s : State) : Prop where
  finished : ∀ f ∈ s.finished.toList, ∀ b ∈ f.blocks.toList, P b
  current : ∀ f ∈ s.current, ∀ b ∈ f.blocks.toList, P b

section Blocks

variable {P : Block → Prop}

theorem OpenFunction.mem_blocks {f : OpenFunction} {b : Block} :
    b ∈ f.blocks.toList ↔ b ∈ f.earlier.toList ∨ f.current = some b := by
  cases hcurrent : f.current with
  | none => simp [OpenFunction.blocks, hcurrent]
  | some c => simp [OpenFunction.blocks, hcurrent, eq_comm]

theorem OpenFunction.blocks_push (himplicit : P { name := OpenFunction.implicitLabel })
    (hpush : ∀ b i, P b → P (b.push i)) {f : OpenFunction} (h : ∀ b ∈ f.blocks.toList, P b)
    (i : Instruction) : ∀ b ∈ (f.push i).blocks.toList, P b := by
  have hcurrent : P (f.current.getD { name := OpenFunction.implicitLabel }) := by
    cases hf : f.current with
    | none => exact himplicit
    | some b => exact h b (OpenFunction.mem_blocks.2 (.inr hf))
  intro b hb
  rcases OpenFunction.mem_blocks.1 hb with hb | hb
  · exact h b (OpenFunction.mem_blocks.2 (.inl hb))
  · rw [OpenFunction.push, Option.some.injEq] at hb
    rw [← hb]
    exact hpush _ i hcurrent

/-- What the open function becomes matters only by its blocks. -/
theorem State.Blocks.reopen {s : State} (hs : s.Blocks P) {f : OpenFunction}
    (hf : ∀ b ∈ f.blocks.toList, P b) : State.Blocks P { s with current := some f } := by
  refine ⟨hs.finished, ?_⟩
  intro g hg
  rw [Option.mem_some_iff] at hg
  rwa [← hg]

/-- One line keeps a predicate that fresh blocks have and that adding keeps. -/
theorem State.Blocks.move (himplicit : P { name := OpenFunction.implicitLabel })
    (hlabel : ∀ line label, label? line = some label → P { name := label })
    (hpush : ∀ b i, P b → P (b.push i)) {number : Nat} {line : List Char} {s s' : State}
    (hs : s.Blocks P) (h : Move number line s s') : s'.Blocks P := by
  cases h with
  | blank _ => exact hs
  | outside _ _ => exact hs
  | header _ _ => exact hs.reopen (List.forall_mem_nil _)
  | table _ _ => exact ⟨hs.finished, hs.current⟩
  | @brace f hf _ _ =>
      refine ⟨?_, fun g hg => absurd hg (by simp)⟩
      intro g hg b hb
      -- The function that is closed has the blocks that it had while it was open.
      rw [Array.toList_push, List.mem_append, List.mem_singleton] at hg
      rcases hg with hg | hg
      · exact hs.finished g hg b hb
      · rw [hg] at hb
        exact hs.current f hf b hb
  | @label f name hf _ hname =>
      refine hs.reopen ?_
      intro b hb
      rw [OpenFunction.blocks_startBlock, Array.toList_push, List.mem_append,
        List.mem_singleton] at hb
      rcases hb with hb | hb
      · exact hs.current f hf b hb
      · rw [hb]
        exact hlabel line name hname
  | terminator _ _ _ => exact ⟨hs.finished, hs.current⟩
  | @instruction f i hf _ _ =>
      exact hs.reopen (OpenFunction.blocks_push himplicit hpush (hs.current f hf) i)

theorem run_blocks (himplicit : P { name := OpenFunction.implicitLabel })
    (hlabel : ∀ line label, label? line = some label → P { name := label })
    (hpush : ∀ b i, P b → P (b.push i)) {number : Nat} {ls : List (List Char)} {s s' : State}
    (hs : s.Blocks P) (h : run number ls s = .ok s') : s'.Blocks P :=
  run_of_move (fun hs hmove => hs.move himplicit hlabel hpush hmove) hs h

/-- What fresh blocks have and adding keeps holds of all blocks that are read. -/
theorem functions_blocks (himplicit : P { name := OpenFunction.implicitLabel })
    (hlabel : ∀ line label, label? line = some label → P { name := label })
    (hpush : ∀ b i, P b → P (b.push i)) {text : String} {fs : Array FunctionDef}
    (h : functions text = .ok fs) : ∀ f ∈ fs.toList, ∀ b ∈ f.blocks.toList, P b := by
  rw [functions] at h
  cases hrun : run 1 (lines text.toList) {} with
  | error err =>
      rw [hrun] at h
      cases h
  | ok s =>
      have hblocks : s.Blocks P :=
        run_blocks himplicit hlabel hpush ⟨by simp, by simp⟩ hrun
      rw [hrun] at h
      simp only [State.finish] at h
      -- A function that is still open makes an error of everything.
      cases hcurrent : s.current with
      | some f =>
          rw [hcurrent] at h
          cases h
      | none =>
          simp only [hcurrent, Except.ok.injEq] at h
          rw [← h]
          exact hblocks.finished

end Blocks

/-- The text is a name: not empty, and without other characters than names have. -/
def IsName (s : String) : Prop :=
  s.toList ≠ [] ∧ ∀ c ∈ s.toList, isNameChar c = true

instance (s : String) : Decidable (IsName s) :=
  @instDecidableAnd _ _ _ (List.decidableBAll _ _)

theorem isName_of_label? {line : List Char} {label : String} (h : label? line = some label) :
    IsName label := by
  simp only [label?, word?, Option.bind_eq_bind] at h
  split at h
  · cases h
  · rename_i hne
    rw [List.isEmpty_iff] at hne
    simp only [Option.bind_some] at h
    split at h
    · injection h with h
      rw [← h, IsName, String.toList_ofList]
      exact ⟨hne, fun c hc => List.all_eq_true.1 List.all_takeWhile c hc⟩
    · cases h

/-- All blocks that are read have names. -/
theorem functions_isName {text : String} {fs : Array FunctionDef} (h : functions text = .ok fs) :
    ∀ f ∈ fs.toList, ∀ b ∈ f.blocks.toList, IsName b.name := by
  refine functions_blocks (P := fun b => IsName b.name) ?_ ?_ ?_ h
  · exact show IsName OpenFunction.implicitLabel by decide
  · exact fun _ _ => isName_of_label?
  · exact fun _ _ hb => hb

end Assembly

end QuantumIR
