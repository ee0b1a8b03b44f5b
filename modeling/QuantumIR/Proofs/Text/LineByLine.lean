import QuantumIR.Proofs.Text.Cut

/-!
# Reading Line by Line

What follows from reading a text one line after the other, whatever a line means.

A reader of this kind is a function that takes the number of a line, the line and a
state, and either gives the next state or refuses the line. The first line that is
refused decides about the whole text, so what becomes of a text can be said of its
first lines: they are read as they would be by themselves, up to the line that is
refused, and no text that begins with the same lines fares any better. `RefusedAt`
names the place of that line. There is one at most, and there is one exactly if the
text is refused.

Lines that are joined by line feeds are not always cut into the same lines again. A
carriage return may be lost at the end of each, and the last line if it is empty. A
reader that `Tolerates` both reads the joined lines like the lines themselves. With
a carriage return and a line feed after every line nothing is lost, so any lines are
the lines of some text.

## Main definitions

* `runLines`: The effect of lines, up to the first that is refused.
* `RefusedAt`: The first line that is refused stands at a given place.
* `Tolerates`: Carriage returns at the end and empty lines make no difference.
* `BeginAlike`: Two texts have the same first lines.
* `endLines`: A text with given lines.

## Theorems

* `runLines_append`, `runLines_concat_eq_ok_iff`: Lines after lines.
* `runLines_eq_error_iff`: Lines are refused exactly if one of them is the first.
* `RefusedAt.unique`: There is one such line at most.
* `RefusedAt.of_take_eq`: It depends on the lines up to it only.
* `RefusedAt.take_eq_ok_iff`: Exactly the lines before it are read by themselves.
* `runLines_lines_intercalate`, `runLines_lines`, `runLines_firstLines`: Lines that
  are joined are read one after the other.
* `lines_endLines`: A text with given lines has these lines.
-/

namespace QuantumIR

namespace Text

section Runs

variable {σ ε : Type}

/-- The effect of lines, of which the first has the given number, up to the first
    that is refused. -/
def runLines (step : Nat → List Char → σ → Except ε σ) :
    Nat → List (List Char) → σ → Except ε σ
  | _, [], s => .ok s
  | number, l :: ls, s =>
    match step number l s with
    | .ok s => runLines step (number + 1) ls s
    | .error err => .error err

/-- The line at the place is the first that is refused, and with the given error. The
    number of a line is one more than its place. -/
inductive RefusedAt (step : Nat → List Char → σ → Except ε σ) (start : σ)
    (ls : List (List Char)) (place : Nat) (err : ε) : Prop
  | intro {l : List Char} {s : σ} (hline : ls[place]? = some l)
      (hbefore : runLines step 1 (ls.take place) start = .ok s)
      (hstep : step (place + 1) l s = .error err) : RefusedAt step start ls place err

variable {step : Nat → List Char → σ → Except ε σ} {start : σ} {ls ms : List (List Char)}
  {place : Nat} {err : ε}

theorem runLines_append (number : Nat) (ls ms : List (List Char)) (s : σ) :
    runLines step number (ls ++ ms) s
      = (runLines step number ls s).bind (runLines step (number + ls.length) ms) := by
  induction ls generalizing number s with
  | nil => rfl
  | cons l ls ih =>
      rw [List.cons_append, runLines, runLines]
      cases step number l s with
      | error err => rfl
      | ok s' =>
          simp only [ih, List.length_cons]
          rw [Nat.add_assoc, Nat.add_comm 1]

theorem runLines_singleton (number : Nat) (l : List Char) (s : σ) :
    runLines step number [l] s = step number l s := by
  rw [runLines]
  cases step number l s <;> rfl

/-- The last line is read in the state that the others leave. -/
theorem runLines_concat_eq_ok_iff {l : List Char} {s : σ} :
    runLines step 1 (ls ++ [l]) start = .ok s
      ↔ ∃ t, runLines step 1 ls start = .ok t ∧ step (ls.length + 1) l t = .ok s := by
  rw [runLines_append, Nat.add_comm 1 ls.length]
  cases runLines step 1 ls start with
  | error err => simp [Except.bind]
  | ok t => simp [Except.bind, runLines_singleton]

/-- A line divides a run in what is before it, its own effect and what follows. -/
theorem runLines_append_cons (ls ms : List (List Char)) (l : List Char) (s : σ) :
    runLines step 1 (ls ++ l :: ms) s
      = (runLines step 1 ls s).bind fun t =>
          (step (ls.length + 1) l t).bind (runLines step (ls.length + 2) ms) := by
  rw [runLines_append]
  congr 1
  funext t
  rw [runLines, Nat.add_comm 1 ls.length]
  cases step (ls.length + 1) l t <;> rfl

theorem eq_take_append_cons {l : List Char} (h : ls[place]? = some l) :
    ls = ls.take place ++ l :: ls.drop (place + 1) := by
  rcases List.getElem?_eq_some_iff.1 h with ⟨hlt, rfl⟩
  rw [← List.drop_eq_getElem_cons hlt, List.take_append_drop]

namespace RefusedAt

theorem lt_length (h : RefusedAt step start ls place err) : place < ls.length := by
  rcases h with ⟨hline, -, -⟩
  exact (List.getElem?_eq_some_iff.1 hline).1

/-- What is refused at a place is refused as a whole. -/
theorem runLines_eq (h : RefusedAt step start ls place err) :
    runLines step 1 ls start = .error err := by
  have hlength : (ls.take place).length = place :=
    List.length_take_of_le (Nat.le_of_lt h.lt_length)
  rcases h with ⟨hline, hbefore, hstep⟩
  rw [eq_take_append_cons hline, runLines_append_cons, hbefore, hlength]
  simp only [Except.bind, hstep]

/-- Only the lines up to the refused one matter. -/
theorem of_take_eq (h : RefusedAt step start ls place err)
    (heq : ms.take (place + 1) = ls.take (place + 1)) : RefusedAt step start ms place err := by
  rcases h with ⟨hline, hbefore, hstep⟩
  have hbefore' : ms.take place = ls.take place := by
    have htake := congrArg (List.take place) heq
    rwa [List.take_take, List.take_take, Nat.min_eq_left (Nat.le_succ place)] at htake
  have hline' : ms[place]? = ls[place]? := by
    rw [← List.getElem?_take_of_lt (Nat.lt_succ_self place), heq,
      List.getElem?_take_of_lt (Nat.lt_succ_self place)]
  rw [← hline'] at hline
  rw [← hbefore'] at hbefore
  exact ⟨hline, hbefore, hstep⟩

/-- The lines before the refused one are read by themselves, and no others are. -/
theorem take_eq_ok_iff (h : RefusedAt step start ls place err) {count : Nat} :
    (∃ s, runLines step 1 (ls.take count) start = .ok s) ↔ count ≤ place := by
  constructor
  · rintro ⟨s, hs⟩
    refine Nat.le_of_not_lt fun hlt => ?_
    -- Otherwise the refused line is one of them, and it is refused there as well.
    have hthere : RefusedAt step start (ls.take count) place err := by
      refine h.of_take_eq ?_
      rw [List.take_take, Nat.min_eq_left hlt]
    rw [hthere.runLines_eq] at hs
    cases hs
  · intro hle
    rcases h with ⟨-, hbefore, -⟩
    rw [← List.take_append_drop count (ls.take place), List.take_take, Nat.min_eq_left hle,
      runLines_append] at hbefore
    cases hfirst : runLines step 1 (ls.take count) start with
    | error e =>
        rw [hfirst] at hbefore
        cases hbefore
    | ok s => exact ⟨s, rfl⟩

theorem unique {place' : Nat} {err' : ε} (h : RefusedAt step start ls place err)
    (h' : RefusedAt step start ls place' err') : place = place' := by
  have hread : ∃ s, runLines step 1 (ls.take place) start = .ok s :=
    h.take_eq_ok_iff.2 (Nat.le_refl place)
  have hread' : ∃ s, runLines step 1 (ls.take place') start = .ok s :=
    h'.take_eq_ok_iff.2 (Nat.le_refl place')
  exact Nat.le_antisymm (h'.take_eq_ok_iff.1 hread) (h.take_eq_ok_iff.1 hread')

end RefusedAt

/-- Lines are refused exactly if one of them is the first that is. -/
theorem runLines_eq_error_iff :
    runLines step 1 ls start = .error err ↔ ∃ place, RefusedAt step start ls place err := by
  refine ⟨fun h => ?_, fun ⟨_, h⟩ => h.runLines_eq⟩
  induction ls using List.reverseRecOn with
  | nil => cases h
  | append_singleton ls l ih =>
      cases hbefore : runLines step 1 ls start with
      | error e =>
          -- The line is not reached, and the others are refused already.
          rw [runLines_append, hbefore] at h
          cases h
          rcases ih hbefore with ⟨place, hplace⟩
          refine ⟨place, hplace.of_take_eq ?_⟩
          rw [List.take_append_of_le_length hplace.lt_length]
      | ok s =>
          refine ⟨ls.length, .intro (l := l) (s := s) (by simp) (by simpa using hbefore) ?_⟩
          rw [runLines_append, hbefore] at h
          rw [Nat.add_comm ls.length 1]
          exact (runLines_singleton _ l s).symm.trans h

/-! ### Joined lines -/

/-- A carriage return at the end of a line makes no difference to the reader, and an
    empty line has no effect. -/
structure Tolerates (step : Nat → List Char → σ → Except ε σ) : Prop where
  dropReturn : ∀ number l s, step number (dropReturn l) s = step number l s
  empty : ∀ number s, step number [] s = .ok s

theorem Tolerates.runLines_map_dropReturn (h : Tolerates step) (number : Nat)
    (ls : List (List Char)) (s : σ) :
    runLines step number (ls.map Text.dropReturn) s = runLines step number ls s := by
  induction ls generalizing number s with
  | nil => rfl
  | cons l ls ih => simp only [List.map_cons, runLines, h.dropReturn, ih]

/-- Lines that are joined by line feeds have the effect that they have one after the
    other: what joining them loses makes no difference. -/
theorem Tolerates.runLines_lines_intercalate (h : Tolerates step)
    (hfeed : ∀ l ∈ ls, '\n' ∉ l) (number : Nat) (s : σ) :
    runLines step number (lines (['\n'].intercalate ls)) s = runLines step number ls s := by
  rcases List.eq_nil_or_concat ls with rfl | ⟨ls, last, rfl⟩
  · rfl
  rw [List.concat_eq_append] at hfeed ⊢
  rw [lines_intercalate hfeed, runLines_append, runLines_append, h.runLines_map_dropReturn,
    List.length_map]
  congr 1
  funext t
  -- An empty last line is no line at all, and would have no effect.
  by_cases hlast : last = []
  · rw [if_pos hlast, hlast, runLines_singleton, h.empty, runLines]
  · rw [if_neg hlast]

/-- A text may be read by its pieces between line feeds. -/
theorem Tolerates.runLines_lines (h : Tolerates step) (number : Nat) (t : List Char) (s : σ) :
    runLines step number (lines t) s = runLines step number (t.splitOn '\n') s := by
  have hfeed : ∀ l ∈ t.splitOn '\n', '\n' ∉ l := fun _ => notMem_of_mem_splitOn
  rw [← h.runLines_lines_intercalate hfeed, List.intercalate_splitOn]

/-- The first lines of a text, as a text of their own, are read like these lines. -/
theorem Tolerates.runLines_firstLines (h : Tolerates step) (count number : Nat) (text : String)
    (s : σ) :
    runLines step number (lines (firstLines count text).toList) s
      = runLines step number ((lines text.toList).take count) s := by
  rw [firstLines, String.toList_ofList]
  exact h.runLines_lines_intercalate (fun l hl => notMem_of_mem_lines (List.mem_of_mem_take hl))
    number s

end Runs

/-! ### Texts with the same first lines -/

/-- The two texts have the same first lines, as many as are counted. -/
def BeginAlike (count : Nat) (text other : String) : Prop :=
  (lines other.toList).take count = (lines text.toList).take count

/-- A text with the given lines, each of which is ended by a carriage return and a line
    feed. -/
def endLines (ls : List (List Char)) : String :=
  String.ofList (ls.flatMap (· ++ ['\r', '\n']))

theorem dropReturn_concat (l : List Char) : dropReturn (l ++ ['\r']) = l := by
  rw [dropReturn, if_pos List.getLast?_concat, List.dropLast_concat]

/-- Nothing is lost of lines that are ended in this way. -/
theorem lines_endLines {ls : List (List Char)} (h : ∀ l ∈ ls, '\n' ∉ l) :
    lines (endLines ls).toList = ls := by
  have htext : ls.flatMap (· ++ ['\r', '\n'])
      = ['\n'].intercalate (ls.map (· ++ ['\r']) ++ [[]]) := by
    induction ls with
    | nil => rfl
    | cons l ls ih =>
        rw [List.flatMap_cons, ih fun m hm => h m (List.mem_cons_of_mem _ hm), List.map_cons,
          List.cons_append]
        cases ls <;> simp [List.intercalate_cons_cons]
  have hfeed : ∀ l ∈ ls.map (· ++ ['\r']) ++ [[]], '\n' ∉ l := by
    intro l hl
    rw [List.mem_append, List.mem_map, List.mem_singleton] at hl
    rcases hl with ⟨m, hm, rfl⟩ | rfl
    · simp [h m hm]
    · exact List.not_mem_nil
  rw [endLines, String.toList_ofList, htext, lines_intercalate hfeed, if_pos rfl, List.append_nil,
    List.map_map]
  exact List.map_id'' dropReturn_concat ls

end Text

end QuantumIR
