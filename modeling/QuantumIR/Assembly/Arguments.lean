import QuantumIR.Operand.Parser

/-!
# Argument Lists

Cutting an argument list at its top level commas. Types can hold commas of their
own inside brackets, so the cut follows the depth of nesting; a closing bracket
without an opening one is ignored rather than refused.

## Main definitions

* `depthAfter`: The depth of nesting after a character.
* `segments`: The parts between top level commas, nothing removed.
* `arguments`: The parts without the blanks around them.
* `operands`: The operands of an argument list.

## Theorems

* `segments_ne_nil`: Every text has at least one part.
* `intercalate_segments`: The parts joined with commas give the text again.
-/

namespace QuantumIR

namespace Assembly

open Text

/-- The depth of nesting after a character, never below zero. -/
def depthAfter (depth : Nat) (c : Char) : Nat :=
  if c ∈ ['(', '[', '\x7b', '<'] then depth + 1
  else if c ∈ [')', ']', '\x7d', '>'] then depth - 1
  else depth

/-- The parts between the commas outside all brackets, when the text starts at
    the given depth. -/
def segments : Nat → List Char → List (List Char)
  | _, [] => [[]]
  | depth, c :: s =>
    if c = ',' ∧ depth = 0 then [] :: segments 0 s
    else (segments (depthAfter depth c) s).modifyHead (c :: ·)

theorem segments_ne_nil (depth : Nat) (s : List Char) : segments depth s ≠ [] := by
  induction s generalizing depth with
  | nil => simp [segments]
  | cons c s ih =>
    rw [segments]
    split
    · simp
    · simpa using ih _

/-- Cutting loses nothing: the parts joined with commas give the text again. -/
theorem intercalate_segments (depth : Nat) (s : List Char) :
    [','].intercalate (segments depth s) = s := by
  induction s generalizing depth with
  | nil => rfl
  | cons c s ih =>
    rw [segments]
    split
    · rename_i h
      rcases hs : segments 0 s with _ | ⟨p, ps⟩
      · exact absurd hs (segments_ne_nil 0 s)
      · have hjoin := ih 0
        rw [hs] at hjoin
        simp only [List.intercalate, List.intersperse, h.1] at hjoin ⊢
        simpa using hjoin
    · rcases hs : segments (depthAfter depth c) s with _ | ⟨p, ps⟩
      · exact absurd hs (segments_ne_nil _ s)
      · have hjoin := ih (depthAfter depth c)
        rw [hs] at hjoin
        cases ps <;> simpa [List.intercalate, List.intersperse] using hjoin

/-- Removes the last part if it is empty. -/
def dropEmptyLast (parts : List (List Char)) : List (List Char) :=
  if parts.getLast? = some [] then parts.dropLast else parts

/-- The arguments of a list: its parts without the blanks around them. Only the
    last one may be missing, so a blank text has no arguments. -/
def arguments (s : List Char) : List (List Char) :=
  dropEmptyLast ((segments 0 s).map trim)

/-- The operands of an argument list. -/
def operands (s : List Char) : List Operand :=
  (arguments s).map Operand.parse

end Assembly

end QuantumIR
