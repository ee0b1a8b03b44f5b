/-!
# Blanks

What counts as white space, and removing it at the ends of a text.

Two classes are in use. Whole lines, arguments and values are trimmed by the
Unicode property `White_Space`, so that a no-break space at the end of a line
is as invisible as a plain one. Between the tokens of a line only the six
ASCII spaces separate, because the line shapes are ASCII throughout.

Texts are lists of characters here: every reader of the library takes a list
apart from the front, and a `String` appears only in the data it produces.

## Main definitions

* `blankRanges`: The code points with the property `White_Space`.
* `isBlank`: Whether a character has that property.
* `isSpace`: Whether a character is one of the six ASCII spaces.
* `dropWhileEnd`: Removes a run of characters from the end.
* `trim`, `trimEnd`: Removes the blanks at both ends, or at the end only.

## Theorems

* `isBlank_of_isSpace`: Every ASCII space is a blank.
-/

namespace QuantumIR

namespace Text

/-- The code points with the Unicode property `White_Space`, as closed
    ranges in ascending order. -/
def blankRanges : List (Nat × Nat) :=
  [(0x09, 0x0D), (0x20, 0x20), (0x85, 0x85), (0xA0, 0xA0), (0x1680, 0x1680), (0x2000, 0x200A),
   (0x2028, 0x2029), (0x202F, 0x202F), (0x205F, 0x205F), (0x3000, 0x3000)]

/-- Whether the character has the Unicode property `White_Space`. -/
def isBlank (c : Char) : Bool :=
  blankRanges.any fun r => r.1 ≤ c.toNat && c.toNat ≤ r.2

/-- Whether the character is a tab, line feed, vertical tab, form feed,
    carriage return or space. -/
def isSpace (c : Char) : Bool :=
  (0x09 ≤ c.toNat && c.toNat ≤ 0x0D) || c == ' '

/-- Removes the longest run of characters satisfying `p` from the end. -/
def dropWhileEnd (p : Char → Bool) (s : List Char) : List Char :=
  (s.reverse.dropWhile p).reverse

/-- Removes the blanks at the end. -/
def trimEnd (s : List Char) : List Char :=
  dropWhileEnd isBlank s

/-- Removes the blanks at both ends. -/
def trim (s : List Char) : List Char :=
  trimEnd (s.dropWhile isBlank)

/-- Every ASCII space is a blank, so trimming also removes what separates
    tokens. -/
theorem isBlank_of_isSpace {c : Char} (h : isSpace c = true) : isBlank c = true := by
  simp only [isSpace, Bool.or_eq_true, Bool.and_eq_true, decide_eq_true_eq, beq_iff_eq] at h
  rcases h with h | rfl
  · simp [isBlank, blankRanges, h]
  · decide

end Text

end QuantumIR
