import Mathlib.Data.List.DropRight
import QuantumIR.Decimal
import QuantumIR.Text.Lines
import QuantumIR.Text.Word

/-!
# Cutting Known Text

What each cut does on a text whose beginning is known. A printer knows what it
wrote and a reader knows only how to cut, so every statement about both goes
through a lemma of this module: the cut takes exactly the piece that was written
and leaves what was written after it.

A cut that takes as much as it can needs to know what comes next. The lemmas
therefore have the form "a run of the class, then one character outside of it,
then anything", and never ask about the rest beyond that character.

Trimming is described by what it cannot remove: it stops at the first character
from either end that is no blank.

## Main definitions

* `firstLines`: The first lines of a text.

## Theorems

* `isBlank_of_isNameChar`: Names hold no blanks.
* `takeWhile_append_cons`, `dropWhile_append_cons`: A run stops at the first
  character outside its class.
* `word?_append_cons`, `identifier?_append_cons`: Cutting off a word.
* `literal?_append`, `after?_append_cons`, `after?_skipSpaces`, `beforeLast?_append_cons`:
  Cutting at fixed text.
* `word?_toDigits`, `unsigned64?_toDigits`: Cutting off and reading digits.
* `trimEnd_append`, `trimEnd_append_cons`: Trimming at the end stops at the last
  character that is no blank.
* `trim_eq_nil_iff`: Nothing is left of blank text, and something of any other.
* `trim_of_ends`: Text without blanks at its ends stays as it is.
* `trim_append_of_blank_left`, `trim_append_of_blank_right`: Blanks around text go away.
* `trim_dropReturn`: A carriage return at the end of a line makes no difference.
* `lines_intercalate`: Lines joined by line feeds are these lines again.
* `notMem_of_mem_splitOn`, `length_splitOn`: The pieces between separators.
* `map_trim_cut_intercalate`, `map_trim_splitOn_intercalate`: Items joined by commas are
  these items again.
* `notMem_of_mem_lines`: Lines hold no line feeds.
-/

namespace QuantumIR

namespace Text

/-! ### Classes -/

/-- The code points of letters and digits. -/
theorem toNat_of_isAlphanum {c : Char} (h : c.isAlphanum = true) :
    (65 ≤ c.toNat ∧ c.toNat ≤ 90) ∨ (97 ≤ c.toNat ∧ c.toNat ≤ 122)
      ∨ (48 ≤ c.toNat ∧ c.toNat ≤ 57) := by
  have hcases : ((c.isUpper || c.isLower) || c.isDigit) = true := h
  rw [Bool.or_eq_true, Bool.or_eq_true] at hcases
  rcases hcases with (hupper | hlower) | hdigit
  -- Code points are compared as machine words, and these as natural numbers.
  · have hbounds : 'A'.val ≤ c.val ∧ c.val ≤ 'Z'.val := of_decide_eq_true hupper
    exact .inl hbounds
  · have hbounds : (decide ('a'.val ≤ c.val) && decide (c.val ≤ 'z'.val)) = true := hlower
    rw [Bool.and_eq_true, decide_eq_true_eq, decide_eq_true_eq] at hbounds
    exact .inr (.inl hbounds)
  · exact .inr (.inr (Char.isDigit_iff_toNat.1 hdigit))

/-- Names hold no blanks. -/
theorem isBlank_of_isNameChar {c : Char} (h : isNameChar c = true) : isBlank c = false := by
  simp only [isNameChar, isWordChar, Bool.or_eq_true, beq_iff_eq] at h
  rcases h with (((h | rfl) | rfl) | rfl) | rfl
  -- Letters and digits lie between the ranges of blanks; the other four are compared.
  · have hbounds := toNat_of_isAlphanum h
    simp only [isBlank, blankRanges, List.any_cons, List.any_nil, Bool.or_false,
      Bool.or_eq_false_iff, Bool.and_eq_false_iff, decide_eq_false_iff_not]
    omega
  all_goals decide

theorem isNameChar_of_isWordChar {c : Char} (h : isWordChar c = true) : isNameChar c = true := by
  simp [isNameChar, h]

theorem isWordChar_of_isDigit {c : Char} (h : c.isDigit = true) : isWordChar c = true := by
  simp [isWordChar, Char.isAlphanum, h]

theorem isWordChar_of_isIdentifierStart {c : Char} (h : isIdentifierStart c = true) :
    isWordChar c = true := by
  rw [isIdentifierStart, Bool.or_eq_true] at h
  rcases h with h | h
  · simp [isWordChar, Char.isAlphanum, h]
  · simp [isWordChar, h]

theorem isBlank_of_isDigit {c : Char} (h : c.isDigit = true) : isBlank c = false :=
  isBlank_of_isNameChar (isNameChar_of_isWordChar (isWordChar_of_isDigit h))

theorem isSpace_of_isBlank_eq_false {c : Char} (h : isBlank c = false) : isSpace c = false := by
  cases hspace : isSpace c with
  | false => rfl
  | true => rw [isBlank_of_isSpace hspace] at h; cases h

/-! ### Runs -/

section Runs

variable {p : Char → Bool} {w s : List Char} {c : Char}

theorem takeWhile_append_cons (hw : ∀ a ∈ w, p a = true) (hc : p c = false) :
    (w ++ c :: s).takeWhile p = w := by
  rw [List.takeWhile_append_of_pos hw, List.takeWhile_cons_of_neg (by simp [hc]), List.append_nil]

theorem dropWhile_append_cons (hw : ∀ a ∈ w, p a = true) (hc : p c = false) :
    (w ++ c :: s).dropWhile p = c :: s := by
  rw [List.dropWhile_append_of_pos hw, List.dropWhile_cons_of_neg (by simp [hc])]

/-- Cutting off a word takes exactly the word if the next character cannot
    belong to it. -/
theorem word?_append_cons (hne : w ≠ []) (hw : ∀ a ∈ w, p a = true) (hc : p c = false) :
    word? p (w ++ c :: s) = some (w, c :: s) := by
  rw [word?, takeWhile_append_cons hw hc, dropWhile_append_cons hw hc, if_neg (by simpa using hne)]

theorem skipSpaces_cons (hc : isSpace c = false) : skipSpaces (c :: s) = c :: s := by
  rw [skipSpaces, List.dropWhile_cons_of_neg (by simp [hc])]

theorem skipSpaces_space (s : List Char) : skipSpaces (' ' :: s) = skipSpaces s := by
  rw [skipSpaces, List.dropWhile_cons_of_pos (by decide), skipSpaces]

theorem skipSpaces1?_cons (hc : isSpace c = false) :
    skipSpaces1? (' ' :: c :: s) = some (c :: s) := by
  rw [skipSpaces1?, if_pos (by decide), skipSpaces_cons hc]

/-- Cutting off an identifier takes exactly the identifier if the next character
    cannot belong to it. -/
theorem identifier?_append_cons {a : Char} (ha : isIdentifierStart a = true)
    (hw : ∀ b ∈ w, isWordChar b = true) (hc : isWordChar c = false) :
    identifier? (a :: w ++ c :: s) = some (a :: w, c :: s) := by
  rw [List.cons_append, identifier?, if_pos ha, takeWhile_append_cons hw hc,
    dropWhile_append_cons hw hc]

end Runs

/-! ### Fixed text -/

theorem char?_cons (c : Char) (s : List Char) : char? c (c :: s) = some s := by
  rw [char?, if_pos (beq_self_eq_true c)]

theorem literal?_eq_some_iff {p : String} {s t : List Char} :
    literal? p s = some t ↔ s = p.toList ++ t := by
  rw [literal?, List.isPrefixOf?_eq_some_iff_append_eq]
  exact eq_comm

theorem literal?_append (p : String) (s : List Char) : literal? p (p.toList ++ s) = some s :=
  literal?_eq_some_iff.2 rfl

/-- Fixed text is not found where the text begins with another character. -/
theorem literal?_cons_of_ne {p : String} {c d : Char} {w : List Char} (hp : p.toList = d :: w)
    (h : c ≠ d) (s : List Char) : literal? p (c :: s) = none := by
  rw [Option.eq_none_iff_forall_not_mem]
  intro t ht
  have hsplit := literal?_eq_some_iff.1 ht
  rw [hp, List.cons_append, List.cons.injEq] at hsplit
  exact h hsplit.1

theorem after?_append_cons {c : Char} {s : List Char} (h : c ∉ s) (t : List Char) :
    after? c (s ++ c :: t) = some t := by
  have hrun : ∀ a ∈ s, (a != c) = true := by
    intro a ha
    rw [bne_iff_ne]
    exact fun hac => h (hac ▸ ha)
  rw [after?, dropWhile_append_cons hrun (by simp), char?_cons]

/-- Dropping spaces in front cannot get past a character that is none, even if nothing
    but spaces stands before it. -/
theorem after?_skipSpaces {c : Char} (hc : isSpace c = false) {s : List Char} (h : c ∉ s)
    (t : List Char) : after? c (skipSpaces (s ++ c :: t)) = some t := by
  have hsplit : skipSpaces (s ++ c :: t) = skipSpaces s ++ c :: t := by
    rw [skipSpaces, List.dropWhile_append]
    split
    · rename_i hempty
      rw [List.dropWhile_cons_of_neg (by simp [hc]), skipSpaces, List.isEmpty_iff.1 hempty,
        List.nil_append]
    · rfl
  have hnone : c ∉ skipSpaces s := fun hmem => h ((List.dropWhile_suffix _).subset hmem)
  rw [hsplit, after?_append_cons hnone]

/-- The last occurrence is the first one from the other end. -/
theorem beforeLast?_append_cons {c : Char} {t : List Char} (h : c ∉ t) (s : List Char) :
    beforeLast? c (s ++ c :: t) = some s := by
  -- Read backwards, the last occurrence comes first.
  have hreverse : (s ++ c :: t).reverse = t.reverse ++ c :: s.reverse := by simp
  rw [beforeLast?, hreverse, after?_append_cons (by simpa using h), Option.map_some,
    List.reverse_reverse]

/-! ### Numbers -/

theorem isDigit_of_mem_toDigits {n : Nat} {c : Char} (h : c ∈ Nat.toDigits 10 n) :
    c.isDigit = true :=
  Nat.isDigit_of_mem_toDigits (by omega) (by omega) h

theorem skipSpaces_toDigits (n : Nat) (s : List Char) :
    skipSpaces (Nat.toDigits 10 n ++ s) = Nat.toDigits 10 n ++ s := by
  rcases hdigits : Nat.toDigits 10 n with _ | ⟨d, ds⟩
  · exact absurd hdigits Nat.toDigits_ne_nil
  · have hd : d.isDigit = true := isDigit_of_mem_toDigits (n := n) (by rw [hdigits]; simp)
    exact skipSpaces_cons (isSpace_of_isBlank_eq_false (isBlank_of_isDigit hd))

/-- Cutting off digits takes exactly the digits of a number that was written. -/
theorem word?_toDigits (n : Nat) {c : Char} (hc : c.isDigit = false) (s : List Char) :
    word? Char.isDigit (Nat.toDigits 10 n ++ c :: s) = some (Nat.toDigits 10 n, c :: s) :=
  word?_append_cons Nat.toDigits_ne_nil (fun _ => isDigit_of_mem_toDigits) hc

theorem toList_repr_int (n : Int) :
    n.repr.toList
      = if 0 ≤ n then Nat.toDigits 10 n.natAbs else '-' :: Nat.toDigits 10 n.natAbs := by
  cases n with
  | ofNat m => simp [Int.repr, Nat.toList_repr]
  | negSucc m => simp [Int.repr, Nat.toList_repr, String.toList_append]

/-! ### Trimming -/

/-- Trimming at the end reaches the first of two texts only if nothing is left of
    the second. -/
theorem trimEnd_append (s t : List Char) :
    trimEnd (s ++ t) = if trimEnd t = [] then trimEnd s else s ++ trimEnd t := by
  simp only [trimEnd, dropWhileEnd, List.reverse_append, List.dropWhile_append,
    List.reverse_eq_nil_iff, List.isEmpty_iff]
  by_cases h : t.reverse.dropWhile isBlank = []
  · rw [if_pos h, if_pos h]
  · rw [if_neg h, if_neg h, List.reverse_append, List.reverse_reverse]

theorem trimEnd_eq_nil {s : List Char} (h : ∀ c ∈ s, isBlank c = true) : trimEnd s = [] := by
  rw [trimEnd, dropWhileEnd, List.reverse_eq_nil_iff, List.dropWhile_eq_nil_iff]
  exact fun c hc => h c (List.mem_reverse.1 hc)

theorem trimEnd_append_of_blank {s t : List Char} (h : ∀ c ∈ t, isBlank c = true) :
    trimEnd (s ++ t) = trimEnd s := by
  rw [trimEnd_append, if_pos (trimEnd_eq_nil h)]

theorem trimEnd_cons (c : Char) (s : List Char) :
    trimEnd (c :: s) = if trimEnd s = [] ∧ isBlank c = true then [] else c :: trimEnd s := by
  rw [← List.singleton_append, trimEnd_append]
  by_cases hempty : trimEnd s = []
  · by_cases hc : isBlank c = true
    · rw [if_pos hempty, if_pos ⟨hempty, hc⟩]
      simp [hc, trimEnd, dropWhileEnd]
    · rw [if_pos hempty, if_neg (fun h => hc h.2), hempty]
      simp [hc, trimEnd, dropWhileEnd]
  · rw [if_neg hempty, if_neg (fun h => hempty h.1), List.singleton_append]

/-- Trimming at the end stops at a character that is no blank. -/
theorem trimEnd_append_cons {c : Char} (hc : isBlank c = false) (s t : List Char) :
    trimEnd (s ++ c :: t) = s ++ c :: trimEnd t := by
  have hcons : trimEnd (c :: t) = c :: trimEnd t := by
    rw [trimEnd_cons, if_neg (by simp [hc])]
  rw [trimEnd_append, hcons, if_neg (List.cons_ne_nil _ _)]

theorem trim_cons {c : Char} (hc : isBlank c = false) (s : List Char) :
    trim (c :: s) = c :: trimEnd s := by
  rw [trim, List.dropWhile_cons_of_neg (by simp [hc])]
  exact trimEnd_append_cons hc [] s

theorem trim_append_of_blank_left {a s : List Char} (h : ∀ c ∈ a, isBlank c = true) :
    trim (a ++ s) = trim s := by
  rw [trim, trim, List.dropWhile_append_of_pos h]

theorem trim_append_of_blank_right {s b : List Char} (h : ∀ c ∈ b, isBlank c = true) :
    trim (s ++ b) = trim s := by
  rw [trim, trim, List.dropWhile_append]
  -- Blanks at the end are reached from the front only if all of `s` is blank.
  by_cases hempty : s.dropWhile isBlank = []
  · rw [if_pos (List.isEmpty_iff.2 hempty), hempty, List.dropWhile_eq_nil_iff.2 h]
  · rw [if_neg (fun h => hempty (List.isEmpty_iff.1 h)), trimEnd_append_of_blank h]

/-- Nothing is left of blank text, and something of any other. -/
theorem trim_eq_nil_iff {s : List Char} : trim s = [] ↔ s.all isBlank = true := by
  induction s with
  | nil => exact iff_of_true rfl rfl
  | cons c s ih =>
      rw [List.all_cons, Bool.and_eq_true]
      cases hc : isBlank c with
      | true =>
          have hblank : ∀ d ∈ [c], isBlank d = true := List.forall_mem_singleton.2 hc
          rw [← List.singleton_append, trim_append_of_blank_left hblank, ih]
          exact ⟨fun h => ⟨rfl, h⟩, And.right⟩
      | false =>
          rw [trim_cons hc]
          exact iff_of_false (List.cons_ne_nil _ _) fun h => Bool.false_ne_true h.1

/-- Text without blanks at its ends stays as it is. -/
theorem trim_of_ends {s : List Char} (hfirst : ∀ c ∈ s.head?, isBlank c = false)
    (hlast : ∀ c ∈ s.getLast?, isBlank c = false) : trim s = s := by
  cases s with
  | nil => rfl
  | cons c s =>
      have hstop : s.rdropWhile isBlank = s := by
        rw [List.rdropWhile_eq_self_iff]
        intro hne
        rw [hlast (s.getLast hne) (by simp [List.getLast?_cons, List.getLast?_eq_some_getLast hne])]
        exact Bool.false_ne_true
      rw [trim_cons (hfirst c (by simp))]
      exact congrArg _ hstop

theorem trimEnd_of_trim_eq {s : List Char} (h : trim s = s) : trimEnd s = s := by
  rw [← h]
  exact List.rdropWhile_idempotent isBlank (s.dropWhile isBlank)

/-- Text that begins with a character that is no blank and ends with text that has
    no blanks at its ends stays as it is. -/
theorem trim_cons_append {c : Char} (hc : isBlank c = false) (s : List Char) {t : List Char}
    (hne : t ≠ []) (ht : trim t = t) : trim (c :: (s ++ t)) = c :: (s ++ t) := by
  rw [trim_cons hc, trimEnd_append, trimEnd_of_trim_eq ht, if_neg hne]

theorem trim_cons_concat {c d : Char} (hc : isBlank c = false) (hd : isBlank d = false)
    (s : List Char) : trim (c :: (s ++ [d])) = c :: (s ++ [d]) :=
  trim_cons_append hc s (List.cons_ne_nil _ _) (trim_cons hd [])

theorem trim_toDigits (n : Nat) : trim (Nat.toDigits 10 n) = Nat.toDigits 10 n := by
  refine trim_of_ends ?_ ?_
  · exact fun c hc => isBlank_of_isDigit (isDigit_of_mem_toDigits (List.mem_of_head? hc))
  · exact fun c hc => isBlank_of_isDigit (isDigit_of_mem_toDigits (List.mem_of_getLast? hc))

/-! ### Lines -/

/-- A carriage return at the end of a line makes no difference once the line is
    trimmed. -/
theorem trim_dropReturn (s : List Char) : trim (dropReturn s) = trim s := by
  rw [dropReturn]
  split
  · rename_i hlast
    have hsplit : s = s.dropLast ++ ['\r'] := (List.dropLast_append_getLast? _ hlast).symm
    have hblank : ∀ c ∈ ['\r'], isBlank c = true :=
      List.forall_mem_singleton.2 (by decide)
    rw [hsplit, trim_append_of_blank_right hblank, List.dropLast_concat]
  · rfl

/-- Lines joined by line feeds are these lines again, but for a carriage return
    at the end of each and for a last line that is empty. -/
theorem lines_intercalate {ls : List (List Char)} {last : List Char}
    (h : ∀ l ∈ ls ++ [last], '\n' ∉ l) :
    lines (['\n'].intercalate (ls ++ [last]))
      = ls.map dropReturn ++ if last = [] then [] else [last] := by
  rw [lines, List.splitOn_intercalate '\n' h (by simp)]
  simp only [List.dropLast_concat, List.getLast?_concat, Option.toList_some]
  by_cases hlast : last = []
  · simp [hlast]
  · simp [hlast]

/-! ### Separators -/

theorem splitOn_append_cons {c : Char} {s : List Char} (h : c ∉ s) (t : List Char) :
    (s ++ c :: t).splitOn c = s :: t.splitOn c := by
  rw [List.splitOn_append_cons_self, List.splitOn_eq_singleton h, List.singleton_append]

theorem length_splitOn (c : Char) (s : List Char) : (s.splitOn c).length = s.count c + 1 := by
  induction s with
  | nil => rfl
  | cons a s ih =>
      rw [List.splitOn_cons_eq_if_modifyHead, List.count_cons]
      by_cases ha : (a == c) = true
      · rw [if_pos ha, if_pos ha, List.length_cons, ih]
      · rw [if_neg ha, if_neg ha, List.length_modifyHead, ih]

theorem notMem_of_mem_splitOn {c : Char} {s piece : List Char} (h : piece ∈ s.splitOn c) :
    c ∉ piece := by
  induction s generalizing piece with
  | nil =>
      rw [List.splitOn_nil, List.mem_singleton] at h
      rw [h]
      exact List.not_mem_nil
  | cons a s ih =>
      rw [List.splitOn_cons_eq_if_modifyHead] at h
      split at h
      · rcases List.mem_cons.1 h with rfl | h
        · exact List.not_mem_nil
        · exact ih h
      · rename_i ha
        -- The character joins the first piece, and the other pieces stay.
        rcases hs : s.splitOn c with _ | ⟨first, rest⟩
        · exact absurd hs (List.splitOn_ne_nil c s)
        · rw [hs, List.modifyHead_cons, List.mem_cons] at h
          rcases h with rfl | h
          · have hfirst : c ∉ first := ih (by rw [hs]; exact List.mem_cons_self)
            simp only [List.mem_cons, not_or]
            exact ⟨fun hc => ha (by simp [hc]), hfirst⟩
          · exact ih (by rw [hs]; exact List.mem_cons_of_mem _ h)

theorem notMem_intercalate {c : Char} {sep : List Char} {ps : List (List Char)} (hsep : c ∉ sep)
    (h : ∀ p ∈ ps, c ∉ p) : c ∉ sep.intercalate ps := by
  induction ps with
  | nil => exact List.not_mem_nil
  | cons p ps ih =>
      cases ps with
      | nil =>
          rw [List.intercalate_singleton]
          exact h p (by simp)
      | cons q ps =>
          have hrest := ih fun r hr => h r (List.mem_cons_of_mem _ hr)
          rw [List.intercalate_cons_cons, List.mem_append, List.mem_append, not_or, not_or]
          exact ⟨⟨h p (by simp), hsep⟩, hrest⟩

theorem map_trim_modifyHead_cons {c : Char} (hc : isBlank c = true) (pieces : List (List Char)) :
    (pieces.modifyHead (c :: ·)).map trim = pieces.map trim := by
  cases pieces with
  | nil => rfl
  | cons first rest =>
      have hblank : ∀ d ∈ [c], isBlank d = true := List.forall_mem_singleton.2 hc
      rw [List.modifyHead_cons, List.map_cons, List.map_cons]
      exact congrArg (· :: _) (trim_append_of_blank_left hblank)

/-- A list that was written with commas and spaces between its items is cut into
    these items by every way of cutting that respects them: an item stays whole, and
    a comma after it ends it. -/
theorem map_trim_cut_intercalate {cut : List Char → List (List Char)} {ps : List (List Char)}
    (hne : ps ≠ []) (hwhole : ∀ p ∈ ps, cut p = [p])
    (hcomma : ∀ p ∈ ps, ∀ t, cut (p ++ ',' :: t) = p :: cut t)
    (hspace : ∀ t, cut (' ' :: t) = (cut t).modifyHead (' ' :: ·)) (htrim : ∀ p ∈ ps, trim p = p) :
    (cut ([',', ' '].intercalate ps)).map trim = ps := by
  induction ps with
  | nil => exact absurd rfl hne
  | cons p ps ih =>
      cases ps with
      | nil =>
          rw [List.intercalate_singleton, hwhole p (by simp), List.map_singleton, htrim p (by simp)]
      | cons q ps =>
          have hrest := ih (by simp) (fun r hr => hwhole r (List.mem_cons_of_mem _ hr))
            (fun r hr => hcomma r (List.mem_cons_of_mem _ hr))
            (fun r hr => htrim r (List.mem_cons_of_mem _ hr))
          -- The comma ends the first item; the space goes to the second, which is trimmed.
          rw [List.intercalate_cons_cons, List.append_assoc, List.cons_append, List.cons_append,
            List.nil_append, hcomma p (by simp), List.map_cons, htrim p (by simp), hspace,
            map_trim_modifyHead_cons (by decide), hrest]

/-- So it is for cutting at every comma, if no item has one. -/
theorem map_trim_splitOn_intercalate {ps : List (List Char)} (hne : ps ≠ [])
    (hcomma : ∀ p ∈ ps, ',' ∉ p) (htrim : ∀ p ∈ ps, trim p = p) :
    (([',', ' '].intercalate ps).splitOn ',').map trim = ps := by
  refine map_trim_cut_intercalate hne ?_ ?_ ?_ htrim
  · exact fun p hp => List.splitOn_eq_singleton (hcomma p hp)
  · exact fun p hp => splitOn_append_cons (hcomma p hp)
  · intro t
    rw [List.splitOn_cons_eq_if_modifyHead, if_neg (by decide)]

/-! ### First lines -/

/-- The first lines of a text, as a text of their own. -/
def firstLines (count : Nat) (text : String) : String :=
  String.ofList (['\n'].intercalate ((lines text.toList).take count))

theorem notMem_of_mem_lines {s l : List Char} (h : l ∈ lines s) : '\n' ∉ l := by
  rw [lines, List.mem_append, List.mem_map] at h
  rcases h with ⟨p, hp, rfl⟩ | h
  · have hpiece := notMem_of_mem_splitOn (List.dropLast_subset _ hp)
    rw [dropReturn]
    split
    · exact fun hfeed => hpiece (List.dropLast_subset _ hfeed)
    · exact hpiece
  · have hlast := List.mem_of_mem_filter h
    rw [Option.mem_toList] at hlast
    exact notMem_of_mem_splitOn (List.mem_of_getLast? hlast)

end Text

namespace Decimal

/-- The digits of a number of 64 bits are read as that number. -/
theorem unsigned64?_toDigits {n : Nat} (h : n < limit64) :
    unsigned64? (Nat.toDigits 10 n) = some n := by
  rw [unsigned64?, natural?_toDigits]
  simp [h]

end Decimal

end QuantumIR
