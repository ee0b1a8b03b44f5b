import QuantumIR.Proofs.Text.Cut

/-!
# What a Cut Says of a Text

Each cut, described by the texts on which it succeeds. `Cut` goes from a text that
is known to what a cut takes from it; here a cut has succeeded and the text is to
be recovered. Both directions are stated together, so a chain of cuts can be
replaced by a description of the whole line, and the reader that makes them need
not be looked at again.

A cut takes as much as it can, so its result says two things: the piece that was
taken belongs to the class, and the rest does not begin with another character of
the class. The second part is what makes the pieces of a line unique.

## Main definitions

* `Stops`: A text does not begin with a character of a class.
* `IsGap`: A run of ASCII spaces.
* `IsIdentifier`: A letter or underscore followed by word characters.
* `IsNumeral`: A non-empty run of digits.

## Theorems

* `takeWhile_dropWhile_iff`: The longest run and the rest, described.
* `word?_eq_some_iff`, `identifier?_eq_some_iff`: Cutting off a word.
* `skipSpaces_eq_iff`, `skipSpaces1?_eq_some_iff`: Skipping spaces.
* `char?_eq_some_iff`: Cutting off a character.
* `after?_eq_some_iff`, `beforeLast?_eq_some_iff`: Cutting at the first and at the last
  occurrence of a character.
* `occurs_eq_true_iff`: Finding a fixed text.
* `infix_append_iff_of_notMem`, `concat_infix_append_iff`: Where a fixed text can occur in
  two texts that are joined.
* `append_inj_of_stops`, `append_cons_inj_of_first`, `append_cons_inj_of_last`: Texts that
  are cut in the same way and agree as a whole agree in their parts.
* `char?_skipSpaces_eq_some_iff`, `word?_skipSpaces_eq_some_iff`: The same behind spaces.
* `unsigned64?_eq_some_iff`: A numeral that fits into 64 bits.
-/

namespace QuantumIR

namespace Text

/-- The text does not begin with a character of the class. -/
def Stops (p : Char → Bool) (s : List Char) : Prop :=
  ∀ c ∈ s.head?, p c = false

/-- A run of ASCII spaces, which may be empty. -/
def IsGap (s : List Char) : Prop :=
  ∀ c ∈ s, isSpace c = true

/-- A letter or underscore followed by word characters. -/
def IsIdentifier (s : List Char) : Prop :=
  ∃ a w, s = a :: w ∧ isIdentifierStart a = true ∧ ∀ c ∈ w, isWordChar c = true

/-- A non-empty run of digits. -/
def IsNumeral (s : List Char) : Prop :=
  s ≠ [] ∧ ∀ c ∈ s, c.isDigit = true

section Runs

variable {p : Char → Bool} {s w r : List Char}

theorem stops_cons {c : Char} : Stops p (c :: s) ↔ p c = false := by
  simp [Stops]

theorem stops_dropWhile (p : Char → Bool) (s : List Char) : Stops p (s.dropWhile p) := by
  intro c hc
  have hfirst := List.head?_dropWhile_not p s
  rw [Option.mem_def.1 hc] at hfirst
  exact hfirst

/-- A text that stops a class stands as it is behind a run of the class. -/
theorem takeWhile_append_of_stops (hw : ∀ c ∈ w, p c = true) (hr : Stops p r) :
    (w ++ r).takeWhile p = w := by
  cases r with
  | nil => rw [List.append_nil, List.takeWhile_eq_self_iff.2 hw]
  | cons c r => exact takeWhile_append_cons hw (stops_cons.1 hr)

theorem dropWhile_append_of_stops (hw : ∀ c ∈ w, p c = true) (hr : Stops p r) :
    (w ++ r).dropWhile p = r := by
  cases r with
  | nil => rw [List.append_nil, List.dropWhile_eq_nil_iff.2 hw]
  | cons c r => exact dropWhile_append_cons hw (stops_cons.1 hr)

/-- The longest run of a class and the rest: they make up the text, and the rest
    does not go on with the class. -/
theorem takeWhile_dropWhile_iff :
    s.takeWhile p = w ∧ s.dropWhile p = r
      ↔ s = w ++ r ∧ (∀ c ∈ w, p c = true) ∧ Stops p r := by
  constructor
  · rintro ⟨rfl, rfl⟩
    exact ⟨List.takeWhile_append_dropWhile.symm, fun _ => List.mem_takeWhile_imp,
      stops_dropWhile p s⟩
  · rintro ⟨rfl, hw, hr⟩
    exact ⟨takeWhile_append_of_stops hw hr, dropWhile_append_of_stops hw hr⟩

theorem word?_eq_some_iff :
    word? p s = some (w, r) ↔ s = w ++ r ∧ (w ≠ [] ∧ ∀ c ∈ w, p c = true) ∧ Stops p r := by
  rw [word?]
  -- An empty run is refused, so the piece is never empty.
  by_cases hempty : s.takeWhile p = []
  · rw [if_pos (List.isEmpty_iff.2 hempty)]
    constructor
    · intro h
      cases h
    · rintro ⟨hs, ⟨hne, hw⟩, hr⟩
      exact absurd ((takeWhile_dropWhile_iff.2 ⟨hs, hw, hr⟩).1.symm.trans hempty) hne
  · rw [if_neg (fun h => hempty (List.isEmpty_iff.1 h)), Option.some.injEq, Prod.mk.injEq,
      takeWhile_dropWhile_iff]
    refine ⟨fun h => ⟨h.1, ⟨fun hnil => ?_, h.2.1⟩, h.2.2⟩, fun h => ⟨h.1, h.2.1.2, h.2.2⟩⟩
    exact hempty ((takeWhile_dropWhile_iff.2 h).1.trans hnil)

theorem identifier?_eq_some_iff :
    identifier? s = some (w, r) ↔ s = w ++ r ∧ IsIdentifier w ∧ Stops isWordChar r := by
  cases s with
  | nil =>
      constructor
      · intro h
        cases h
      · rintro ⟨hs, ⟨a, v, rfl, -, -⟩, -⟩
        simp at hs
  | cons a s =>
      rw [identifier?]
      -- The first character has a class of its own, and the run begins behind it.
      by_cases ha : isIdentifierStart a = true
      · rw [if_pos ha, Option.some.injEq, Prod.mk.injEq]
        constructor
        · rintro ⟨rfl, hr⟩
          rcases takeWhile_dropWhile_iff.1 ⟨rfl, hr⟩ with ⟨hs, hrun, hstops⟩
          exact ⟨congrArg (a :: ·) hs, ⟨a, _, rfl, ha, hrun⟩, hstops⟩
        · rintro ⟨hs, ⟨b, v, rfl, -, hv⟩, hr⟩
          rw [List.cons_append, List.cons.injEq] at hs
          rcases takeWhile_dropWhile_iff.2 ⟨hs.2, hv, hr⟩ with ⟨htake, hdrop⟩
          exact ⟨by rw [htake, hs.1], hdrop⟩
      · rw [if_neg ha]
        constructor
        · intro h
          cases h
        · rintro ⟨hs, ⟨b, v, rfl, hb, -⟩, -⟩
          rw [List.cons_append, List.cons.injEq] at hs
          exact absurd (hs.1 ▸ hb) ha

end Runs

section Spaces

variable {s r : List Char} {c : Char}

theorem skipSpaces_eq_iff : skipSpaces s = r ↔ ∃ g, s = g ++ r ∧ IsGap g ∧ Stops isSpace r := by
  constructor
  · intro h
    exact ⟨s.takeWhile isSpace, takeWhile_dropWhile_iff.1 ⟨rfl, h⟩⟩
  · rintro ⟨g, hg⟩
    exact (takeWhile_dropWhile_iff.2 hg).2

theorem skipSpaces1?_eq_some_iff :
    skipSpaces1? s = some r ↔ ∃ g, s = g ++ r ∧ g ≠ [] ∧ IsGap g ∧ Stops isSpace r := by
  cases s with
  | nil =>
      constructor
      · intro h
        cases h
      · rintro ⟨g, hs, hne, -⟩
        exact absurd (List.append_eq_nil_iff.1 hs.symm).1 hne
  | cons c s =>
      rw [skipSpaces1?]
      by_cases hc : isSpace c = true
      · rw [if_pos hc, Option.some.injEq, skipSpaces_eq_iff]
        constructor
        · rintro ⟨g, rfl, hg, hr⟩
          exact ⟨c :: g, rfl, List.cons_ne_nil _ _, List.forall_mem_cons.2 ⟨hc, hg⟩, hr⟩
        · rintro ⟨g, hs, hne, hg, hr⟩
          rcases g with _ | ⟨d, g⟩
          · exact absurd rfl hne
          · rw [List.cons_append, List.cons.injEq] at hs
            exact ⟨g, hs.2, (List.forall_mem_cons.1 hg).2, hr⟩
      · rw [if_neg hc]
        constructor
        · intro h
          cases h
        · rintro ⟨g, hs, hne, hg, -⟩
          rcases g with _ | ⟨d, g⟩
          · exact absurd rfl hne
          · rw [List.cons_append, List.cons.injEq] at hs
            exact absurd (hs.1 ▸ (List.forall_mem_cons.1 hg).1) hc

/-- All spaces in front are dropped, also those beyond a run that is known. -/
theorem skipSpaces1?_append {g : List Char} (hne : g ≠ []) (hg : IsGap g) (s : List Char) :
    skipSpaces1? (g ++ s) = some (skipSpaces s) := by
  -- The run goes on as far as there are spaces in what follows.
  refine skipSpaces1?_eq_some_iff.2
    ⟨g ++ s.takeWhile isSpace, ?_, ?_, ?_, stops_dropWhile isSpace s⟩
  · rw [List.append_assoc, skipSpaces, List.takeWhile_append_dropWhile]
  · exact List.append_ne_nil_of_left_ne_nil hne _
  · exact List.forall_mem_append.2 ⟨hg, fun _ => List.mem_takeWhile_imp⟩

theorem char?_eq_some_iff : char? c s = some r ↔ s = c :: r := by
  cases s with
  | nil => simp [char?]
  | cons d s => simp [char?]

theorem isGap_space : IsGap [' '] :=
  List.all_eq_true.1 rfl

theorem IsGap.notMem {g : List Char} (hg : IsGap g) (hc : isSpace c = false) : c ∉ g := by
  intro hmem
  rw [hg c hmem] at hc
  cases hc

/-- What stops a class also behind spaces, none of which belongs to the class. -/
theorem stops_gap_append {p : Char → Bool} {g : List Char}
    (hp : ∀ c, isSpace c = true → p c = false)
    (hg : IsGap g) (hs : Stops p s) : Stops p (g ++ s) := by
  cases g with
  | nil => exact hs
  | cons c g => exact stops_cons.2 (hp c ((List.forall_mem_cons.1 hg).1))

/-- At least one space stops the class whatever comes after it. -/
theorem stops_gap_append_of_ne_nil {p : Char → Bool} {g : List Char}
    (hp : ∀ c, isSpace c = true → p c = false) (hne : g ≠ []) (hg : IsGap g) (s : List Char) :
    Stops p (g ++ s) := by
  cases g with
  | nil => exact absurd rfl hne
  | cons c g => exact stops_cons.2 (hp c ((List.forall_mem_cons.1 hg).1))

end Spaces

/-- Names hold no spaces. -/
theorem isNameChar_of_isSpace {c : Char} (h : isSpace c = true) : isNameChar c = false := by
  cases hname : isNameChar c with
  | false => rfl
  | true =>
      have hblank := isBlank_of_isNameChar hname
      rw [isBlank_of_isSpace h] at hblank
      cases hblank

theorem isWordChar_of_isSpace {c : Char} (h : isSpace c = true) : isWordChar c = false := by
  cases hword : isWordChar c with
  | false => rfl
  | true =>
      have hname := isNameChar_of_isWordChar hword
      rw [isNameChar_of_isSpace h] at hname
      cases hname

theorem isDigit_of_isSpace {c : Char} (h : isSpace c = true) : c.isDigit = false := by
  cases hdigit : c.isDigit with
  | false => rfl
  | true =>
      have hword := isWordChar_of_isDigit hdigit
      rw [isWordChar_of_isSpace h] at hword
      cases hword

theorem IsIdentifier.isWordChar {s : List Char} (h : IsIdentifier s) :
    ∀ c ∈ s, isWordChar c = true := by
  rcases h with ⟨a, w, rfl, ha, hw⟩
  exact List.forall_mem_cons.2 ⟨isWordChar_of_isIdentifierStart ha, hw⟩

theorem IsIdentifier.stops_isSpace {s : List Char} (h : IsIdentifier s) (r : List Char) :
    Stops isSpace (s ++ r) := by
  rcases h with ⟨a, w, rfl, ha, -⟩
  exact stops_cons.2 (isSpace_of_isBlank_eq_false
    (isBlank_of_isNameChar (isNameChar_of_isWordChar (isWordChar_of_isIdentifierStart ha))))

theorem IsNumeral.stops_isSpace {s : List Char} (h : IsNumeral s) (r : List Char) :
    Stops isSpace (s ++ r) := by
  rcases s with _ | ⟨d, ds⟩
  · exact absurd rfl h.1
  · exact stops_cons.2
      (isSpace_of_isBlank_eq_false (isBlank_of_isDigit (h.2 d List.mem_cons_self)))

theorem isNumeral_toDigits (n : Nat) : IsNumeral (Nat.toDigits 10 n) :=
  ⟨Nat.toDigits_ne_nil, fun _ => isDigit_of_mem_toDigits⟩

/-! ### Cuts behind spaces -/

theorem char?_skipSpaces_eq_some_iff {s r : List Char} {c : Char} (hc : isSpace c = false) :
    char? c (skipSpaces s) = some r ↔ ∃ g, s = g ++ c :: r ∧ IsGap g := by
  rw [char?_eq_some_iff, skipSpaces_eq_iff]
  exact ⟨fun ⟨g, hs, hg, _⟩ => ⟨g, hs, hg⟩, fun ⟨g, hs, hg⟩ => ⟨g, hs, hg, stops_cons.2 hc⟩⟩

theorem word?_skipSpaces_eq_some_iff {s d r : List Char} :
    word? Char.isDigit (skipSpaces s) = some (d, r)
      ↔ ∃ g, s = g ++ (d ++ r) ∧ IsGap g ∧ IsNumeral d ∧ Stops Char.isDigit r := by
  rw [word?_eq_some_iff]
  constructor
  · rintro ⟨hs, hd, hr⟩
    rcases skipSpaces_eq_iff.1 hs with ⟨g, hsplit, hg, -⟩
    exact ⟨g, hsplit, hg, hd, hr⟩
  · rintro ⟨g, hs, hg, hd, hr⟩
    exact ⟨skipSpaces_eq_iff.2 ⟨g, hs, hg, hd.stops_isSpace r⟩, hd, hr⟩

/-! ### Fixed text and equal cuts -/

section Equal

variable {c : Char} {s t u v : List Char}

theorem after?_eq_some_iff : after? c s = some t ↔ ∃ u, s = u ++ c :: t ∧ c ∉ u := by
  constructor
  · intro h
    have hrest : s.dropWhile (· != c) = c :: t := char?_eq_some_iff.1 h
    rcases takeWhile_dropWhile_iff.1 ⟨rfl, hrest⟩ with ⟨hs, hrun, -⟩
    refine ⟨s.takeWhile (· != c), hs, fun hmem => ?_⟩
    exact absurd (hrun c hmem) (by simp)
  · rintro ⟨u, rfl, hu⟩
    exact after?_append_cons hu t

theorem beforeLast?_eq_some_iff : beforeLast? c s = some u ↔ ∃ t, s = u ++ c :: t ∧ c ∉ t := by
  constructor
  · intro h
    rw [beforeLast?, Option.map_eq_some_iff] at h
    rcases h with ⟨v, hv, rfl⟩
    -- The last occurrence is the first one from the other end.
    rcases after?_eq_some_iff.1 hv with ⟨t, hs, ht⟩
    refine ⟨t.reverse, ?_, by simpa using ht⟩
    rw [← List.reverse_reverse s, hs]
    simp
  · rintro ⟨t, rfl, ht⟩
    exact beforeLast?_append_cons ht u

theorem occurs_eq_true_iff {p : List Char} : occurs p s = true ↔ p <:+: s := by
  induction s with
  | nil => rw [occurs, List.isEmpty_iff, List.infix_nil]
  | cons a s ih =>
      rw [occurs, Bool.or_eq_true, List.isPrefixOf_iff_prefix, ih, List.infix_cons_iff]

/-- A run of a class and what stops it can be told apart. -/
theorem append_inj_of_stops {p : Char → Bool} (h : s ++ t = u ++ v) (hs : ∀ a ∈ s, p a = true)
    (ht : Stops p t) (hu : ∀ a ∈ u, p a = true) (hv : Stops p v) : s = u ∧ t = v := by
  rcases takeWhile_dropWhile_iff.2 ⟨rfl, hs, ht⟩ with ⟨htake, hdrop⟩
  rw [h] at htake hdrop
  rcases takeWhile_dropWhile_iff.2 ⟨rfl, hu, hv⟩ with ⟨htake', hdrop'⟩
  exact ⟨htake.symm.trans htake', hdrop.symm.trans hdrop'⟩

/-- A fixed text cannot begin where its first character does not occur. -/
theorem infix_append_iff_of_notMem {p : List Char} (h : c ∉ s) :
    c :: p <:+: s ++ t ↔ c :: p <:+: t := by
  induction s with
  | nil => rfl
  | cons a s ih =>
      rw [List.mem_cons, not_or] at h
      rw [List.cons_append, List.infix_cons_iff, ih h.2, List.cons_prefix_cons]
      exact ⟨fun hinfix => hinfix.resolve_left fun hprefix => h.1 hprefix.1, .inr⟩

/-- A word of a class and a character outside of the class occur in a run of the class
    and what follows it in two ways only: at the end of the run, or behind it. -/
theorem concat_infix_append_iff {p : Char → Bool} (hu : ∀ a ∈ u, p a = true) (hc : p c = false)
    (hs : ∀ a ∈ s, p a = true) (ht : Stops p t) :
    u ++ [c] <:+: s ++ t ↔ (u <:+ s ∧ t.head? = some c) ∨ u ++ [c] <:+: t := by
  induction s with
  | nil =>
      rw [List.nil_append, List.suffix_nil]
      refine ⟨.inr, fun h => h.elim ?_ id⟩
      rintro ⟨rfl, hhead⟩
      rcases List.head?_eq_some_iff.1 hhead with ⟨v, rfl⟩
      exact ⟨[], v, rfl⟩
  | cons a s ih =>
      have hrest := ih fun b hb => hs b (List.mem_cons_of_mem a hb)
      -- At the front of the run the word must take all of it.
      have hfront : u ++ [c] <+: a :: s ++ t ↔ u = a :: s ∧ t.head? = some c := by
        constructor
        · rintro ⟨v, hv⟩
          rw [List.append_assoc] at hv
          rcases append_inj_of_stops hv hu (stops_cons.2 hc) hs ht with ⟨hword, htail⟩
          exact ⟨hword, by rw [← htail]; rfl⟩
        · rintro ⟨rfl, hhead⟩
          rcases List.head?_eq_some_iff.1 hhead with ⟨v, rfl⟩
          exact ⟨v, by simp⟩
      rw [List.cons_append] at hfront ⊢
      rw [List.infix_cons_iff, hfront, hrest, List.suffix_cons_iff, or_and_right, or_assoc]

theorem append_cons_inj_of_first (h : s ++ c :: t = u ++ c :: v) (hs : c ∉ s) (hu : c ∉ u) :
    s = u ∧ t = v := by
  have hafter := after?_append_cons hs t
  rw [h, after?_append_cons hu v, Option.some.injEq] at hafter
  rw [hafter] at h
  exact ⟨List.append_cancel_right h, hafter.symm⟩

theorem append_cons_inj_of_last (h : s ++ c :: t = u ++ c :: v) (ht : c ∉ t) (hv : c ∉ v) :
    s = u ∧ t = v := by
  have hbefore := beforeLast?_append_cons ht s
  rw [h, beforeLast?_append_cons hv u, Option.some.injEq] at hbefore
  rw [hbefore] at h
  exact ⟨hbefore.symm, (List.cons.inj (List.append_cancel_left h)).2⟩

end Equal

end Text

namespace Decimal

open Text (IsNumeral)

/-- A numeral is read as its value if that fits into 64 bits. -/
theorem unsigned64?_eq_some_iff {s : List Char} (h : IsNumeral s) {n : Nat} :
    unsigned64? s = some n ↔ Nat.ofDigitChars 10 s 0 = n ∧ n < limit64 := by
  -- Digits always make a number; only its size can be refused.
  have hall : s.all Char.isDigit = true := List.all_eq_true.2 h.2
  have hnatural : natural? s = some (Nat.ofDigitChars 10 s 0) := by
    rw [natural?, hall]
    simp [h.1]
  rw [unsigned64?, hnatural, Option.filter_eq_some_iff, Option.some.injEq, decide_eq_true_eq]

end Decimal

end QuantumIR
