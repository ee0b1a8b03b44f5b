import QuantumIR.OpenQasm.Reader
import QuantumIR.Proofs.Text.Cut

/-!
# The Shape of a Written Line

Every line that is written has one of three shapes: a declaration, a measurement
or a gate. This module shows that each is recognised as what it is, with the names
and digits that were written.

The shapes are tried in a fixed order and the first that fits decides, so to
recognise a line is also to show that no earlier shape fits it. For declarations
and measurements the first letters settle this. For a gate they do not, because
its name is the caller's: `measures` and `qregs` are good names. What settles it
is that a keyword counts only if a space follows it, and then it is the whole
name. Three keywords are thereby lost as names of gates. A gate named `measure`
is not, because no arrow can follow its first argument.

## Main definitions

* `elementText`: An element of a register as written.
* `argumentsText`: The arguments of a gate as written.

## Theorems

* `element?_elementText`: An element is cut off as it was written.
* `eq_keyword_of_literal?`: A keyword before a space is the whole first word.
* `Statement.parse?_declaration`, `Statement.parse?_measurement`,
  `Statement.parse?_gate`: Each shape is recognised.
* `arguments_elementText`: The arguments of a gate denote the indices that were
  written.
-/

namespace QuantumIR

namespace OpenQasm

open Text

/-- The text of an element of the register with the name `r`. -/
def elementText (r : Char) (i : Nat) : List Char :=
  r :: '[' :: (Nat.toDigits 10 i ++ [']'])

theorem toList_qubit (i : Nat) : (qubit i).toList = elementText 'q' i := by
  simp [qubit, elementText, Nat.toList_repr]

theorem toList_result (i : Nat) : (result i).toList = elementText 'c' i := by
  simp [result, elementText, Nat.toList_repr]

/-- An element is cut off as it was written, whatever follows it. -/
theorem element?_elementText {r : Char} (hr : isIdentifierStart r = true) (i : Nat)
    (s : List Char) :
    element? (elementText r i ++ s) = some (⟨String.ofList [r], Nat.toDigits 10 i⟩, s) := by
  have hname : identifier? (elementText r i ++ s)
      = some ([r], '[' :: (Nat.toDigits 10 i ++ ']' :: s)) := by
    -- The name is the single letter: the bracket cannot belong to it.
    have hcut := identifier?_append_cons (w := []) (c := '[') (s := Nat.toDigits 10 i ++ ']' :: s)
      hr (by simp) (by decide)
    simpa [elementText] using hcut
  rw [element?, hname]
  simp only [Option.bind_eq_bind, Option.bind_some,
    skipSpaces_cons (show isSpace '[' = false by decide), char?_cons, skipSpaces_toDigits,
    word?_toDigits i (show ']'.isDigit = false by decide),
    skipSpaces_cons (show isSpace ']' = false by decide)]
  rfl

theorem index_toDigits {i : Nat} (h : i < Decimal.limit64) : index (Nat.toDigits 10 i) = .ok i := by
  rw [index, Decimal.unsigned64?_toDigits h]

/-- A keyword that is followed by a space is the whole first word of a line. -/
theorem eq_keyword_of_literal? {kw : String} {w s t t' : List Char}
    (hkw : ∀ c ∈ kw.toList, isWordChar c = true) (hw : ∀ c ∈ w, isWordChar c = true)
    (h : literal? kw (w ++ ' ' :: s) = some t) (ht : skipSpaces1? t = some t') :
    w = kw.toList ∧ t = ' ' :: s := by
  rw [literal?_eq_some_iff] at h
  rcases t with _ | ⟨c, t⟩
  · simp [skipSpaces1?] at ht
  · have hc : isSpace c = true := by
      rw [skipSpaces1?] at ht
      split at ht
      · assumption
      · cases ht
    have hword : isWordChar c = false := by
      cases hchar : isWordChar c with
      | false => rfl
      | true =>
          have hblank := isBlank_of_isNameChar (isNameChar_of_isWordChar hchar)
          rw [isBlank_of_isSpace hc] at hblank
          cases hblank
    -- Both sides have the same longest run of word characters.
    have hrun := congrArg (List.takeWhile isWordChar) h
    rw [takeWhile_append_cons hw (by decide), takeWhile_append_cons hkw hword] at hrun
    rw [hrun] at h
    exact ⟨hrun, (List.append_cancel_left h).symm⟩

theorem isSpace_of_isIdentifierStart {c : Char} (h : isIdentifierStart c = true) :
    isSpace c = false :=
  isSpace_of_isBlank_eq_false (isBlank_of_isNameChar (isNameChar_of_isWordChar
    (isWordChar_of_isIdentifierStart h)))

theorem skipSpaces1?_elementText {r : Char} (hr : isIdentifierStart r = true) (i : Nat)
    (s : List Char) : skipSpaces1? (' ' :: (elementText r i ++ s)) = some (elementText r i ++ s) :=
  skipSpaces1?_cons (isSpace_of_isIdentifierStart hr)

theorem skipSpaces_elementText {r : Char} (hr : isIdentifierStart r = true) (i : Nat)
    (s : List Char) : skipSpaces (elementText r i ++ s) = elementText r i ++ s :=
  skipSpaces_cons (isSpace_of_isIdentifierStart hr)

theorem mem_elementText {c r : Char} {i : Nat} (h : c ∈ elementText r i) :
    c = r ∨ c = '[' ∨ c.isDigit = true ∨ c = ']' := by
  simp only [elementText, List.mem_cons, List.mem_append, List.not_mem_nil, or_false] at h
  rcases h with h | h | h | h
  · exact .inl h
  · exact .inr (.inl h)
  · exact .inr (.inr (.inl (isDigit_of_mem_toDigits h)))
  · exact .inr (.inr (.inr h))

theorem notMem_elementText {c r : Char} (i : Nat) (hr : c ≠ r) (hopen : c ≠ '[') (hclose : c ≠ ']')
    (hdigit : c.isDigit = false) : c ∉ elementText r i := by
  intro h
  rcases mem_elementText h with h | h | h | h
  · exact hr h
  · exact hopen h
  · rw [hdigit] at h
    cases h
  · exact hclose h

theorem trim_elementText (i : Nat) : trim (elementText 'q' i) = elementText 'q' i :=
  trim_cons_concat (by decide) (by decide) ('[' :: Nat.toDigits 10 i)

/-- The arguments of a gate, as written after its name. -/
def argumentsText (targets : List Nat) : List Char :=
  [',', ' '].intercalate (targets.map (elementText 'q'))

/-- Behind the first argument there is a comma or the end, and never the arrow of
    a measurement. -/
theorem argumentsText_cons (t : Nat) (ts : List Nat) :
    ∃ c s, argumentsText (t :: ts) ++ [';'] = elementText 'q' t ++ c :: s
      ∧ isSpace c = false ∧ c ≠ '-' := by
  cases ts with
  | nil => exact ⟨';', [], by simp [argumentsText], by decide, by decide⟩
  | cons u us =>
      refine ⟨',', ' ' :: (argumentsText (u :: us) ++ [';']), ?_, by decide, by decide⟩
      simp [argumentsText, List.intercalate_cons_cons]

theorem notMem_argumentsText {c : Char} (targets : List Nat) (hc : c ≠ 'q' ∧ c ≠ '[' ∧ c ≠ ']')
    (hdigit : c.isDigit = false) (hseparator : c ∉ [',', ' ']) : c ∉ argumentsText targets := by
  refine notMem_intercalate hseparator fun p hp => ?_
  rcases List.mem_map.1 hp with ⟨t, -, rfl⟩
  exact notMem_elementText t hc.1 hc.2.1 hc.2.2 hdigit

namespace Statement

theorem parse?_declaration (kind : RegisterKind) {r : Char} (hr : isIdentifierStart r = true)
    (n : Nat) :
    parse? (kind.keyword.toList ++ ' ' :: (elementText r n ++ [';']))
      = some (declaration kind ⟨String.ofList [r], Nat.toDigits 10 n⟩) := by
  have hread : declaration? kind (kind.keyword.toList ++ ' ' :: (elementText r n ++ [';']))
      = some (declaration kind ⟨String.ofList [r], Nat.toDigits 10 n⟩) := by
    rw [declaration?, literal?_append]
    simp only [Option.bind_eq_bind, Option.bind_some, skipSpaces1?_elementText hr,
      element?_elementText hr]
    rfl
  -- The shapes that are tried before begin with another letter.
  cases kind with
  | quantum =>
      have hinclude : inclusion? (RegisterKind.quantum.keyword.toList
          ++ ' ' :: (elementText r n ++ [';'])) = none := rfl
      rw [parse?, hinclude, hread]
      rfl
  | classical =>
      have hinclude : inclusion? (RegisterKind.classical.keyword.toList
          ++ ' ' :: (elementText r n ++ [';'])) = none := rfl
      have hquantum : declaration? .quantum (RegisterKind.classical.keyword.toList
          ++ ' ' :: (elementText r n ++ [';'])) = none := by
        have hletter : literal? "qreg" ("creg".toList ++ ' ' :: (elementText r n ++ [';']))
            = none := rfl
        rw [declaration?, RegisterKind.keyword, RegisterKind.keyword, hletter]
        rfl
      rw [parse?, hinclude, hquantum, hread]
      rfl

theorem measurement?_written (q r : Nat) :
    measurement? ("measure".toList ++ ' ' :: (elementText 'q' q
        ++ ' ' :: '-' :: '>' :: ' ' :: (elementText 'c' r ++ [';'])))
      = some (measurement ⟨String.ofList ['q'], Nat.toDigits 10 q⟩
        ⟨String.ofList ['c'], Nat.toDigits 10 r⟩) := by
  have hq : isIdentifierStart 'q' = true := by decide
  have hc : isIdentifierStart 'c' = true := by decide
  have harrow : literal? "->"
      (skipSpaces (' ' :: '-' :: '>' :: ' ' :: (elementText 'c' r ++ [';'])))
      = some (' ' :: (elementText 'c' r ++ [';'])) := by
    rw [skipSpaces_space, skipSpaces_cons (by decide)]
    exact literal?_append "->" _
  have hspace : skipSpaces (' ' :: (elementText 'c' r ++ [';'])) = elementText 'c' r ++ [';'] := by
    rw [skipSpaces_space, skipSpaces_elementText hc]
  rw [measurement?, literal?_append]
  simp only [Option.bind_eq_bind, Option.bind_some, skipSpaces1?_elementText hq,
    element?_elementText hq, harrow, hspace, element?_elementText hc]
  rfl

theorem parse?_measurement (q r : Nat) :
    parse? ("measure".toList ++ ' ' :: (elementText 'q' q
        ++ ' ' :: '-' :: '>' :: ' ' :: (elementText 'c' r ++ [';'])))
      = some (measurement ⟨String.ofList ['q'], Nat.toDigits 10 q⟩
        ⟨String.ofList ['c'], Nat.toDigits 10 r⟩) := by
  have hother : ∀ s, inclusion? ("measure".toList ++ s) = none
      ∧ declaration? .quantum ("measure".toList ++ s) = none
      ∧ declaration? .classical ("measure".toList ++ s) = none :=
    fun _ => ⟨rfl, rfl, rfl⟩
  rcases hother (' ' :: (elementText 'q' q
    ++ ' ' :: '-' :: '>' :: ' ' :: (elementText 'c' r ++ [';']))) with ⟨hi, hq, hc⟩
  rw [parse?, hi, hq, hc, measurement?_written]
  rfl

/-! ### Gates -/

/-- A keyword before a name with another spelling is not found there. -/
theorem declaration?_of_ne (kind : RegisterKind) {name s : List Char}
    (hname : ∀ c ∈ name, isWordChar c = true) (hne : name ≠ kind.keyword.toList) :
    declaration? kind (name ++ ' ' :: s) = none := by
  have hkw : ∀ c ∈ kind.keyword.toList, isWordChar c = true := by
    cases kind <;> exact List.all_eq_true.1 (by decide)
  rw [declaration?]
  cases hcut : literal? kind.keyword (name ++ ' ' :: s) with
  | none => rfl
  | some t =>
      cases hspace : skipSpaces1? t with
      | none => simp [hspace]
      | some t' => exact absurd (eq_keyword_of_literal? hkw hname hcut hspace).1 hne

theorem inclusion?_of_ne {name s : List Char} (hname : ∀ c ∈ name, isWordChar c = true)
    (hne : name ≠ "include".toList) : inclusion? (name ++ ' ' :: s) = none := by
  rw [inclusion?]
  cases hcut : literal? "include " (name ++ ' ' :: s) with
  | none => rfl
  | some t =>
      -- The literal is the keyword and the space that has to follow it.
      have hsplit : literal? "include" (name ++ ' ' :: s) = some (' ' :: t) := by
        rw [literal?_eq_some_iff] at hcut ⊢
        exact hcut
      exact absurd (eq_keyword_of_literal? (List.all_eq_true.1 (by decide)) hname hsplit rfl).1 hne

theorem measurement?_gate {name : List Char} (hname : ∀ c ∈ name, isWordChar c = true)
    {targets : List Nat} (hne : targets ≠ []) :
    measurement? (name ++ ' ' :: (argumentsText targets ++ [';'])) = none := by
  rw [measurement?]
  cases hcut : literal? "measure" (name ++ ' ' :: (argumentsText targets ++ [';'])) with
  | none => rfl
  | some t =>
      cases hspace : skipSpaces1? t with
      | none => simp [hspace]
      | some t' =>
          -- A gate may be called `measure`, but it has no arrow.
          have hkw : ∀ c ∈ "measure".toList, isWordChar c = true := List.all_eq_true.1 (by decide)
          rcases eq_keyword_of_literal? hkw hname hcut hspace with ⟨-, rfl⟩
          rcases targets with _ | ⟨i, is⟩
          · exact absurd rfl hne
          rcases argumentsText_cons i is with ⟨c, s, htext, hc, harrow⟩
          have hq : isIdentifierStart 'q' = true := by decide
          have hnone : literal? "->" (c :: s) = none := literal?_cons_of_ne rfl harrow s
          rw [htext, skipSpaces1?_elementText hq, Option.some.injEq] at hspace
          simp only [Option.bind_eq_bind, Option.bind_some, htext, skipSpaces1?_elementText hq,
            element?_elementText hq, skipSpaces_cons hc, hnone, Option.bind_none]

/-- A gate is read with the name and the arguments that were written, unless its
    name is one of the other keywords that take a space. -/
theorem parse?_gate {a : Char} {w : List Char} (ha : isIdentifierStart a = true)
    (hw : ∀ c ∈ w, isWordChar c = true) (hinclude : a :: w ≠ "include".toList)
    (hquantum : a :: w ≠ "qreg".toList) (hclassical : a :: w ≠ "creg".toList)
    {targets : List Nat} (hne : targets ≠ []) :
    parse? (a :: w ++ ' ' :: (argumentsText targets ++ [';']))
      = some (gate (String.ofList (a :: w)) (targets.map (elementText 'q'))) := by
  have hname : ∀ c ∈ a :: w, isWordChar c = true := by
    simpa using ⟨isWordChar_of_isIdentifierStart ha, hw⟩
  -- The arguments reach up to the semicolon, of which there is only the last.
  have hsemicolon : ∀ c ∈ argumentsText targets, (c != ';') = true := by
    intro c hc
    rw [bne_iff_ne]
    rintro rfl
    exact notMem_argumentsText targets (by decide) (by decide) (by decide) hc
  have hargs : argumentsText targets ≠ [] := by
    rcases targets with _ | ⟨t, _ | ⟨u, us⟩⟩
    · exact absurd rfl hne
    · simp [argumentsText, elementText]
    · simp [argumentsText, elementText, List.intercalate_cons_cons]
  have hread : gate? (a :: w ++ ' ' :: (argumentsText targets ++ [';']))
      = some (gate (String.ofList (a :: w)) (targets.map (elementText 'q'))) := by
    have hpieces : ((argumentsText targets).splitOn ',').map trim
        = targets.map (elementText 'q') := by
      -- An element holds no comma, so commas stand between elements only.
      have hitem : ∀ p ∈ targets.map (elementText 'q'), ',' ∉ p ∧ trim p = p := by
        intro p hp
        rcases List.mem_map.1 hp with ⟨t, -, rfl⟩
        exact ⟨notMem_elementText t (by decide) (by decide) (by decide) (by decide),
          trim_elementText t⟩
      exact map_trim_splitOn_intercalate (by simpa using hne) (fun p hp => (hitem p hp).1)
        fun p hp => (hitem p hp).2
    rw [gate?, identifier?_append_cons ha hw (by decide)]
    simp only [Option.bind_eq_bind, Option.bind_some,
      takeWhile_append_cons (c := ';') (s := []) hsemicolon (by decide),
      dropWhile_append_cons (c := ';') (s := []) hsemicolon (by decide), hpieces]
    rw [if_pos ⟨by decide, hargs, trivial⟩]
  rw [parse?, inclusion?_of_ne hname hinclude, declaration?_of_ne .quantum hname hquantum,
    declaration?_of_ne .classical hname hclassical, measurement?_gate hname hne, hread]
  rfl

end Statement

theorem arguments_elementText {targets : List Nat} (h : ∀ t ∈ targets, t < Decimal.limit64) :
    arguments (some "q") (targets.map (elementText 'q')) = .ok targets := by
  induction targets with
  | nil => rfl
  | cons t ts ih =>
      have hfirst : argument (some "q") (elementText 'q' t) = .ok t := by
        have hcut := element?_elementText (show isIdentifierStart 'q' = true by decide) t []
        rw [List.append_nil] at hcut
        rw [argument, hcut]
        simp only [resolve]
        rw [if_pos (by decide), index_toDigits (h t (by simp))]
      rw [List.map_cons, arguments, hfirst]
      simp only [ih fun u hu => h u (List.mem_cons_of_mem _ hu)]
      rfl

end OpenQasm

end QuantumIR
