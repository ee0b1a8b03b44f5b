import QuantumIR.Proofs.Assembly.Arguments

/-!
# Splitting Arguments

Cutting an argument list at its top level commas undoes joining the arguments with
commas, whatever white space was written around them. A text that is no such list, because
its brackets do not match, is cut as well, and the second half says where.

Both halves need a measure of nesting. In arguments every bracket has a partner, so there
opening and closing brackets are counted with opposite signs, and the count never falls
below zero (`level`, `WellNested`). In any other text it might, and there a bracket that
would take it below zero does not count (`depth`). The depth that the cut keeps track of
is the second one (`foldl_depthAfter`).

A cut is described by the two texts on its sides. `CutApart` says that the parts are
separated by exactly the commas at depth zero: each of these commas has some of the parts
before it and the others after it, and between any two parts there is such a comma.

## Main definitions

* `weight`: What a character adds to the number of open brackets.
* `level`, `depth`: The number of open brackets after a text, counted with a sign, and
  counted from zero up.
* `WellNested`: No bracket is without its partner, and commas stand between brackets only.
* `IsPiece`, `Padded`: The text of an argument, and such a text with white space around it.
* `CutApart`: Parts of a text that are separated by the commas at depth zero.

## Theorems

* `foldl_depthAfter`: The depth of nesting is the one that the cut follows.
* `wellNested_iff_balanced`: The texts in which all brackets have partners are those that
  stay in one piece.
* `segments_intercalate`: Texts that stay in one piece are cut apart again.
* `segments_append_comma_of_depth`, `depth_of_segments_eq_append`: The cut is made at commas
  at depth zero, and nowhere else.
* `cutApart_segments`: The parts are separated by exactly these commas.
* `arguments_joined`: What cutting gives, for joined arguments and for any text.
-/

namespace QuantumIR

namespace Assembly

open Text

/-- What a character adds to the number of open brackets. -/
def weight (c : Char) : Int :=
  if c ∈ ['(', '[', '\x7b', '<'] then 1
  else if c ∈ [')', ']', '\x7d', '>'] then -1
  else 0

/-- The number of brackets that a text opens, less the number of those that it closes. -/
def level : List Char → Int
  | [] => 0
  | c :: s => weight c + level s

/-- The number of open brackets after a text, in which a bracket that closes nothing does
    not count. -/
def depth (s : List Char) : Int :=
  s.foldl (fun n c => max 0 (n + weight c)) 0

/-- Read from left to right, the text never closes a bracket that is not open, it leaves
    none open in the end, and it has commas only where one is open. -/
structure WellNested (s : List Char) : Prop where
  nonneg : ∀ before, before <+: s → 0 ≤ level before
  closed : level s = 0
  commas : ∀ before, before ++ [','] <+: s → 0 < level before

/-- A text that can be an argument: it is not empty, shows where it begins and ends, and
    is well nested. -/
structure IsPiece (p : List Char) : Prop where
  ne_nil : p ≠ []
  first : ∀ c ∈ p.head?, isBlank c = false
  last : ∀ c ∈ p.getLast?, isBlank c = false
  wellNested : WellNested p

/-- The text is the argument with white space around it. -/
inductive Padded (p : List Char) : List Char → Prop
  | intro {before after : List Char} (hbefore : ∀ c ∈ before, isBlank c = true)
      (hafter : ∀ c ∈ after, isBlank c = true) : Padded p (before ++ (p ++ after))

/-- The parts are separated by exactly the commas of the text that stand outside all
    brackets. -/
def CutApart (text : List Char) (parts : List (List Char)) : Prop :=
  ∀ before after, (text = before ++ ',' :: after ∧ depth before = 0)
    ↔ ∃ first rest, first ≠ [] ∧ rest ≠ [] ∧ parts = first ++ rest
      ∧ before = [','].intercalate first ∧ after = [','].intercalate rest

/-! ### Brackets -/

theorem depthAfter_eq (n : Nat) (c : Char) : (depthAfter n c : Int) = max 0 (n + weight c) := by
  rw [depthAfter, weight]
  split_ifs <;> omega

/-- The depth of nesting is the one that the cut follows. -/
theorem foldl_depthAfter (s : List Char) (n : Nat) :
    ((s.foldl depthAfter n : Nat) : Int) = s.foldl (fun n c => max 0 (n + weight c)) (n : Int) := by
  induction s generalizing n with
  | nil => rfl
  | cons c s ih => rw [List.foldl_cons, List.foldl_cons, ih, depthAfter_eq]

theorem depth_eq_zero_iff (s : List Char) : depth s = 0 ↔ s.foldl depthAfter 0 = 0 := by
  have hdepth : ((s.foldl depthAfter 0 : Nat) : Int) = depth s := foldl_depthAfter s 0
  omega

/-- Where the cut does not act, the depth is the count of brackets, and what follows can be
    counted from there. -/
theorem depthAfter_add_level {n : Nat} {c : Char}
    (h : ¬ (n = 0 ∧ c ∈ [',', ')', ']', '\x7d', '>'])) (t : List Char) :
    (depthAfter n c : Int) + level t = n + level (c :: t) := by
  have hclose : c ∈ [')', ']', '\x7d', '>'] → n ≠ 0 :=
    fun hc hn => h ⟨hn, List.mem_cons_of_mem _ hc⟩
  rw [depthAfter, level, weight]
  split_ifs with hopen hc
  · omega
  · have hpos := hclose hc
    omega
  · omega

/-- A character at which the cut acts is a comma or closes a bracket. -/
theorem eq_comma_or_weight_of_mem {c : Char} (h : c ∈ [',', ')', ']', '\x7d', '>']) :
    c = ',' ∨ weight c = -1 := by
  simp only [List.mem_cons, List.not_mem_nil, or_false] at h
  rcases h with rfl | rfl | rfl | rfl | rfl <;> decide

section Level

variable {n m : Nat} {s : List Char}

/-- A text that closes no bracket too many and has no comma outside of brackets stays in
    one piece. -/
theorem nesting?_of_level (hnonneg : ∀ before, before <+: s → 0 ≤ n + level before)
    (hcommas : ∀ before, before ++ [','] <+: s → 0 < n + level before) :
    nesting? n s = some (n + level s).toNat := by
  induction s generalizing n with
  | nil => simp [nesting?, level]
  | cons c s ih =>
      have hgoes : ¬ (n = 0 ∧ c ∈ [',', ')', ']', '\x7d', '>']) := by
        rintro ⟨rfl, hc⟩
        rcases eq_comma_or_weight_of_mem hc with rfl | hweight
        · have hcomma := hcommas [] (by simp)
          simp [level] at hcomma
        · have hone := hnonneg [c] (by simp)
          simp [level, hweight] at hone
      rw [nesting?, if_neg hgoes, ih, depthAfter_add_level hgoes]
      · intro before hbefore
        rw [depthAfter_add_level hgoes]
        exact hnonneg (c :: before) (by simpa using hbefore)
      · intro before hbefore
        rw [depthAfter_add_level hgoes]
        exact hcommas (c :: before) (by simpa using hbefore)

/-- A text that stays in one piece closes no bracket too many and has no comma outside of
    brackets. -/
theorem level_of_nesting? (h : nesting? n s = some m) :
    (∀ before, before <+: s → 0 ≤ n + level before) ∧ n + level s = m
      ∧ ∀ before, before ++ [','] <+: s → 0 < n + level before := by
  induction s generalizing n with
  | nil =>
      rw [nesting?, Option.some.injEq] at h
      simp [level, h]
  | cons c s ih =>
      rw [nesting?] at h
      by_cases hstop : n = 0 ∧ c ∈ [',', ')', ']', '\x7d', '>']
      · rw [if_pos hstop] at h
        cases h
      rw [if_neg hstop] at h
      rcases ih h with ⟨hnonneg, hclosed, hcommas⟩
      refine ⟨?_, ?_, ?_⟩
      · intro before hbefore
        rcases List.prefix_cons_iff.1 hbefore with rfl | ⟨tail, rfl, htail⟩
        · simp [level]
        · rw [← depthAfter_add_level hstop]
          exact hnonneg tail htail
      · rw [← depthAfter_add_level hstop, hclosed]
      · intro before hbefore
        cases before with
        | nil =>
            -- The comma is the first character, so some bracket was open before.
            obtain rfl : ',' = c := (List.cons_prefix_cons.1 hbefore).1
            have hopen : n ≠ 0 := fun hn => hstop ⟨hn, List.mem_cons_self⟩
            rw [level]
            omega
        | cons d before =>
            rcases List.cons_prefix_cons.1 hbefore with ⟨rfl, htail⟩
            rw [← depthAfter_add_level hstop]
            exact hcommas before htail

end Level

/-- The texts that stay in one piece and leave no bracket open are those in which all
    brackets have partners. -/
theorem wellNested_iff_balanced (s : List Char) : WellNested s ↔ Balanced s := by
  have hzero : ∀ t : List Char, ((0 : Nat) : Int) + level t = level t := fun t => Int.zero_add _
  constructor
  · intro h
    have hnesting : nesting? 0 s = some (((0 : Nat) : Int) + level s).toNat := by
      refine nesting?_of_level ?_ ?_
      · intro before hbefore
        rw [hzero]
        exact h.nonneg before hbefore
      · intro before hbefore
        rw [hzero]
        exact h.commas before hbefore
    rw [Balanced, hnesting, hzero, h.closed]
    rfl
  · intro h
    rcases level_of_nesting? h with ⟨hnonneg, hclosed, hcommas⟩
    simp only [hzero] at hnonneg hclosed hcommas
    exact ⟨hnonneg, hclosed, hcommas⟩

instance (s : List Char) : Decidable (WellNested s) :=
  decidable_of_iff' _ (wellNested_iff_balanced s)

/-! ### Joined arguments -/

theorem Padded.balanced {p t : List Char} (h : Padded p t) (hp : Balanced p) : Balanced t := by
  rcases h with ⟨hbefore, hafter⟩
  rw [Balanced, nesting?_append (nesting?_of_class (by decide) 0 hbefore), nesting?_append hp]
  exact nesting?_of_class (by decide) 0 hafter

theorem Padded.trim_eq {p t : List Char} (h : Padded p t) (hp : IsPiece p) : trim t = p := by
  rcases h with ⟨hbefore, hafter⟩
  rw [trim_append_of_blank_left hbefore, trim_append_of_blank_right hafter]
  exact trim_of_ends hp.first hp.last

/-- Texts that stay in one piece are cut apart again. -/
theorem segments_intercalate {ts : List (List Char)} (hne : ts ≠ [])
    (h : ∀ t ∈ ts, Balanced t) : segments 0 ([','].intercalate ts) = ts := by
  induction ts with
  | nil => exact absurd rfl hne
  | cons t ts ih =>
      rcases List.forall_mem_cons.1 h with ⟨ht, hts⟩
      cases ts with
      | nil => rw [List.intercalate_singleton, segments_of_balanced ht]
      | cons u us =>
          rw [List.intercalate_cons_cons, List.append_assoc, List.singleton_append,
            segments_append_comma ht, ih (List.cons_ne_nil u us) hts]

section Joined

variable {ps ts : List (List Char)} (hps : ∀ p ∈ ps, IsPiece p) (h : List.Forall₂ Padded ps ts)

include hps h

theorem balanced_of_padded : ∀ t ∈ ts, Balanced t := by
  induction h with
  | nil => exact List.forall_mem_nil _
  | cons hfirst _ ih =>
      rcases List.forall_mem_cons.1 hps with ⟨hp, hps⟩
      exact List.forall_mem_cons.2
        ⟨hfirst.balanced ((wellNested_iff_balanced _).1 hp.wellNested), ih hps⟩

theorem map_trim_of_padded : ts.map trim = ps := by
  induction h with
  | nil => rfl
  | cons hfirst _ ih =>
      rcases List.forall_mem_cons.1 hps with ⟨hp, hps⟩
      rw [List.map_cons, hfirst.trim_eq hp, ih hps]

/-- Arguments that are joined with commas, and with any white space around them, are cut
    apart again. -/
theorem arguments_of_padded : arguments ([','].intercalate ts) = ps := by
  by_cases hne : ts = []
  · subst hne
    cases h
    rfl
  · rw [arguments, segments_intercalate hne (balanced_of_padded hps h),
      map_trim_of_padded hps h, dropEmptyLast, if_neg]
    -- A last argument that is empty would be dropped, but no argument is empty.
    intro hlast
    exact (hps [] (List.mem_of_getLast? hlast)).ne_nil rfl

end Joined

/-! ### Any text -/

theorem intercalate_append {sep : Char} {first rest : List (List Char)} (hfirst : first ≠ [])
    (hrest : rest ≠ []) :
    [sep].intercalate (first ++ rest)
      = [sep].intercalate first ++ sep :: [sep].intercalate rest := by
  induction first with
  | nil => exact absurd rfl hfirst
  | cons p first ih =>
      cases first with
      | nil =>
          rcases rest with _ | ⟨q, rest⟩
          · exact absurd rfl hrest
          · rw [List.singleton_append, List.intercalate_cons_cons, List.intercalate_singleton,
              List.append_assoc, List.singleton_append]
      | cons q first =>
          rw [List.cons_append, List.cons_append, List.intercalate_cons_cons, ← List.cons_append,
            ih (List.cons_ne_nil q first), List.intercalate_cons_cons]
          simp only [List.append_assoc]

/-- A comma at depth zero ends a part, whatever stands before it. -/
theorem segments_append_comma_of_depth {n : Nat} {s : List Char} (h : s.foldl depthAfter n = 0)
    (t : List Char) : segments n (s ++ ',' :: t) = segments n s ++ segments 0 t := by
  induction s generalizing n with
  | nil =>
      obtain rfl : n = 0 := h
      rw [List.nil_append, segments, segments, if_pos ⟨rfl, rfl⟩, List.singleton_append]
  | cons c s ih =>
      rw [List.foldl_cons] at h
      rw [List.cons_append, segments, segments]
      by_cases hcut : c = ',' ∧ n = 0
      · -- A comma leaves the depth as it is.
        rcases hcut with ⟨rfl, rfl⟩
        have hrest : s.foldl depthAfter 0 = 0 := h
        rw [if_pos ⟨rfl, rfl⟩, if_pos ⟨rfl, rfl⟩, ih hrest, List.cons_append]
      · rw [if_neg hcut, if_neg hcut, ih h]
        rcases hs : segments (depthAfter n c) s with _ | ⟨p, parts⟩
        · exact absurd hs (segments_ne_nil _ s)
        · rfl

/-- Between two parts the depth is zero. -/
theorem depth_of_segments_eq_append {n : Nat} {s : List Char} {first rest : List (List Char)}
    (h : segments n s = first ++ rest) (hfirst : first ≠ []) (hrest : rest ≠ []) :
    ([','].intercalate first).foldl depthAfter n = 0 := by
  induction s generalizing n first with
  | nil =>
      -- There is one part only.
      rw [segments] at h
      rcases first with _ | ⟨p, first⟩
      · exact absurd rfl hfirst
      · have hnil := (List.append_eq_nil_iff.1 (List.cons.inj h).2.symm).2
        exact absurd hnil hrest
  | cons c s ih =>
      rcases first with _ | ⟨p, first⟩
      · exact absurd rfl hfirst
      rw [segments] at h
      by_cases hcut : c = ',' ∧ n = 0
      · rw [if_pos hcut, List.cons_append, List.cons.injEq] at h
        rcases h with ⟨rfl, h⟩
        rcases hcut with ⟨rfl, rfl⟩
        rcases first with _ | ⟨q, first⟩
        · rfl
        · rw [List.intercalate_cons_cons, List.nil_append, List.singleton_append, List.foldl_cons]
          exact ih h (List.cons_ne_nil q first)
      · rw [if_neg hcut] at h
        -- The character belongs to the first part, and the others are those of the rest.
        rcases hs : segments (depthAfter n c) s with _ | ⟨q, parts⟩
        · exact absurd hs (segments_ne_nil _ s)
        · rw [hs, List.modifyHead_cons, List.cons_append, List.cons.injEq] at h
          rcases h with ⟨rfl, rfl⟩
          have hdepth := ih hs (List.cons_ne_nil q first)
          cases first with
          | nil => simpa using hdepth
          | cons r first => simpa [List.intercalate_cons_cons] using hdepth

theorem cutApart_segments (text : List Char) : CutApart text (segments 0 text) := by
  intro before after
  rw [depth_eq_zero_iff]
  constructor
  · rintro ⟨rfl, hdepth⟩
    refine ⟨segments 0 before, segments 0 after, segments_ne_nil _ _, segments_ne_nil _ _,
      ?_, ?_, ?_⟩
    · exact segments_append_comma_of_depth hdepth after
    · exact (intercalate_segments 0 before).symm
    · exact (intercalate_segments 0 after).symm
  · rintro ⟨first, rest, hfirst, hrest, hparts, rfl, rfl⟩
    refine ⟨?_, depth_of_segments_eq_append hparts hfirst hrest⟩
    rw [← intercalate_append hfirst hrest, ← hparts, intercalate_segments]

theorem dropEmptyLast_map_trim (init : List (List Char)) (last : List Char) :
    dropEmptyLast ((init ++ [last]).map trim)
      = init.map trim ++ if last.all isBlank then [] else [trim last] := by
  rw [dropEmptyLast, List.map_append, List.map_singleton, List.getLast?_concat]
  by_cases hblank : last.all isBlank = true
  · rw [if_pos (congrArg some (trim_eq_nil_iff.2 hblank)), if_pos hblank, List.dropLast_concat,
      List.append_nil]
  · rw [if_neg (fun h => hblank (trim_eq_nil_iff.1 (Option.some.inj h))), if_neg hblank]

theorem arguments_of_blank {s : List Char} (h : ∀ c ∈ s, isBlank c = true) : arguments s = [] := by
  have hone : segments 0 s = [s] := segments_of_balanced (nesting?_of_class (by decide) 0 h)
  have hblank : s.all isBlank = true := List.all_eq_true.2 h
  rw [arguments, hone, ← List.nil_append [s], dropEmptyLast_map_trim, if_pos hblank]
  rfl

/-- Arguments that are joined with commas, and with any white space around them, are found
    again by cutting, and blank text has none. Any text whatever is cut at its commas at
    depth zero, and the arguments are the parts without the white space around them, except
    that a last part that is blank is none. -/
theorem arguments_joined :
    (∀ ps ts : List (List Char), (∀ p ∈ ps, IsPiece p) → List.Forall₂ Padded ps ts →
        arguments ([','].intercalate ts) = ps)
      ∧ (∀ s : List Char, (∀ c ∈ s, isBlank c = true) → arguments s = [])
      ∧ ∀ text : List Char, ∃ init last,
          [','].intercalate (init ++ [last]) = text ∧ CutApart text (init ++ [last])
            ∧ arguments text = init.map trim ++ if last.all isBlank then [] else [trim last] := by
  refine ⟨fun ps ts => arguments_of_padded, fun s => arguments_of_blank, fun text => ?_⟩
  have hparts := List.dropLast_append_getLast (segments_ne_nil 0 text)
  refine ⟨(segments 0 text).dropLast, (segments 0 text).getLast (segments_ne_nil 0 text),
    ?_, ?_, ?_⟩
  · rw [hparts]
    exact intercalate_segments 0 text
  · rw [hparts]
    exact cutApart_segments text
  · rw [← dropEmptyLast_map_trim, hparts]
    rfl

-- A bracket that closes nothing is ignored, and one that is never closed hides the commas.
example : arguments "a), <b,, ".toList = ["a)".toList, "<b,,".toList] := by decide

/-- Arguments with brackets of every kind, with commas between them, and with characters
    that take several bytes. -/
def nestedPieces : List (List Char) :=
  ["\x7b i64, [2 x <é, 量>] \x7d %s".toList, "f(a, (b, c))".toList, "%q".toList]

/-- The same arguments with white space of several kinds around them. -/
def nestedTexts : List (List Char) :=
  ["\u3000\t\x7b i64, [2 x <é, 量>] \x7d %s".toList, "f(a, (b, c))\n ".toList,
    "\u00a0%q\r\n".toList]

theorem arguments_joined_nestedPieces :
    (∀ p ∈ nestedPieces, IsPiece p) ∧ List.Forall₂ Padded nestedPieces nestedTexts
      ∧ arguments ([','].intercalate nestedTexts) = nestedPieces
      ∧ (∀ c ∈ "\u2003\t ".toList, isBlank c = true) ∧ arguments "\u2003\t ".toList = [] := by
  have hpieces : ∀ p ∈ nestedPieces, IsPiece p := by
    refine List.forall_mem_cons.2 ⟨?_, List.forall_mem_cons.2 ⟨?_, List.forall_mem_singleton.2 ?_⟩⟩
    all_goals
      refine ⟨by decide, fun c hc => ?_, fun c hc => ?_, by decide⟩
      all_goals
        obtain rfl := Option.some.inj hc
        decide
  have htexts : nestedTexts
      = ["\u3000\t".toList ++ ("\x7b i64, [2 x <é, 量>] \x7d %s".toList ++ []),
        [] ++ ("f(a, (b, c))".toList ++ "\n ".toList),
        "\u00a0".toList ++ ("%q".toList ++ "\r\n".toList)] := by
    decide +kernel
  have hpadded : List.Forall₂ Padded nestedPieces nestedTexts := by
    rw [htexts]
    refine .cons ⟨?_, ?_⟩ (.cons ⟨?_, ?_⟩ (.cons ⟨?_, ?_⟩ .nil))
    all_goals exact List.all_eq_true.1 (by decide)
  have hspace : ∀ c ∈ "\u2003\t ".toList, isBlank c = true := List.all_eq_true.1 (by decide)
  exact ⟨hpieces, hpadded, arguments_joined.1 _ _ hpieces hpadded, hspace,
    arguments_joined.2.1 _ hspace⟩

end Assembly

end QuantumIR
