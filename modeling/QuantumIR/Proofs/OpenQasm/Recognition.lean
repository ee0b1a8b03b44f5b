import QuantumIR.Proofs.OpenQasm.Grammar

/-!
# Recognising Statements

The statement that is made out in a line is the one that the grammar gives it. A
statement is made out by a chain of cuts, each of which takes as much as it can and
is never taken back, so it is not clear that a line of a shape could not be missed
because an early cut took too much. It could not: in every shape a piece ends at a
character that does not belong to its class.

Gates are the exception to this. The spaces after the name and the arguments are not
kept apart, since arguments may begin with spaces as well; a line has the shape of a
gate in several ways. They all give the same arguments, because arguments are
trimmed.

As cuts are functions, a line has one reading at most, and so have its parts.

## Theorems

* `element?_eq_some_iff`: An element is cut off exactly where there is one.
* `Statement.inclusion?_eq_some_iff`, `Statement.declaration?_eq_some_iff`,
  `Statement.measurement?_eq_some_iff`, `Statement.gate?_eq_some_iff`: Each shape is
  recognised exactly.
* `Statement.parse?_eq_some_iff`: The statement of a line is that of the grammar.
* `comment?_eq_some_iff`: So is the text of a comment.
* `Reads.unique`, `ElementShape.unique`, `Adds.unique`: Readings are unique.
* `Reads.not_isAside`: A statement is neither blank nor a comment.
-/

namespace QuantumIR

namespace OpenQasm

open Text

theorem element?_eq_some_iff {s r : List Char} {e : Element} :
    element? s = some (e, r) ↔ ∃ t, s = t ++ r ∧ ElementShape e t := by
  simp only [element?, Option.bind_eq_bind, Option.bind_eq_some_iff, Prod.exists,
    identifier?_eq_some_iff, char?_skipSpaces_eq_some_iff (show isSpace '[' = false by decide),
    char?_skipSpaces_eq_some_iff (show isSpace ']' = false by decide),
    word?_skipSpaces_eq_some_iff, Option.pure_def, Option.some.injEq, Prod.mk.injEq]
  constructor
  · rintro ⟨name, s₁, ⟨rfl, hname, -⟩, s₂, ⟨g₁, rfl, h₁⟩, digits, s₃, ⟨g₂, rfl, h₂, hdigits, -⟩, s₄,
      ⟨g₃, rfl, h₃⟩, rfl, rfl⟩
    exact ⟨_, by simp, .intro hname hdigits h₁ h₂ h₃⟩
  · rintro ⟨t, rfl, ht⟩
    rcases ht with @⟨name, digits, g₁, g₂, g₃, hname, hdigits, h₁, h₂, h₃⟩
    -- The name ends at a space or at the bracket, and so do the digits.
    have hafter : Stops isWordChar (g₁ ++ '[' :: (g₂ ++ (digits ++ (g₃ ++ ']' :: r)))) :=
      stops_gap_append (fun _ => isWordChar_of_isSpace) h₁ (stops_cons.2 (by decide))
    have hclose : Stops Char.isDigit (g₃ ++ ']' :: r) :=
      stops_gap_append (fun _ => isDigit_of_isSpace) h₃ (stops_cons.2 (by decide))
    exact ⟨name, _, ⟨by simp, hname, hafter⟩, _, ⟨g₁, rfl, h₁⟩, digits, _,
      ⟨g₂, rfl, h₂, hdigits, hclose⟩, r, ⟨g₃, rfl, h₃⟩, rfl, rfl⟩

theorem ElementShape.stops_isSpace {e : Element} {t : List Char} (h : ElementShape e t)
    (r : List Char) : Stops isSpace (t ++ r) := by
  rcases h with ⟨hname, -, -, -, -⟩
  rw [List.append_assoc]
  exact hname.stops_isSpace _

theorem semicolon?_eq_some_iff {s : List Char} {u : Unit} :
    semicolon? s = some u ↔ ∃ g, s = g ++ [';'] ∧ IsGap g := by
  rw [semicolon?]
  have hstops : Stops isSpace [';'] := stops_cons.2 (by decide)
  by_cases h : skipSpaces s = [';']
  · rw [if_pos h]
    rcases skipSpaces_eq_iff.1 h with ⟨g, hs, hg, -⟩
    exact ⟨fun _ => ⟨g, hs, hg⟩, fun _ => rfl⟩
  · rw [if_neg h]
    refine ⟨nofun, ?_⟩
    rintro ⟨g, hs, hg⟩
    exact absurd (skipSpaces_eq_iff.2 ⟨g, hs, hg, hstops⟩) h

theorem literal?_skipSpaces_eq_some_iff {s r : List Char} :
    literal? "->" (skipSpaces s) = some r ↔ ∃ g, s = g ++ ("->".toList ++ r) ∧ IsGap g := by
  have hstops : Stops isSpace ("->".toList ++ r) := stops_cons.2 (by decide)
  rw [literal?_eq_some_iff, skipSpaces_eq_iff]
  exact ⟨fun ⟨g, hs, hg, _⟩ => ⟨g, hs, hg⟩, fun ⟨g, hs, hg⟩ => ⟨g, hs, hg, hstops⟩⟩

theorem element?_skipSpaces_eq_some_iff {s r : List Char} {e : Element} :
    element? (skipSpaces s) = some (e, r)
      ↔ ∃ g t, s = g ++ (t ++ r) ∧ IsGap g ∧ ElementShape e t := by
  rw [element?_eq_some_iff]
  constructor
  · rintro ⟨t, hs, ht⟩
    rcases skipSpaces_eq_iff.1 hs with ⟨g, hsplit, hg, -⟩
    exact ⟨g, t, hsplit, hg, ht⟩
  · rintro ⟨g, t, hs, hg, ht⟩
    exact ⟨t, skipSpaces_eq_iff.2 ⟨g, hs, hg, ht.stops_isSpace r⟩, ht⟩

namespace Statement

theorem inclusion?_eq_some_iff {line : List Char} {statement : Statement} :
    inclusion? line = some statement ↔ InclusionShape line ∧ statement = inclusion := by
  rw [inclusion?, Option.map_eq_some_iff]
  simp only [literal?_eq_some_iff]
  constructor
  · rintro ⟨t, rfl, rfl⟩
    exact ⟨List.prefix_append _ _, rfl⟩
  · rintro ⟨⟨t, rfl⟩, rfl⟩
    exact ⟨t, rfl, rfl⟩

theorem declaration?_eq_some_iff {kind : RegisterKind} {line : List Char} {statement : Statement} :
    declaration? kind line = some statement
      ↔ ∃ e, DeclarationShape kind e line ∧ statement = declaration kind e := by
  simp only [declaration?, Option.bind_eq_bind, Option.bind_eq_some_iff, Prod.exists,
    literal?_eq_some_iff, skipSpaces1?_eq_some_iff, element?_eq_some_iff, semicolon?_eq_some_iff,
    Option.pure_def, Option.some.injEq]
  constructor
  · rintro ⟨s, rfl, _, ⟨g₁, rfl, hne, h₁, -⟩, e, _, ⟨t, rfl, ht⟩, -, ⟨g₂, rfl, h₂⟩, rfl⟩
    exact ⟨e, .intro hne h₁ ht h₂, rfl⟩
  · rintro ⟨e, @⟨t, g₁, g₂, hne, h₁, ht, h₂⟩, rfl⟩
    exact ⟨_, rfl, _, ⟨g₁, rfl, hne, h₁, ht.stops_isSpace _⟩, e, _, ⟨t, rfl, ht⟩, (), ⟨g₂, rfl, h₂⟩,
      rfl⟩

theorem measurement?_eq_some_iff {line : List Char} {statement : Statement} :
    measurement? line = some statement
      ↔ ∃ q r, MeasurementShape q r line ∧ statement = measurement q r := by
  -- The cuts behind spaces come first, or the general lemmas would take them apart.
  simp only [measurement?, Option.bind_eq_bind, Option.bind_eq_some_iff, Prod.exists,
    literal?_skipSpaces_eq_some_iff, element?_skipSpaces_eq_some_iff, Option.pure_def,
    Option.some.injEq]
  simp only [literal?_eq_some_iff, skipSpaces1?_eq_some_iff, element?_eq_some_iff,
    semicolon?_eq_some_iff]
  constructor
  · rintro ⟨_, rfl, _, ⟨g₁, rfl, hne, h₁, -⟩, q, _, ⟨t, rfl, ht⟩, _, ⟨g₂, rfl, h₂⟩, r, _,
      ⟨g₃, u, rfl, h₃, hu⟩, -, ⟨g₄, rfl, h₄⟩, rfl⟩
    exact ⟨q, r, .intro hne h₁ ht h₂ h₃ hu h₄, rfl⟩
  · rintro ⟨q, r, @⟨t, u, g₁, g₂, g₃, g₄, hne, h₁, ht, h₂, h₃, hu, h₄⟩, rfl⟩
    exact ⟨_, rfl, _, ⟨g₁, rfl, hne, h₁, ht.stops_isSpace _⟩, q, _, ⟨t, rfl, ht⟩, _,
      ⟨g₂, rfl, h₂⟩, r, _, ⟨g₃, u, rfl, h₃, hu⟩, (), ⟨g₄, rfl, h₄⟩, rfl⟩

/-- Spaces before the first argument do not matter, since arguments are trimmed. -/
theorem map_trim_splitOn_gap {g : List Char} (hg : IsGap g) (t : List Char) :
    ((g ++ t).splitOn ',').map trim = (t.splitOn ',').map trim := by
  induction g with
  | nil => rfl
  | cons c g ih =>
      rcases List.forall_mem_cons.1 hg with ⟨hc, hrest⟩
      have hcomma : ¬ (c == ',') = true := by
        rw [beq_iff_eq]
        rintro rfl
        exact absurd hc (by decide)
      rw [List.cons_append, List.splitOn_cons_eq_if_modifyHead, if_neg hcomma,
        map_trim_modifyHead_cons (isBlank_of_isSpace hc), ih hrest]

theorem gate?_eq_some_iff {line : List Char} {statement : Statement} :
    gate? line = some statement
      ↔ ∃ name args, GateShape name args line ∧ statement = gate name args := by
  simp only [gate?, Option.bind_eq_bind, Option.bind_eq_some_iff, Prod.exists,
    identifier?_eq_some_iff]
  constructor
  · rintro ⟨name, s, ⟨rfl, hname, -⟩, h⟩
    rcases s with _ | ⟨c, s⟩
    · cases h
    · -- One space is cut off, and any others are left to the arguments.
      simp only [Option.ite_none_right_eq_some, Option.some.injEq] at h
      rcases h with ⟨⟨hc, hargs, hend⟩, rfl⟩
      rcases takeWhile_dropWhile_iff.1 ⟨rfl, hend⟩ with ⟨hs, hrun, -⟩
      have hsemicolon : ';' ∉ s.takeWhile (· != ';') := by
        intro hmem
        exact absurd (hrun _ hmem) (by decide)
      refine ⟨_, _, ?_, rfl⟩
      nth_rewrite 2 [hs]
      exact .intro (g := [c]) hname (List.cons_ne_nil _ _) (List.forall_mem_singleton.2 hc) hargs
        hsemicolon
  · rintro ⟨_, _, @⟨name, g, args, hname, hne, hg, hargs, hsemicolon⟩, rfl⟩
    rcases g with _ | ⟨c, g⟩
    · exact absurd rfl hne
    · rcases List.forall_mem_cons.1 hg with ⟨hc, hrest⟩
      -- All that follows the first space counts as arguments, up to the semicolon.
      have hrun : ∀ a ∈ g ++ args, (a != ';') = true := by
        intro a ha
        rw [bne_iff_ne]
        rintro rfl
        rcases List.mem_append.1 ha with ha | ha
        · exact absurd (hrest _ ha) (by decide)
        · exact hsemicolon ha
      have hcut := takeWhile_dropWhile_iff.2 ⟨(List.append_assoc g args [';']).symm, hrun,
        stops_cons.2 (show (';' != ';') = false by decide)⟩
      refine ⟨name, _, ⟨rfl, hname, stops_cons.2 (isWordChar_of_isSpace hc)⟩, ?_⟩
      simp only [List.cons_append, hcut]
      rw [if_pos ⟨hc, by simp [hargs], trivial⟩, map_trim_splitOn_gap hrest]

/-- A line declares a register of one kind only. -/
theorem kind_eq_of_declarationShape {kind kind' : RegisterKind} {e e' : Element} {line : List Char}
    (h : DeclarationShape kind e line) (h' : DeclarationShape kind' e' line) : kind = kind' := by
  have hfirst : ∀ {k : RegisterKind} {e : Element}, DeclarationShape k e line →
      line.head? = k.keyword.toList.head? := by
    intro k e hk
    rcases hk with ⟨-, -, -, -⟩
    cases k <;> rfl
  -- The two keywords differ in their first letter.
  have hletter := (hfirst h).symm.trans (hfirst h')
  cases kind with
  | quantum =>
      cases kind' with
      | quantum => rfl
      | classical => exact absurd hletter (by decide)
  | classical =>
      cases kind' with
      | quantum => exact absurd hletter (by decide)
      | classical => rfl

theorem inclusion?_eq_none_iff {line : List Char} :
    inclusion? line = none ↔ ¬ InclusionShape line := by
  rw [Option.eq_none_iff_forall_ne_some]
  simp [inclusion?_eq_some_iff]

theorem declaration?_eq_none_iff {kind : RegisterKind} {line : List Char} :
    declaration? kind line = none ↔ ∀ e, ¬ DeclarationShape kind e line := by
  rw [Option.eq_none_iff_forall_ne_some]
  simp only [ne_eq, declaration?_eq_some_iff]
  exact ⟨fun h e he => h _ ⟨e, he, rfl⟩, fun h _ ⟨e, he, _⟩ => h e he⟩

theorem measurement?_eq_none_iff {line : List Char} :
    measurement? line = none ↔ ∀ q r, ¬ MeasurementShape q r line := by
  rw [Option.eq_none_iff_forall_ne_some]
  simp only [ne_eq, measurement?_eq_some_iff]
  exact ⟨fun h q r hqr => h _ ⟨q, r, hqr, rfl⟩, fun h _ ⟨q, r, hqr, _⟩ => h q r hqr⟩

/-- A line is taken for the statement of the first shape that fits it. -/
theorem parse?_eq_some_iff {line : List Char} {statement : Statement} :
    parse? line = some statement ↔ Reads line statement := by
  have hkinds : (∀ kind e, ¬ DeclarationShape kind e line)
      ↔ (∀ e, ¬ DeclarationShape .quantum e line) ∧ ∀ e, ¬ DeclarationShape .classical e line := by
    refine ⟨fun h => ⟨h _, h _⟩, fun h kind => ?_⟩
    cases kind with
    | quantum => exact h.1
    | classical => exact h.2
  simp only [parse?, Option.or_eq_some_iff, Option.or_eq_none_iff, inclusion?_eq_some_iff,
    inclusion?_eq_none_iff, declaration?_eq_some_iff, declaration?_eq_none_iff,
    measurement?_eq_some_iff, measurement?_eq_none_iff, gate?_eq_some_iff]
  -- The shapes are tried one after the other, so each comes with the failure of those
  -- before it.
  constructor
  · rintro ((((⟨h, rfl⟩ | ⟨hi, e, h, rfl⟩) | ⟨⟨hi, -⟩, e, h, rfl⟩) | ⟨⟨⟨hi, hq⟩, hc⟩, q, r, h, rfl⟩)
      | ⟨⟨⟨⟨hi, hq⟩, hc⟩, hm⟩, name, args, h, rfl⟩)
    · exact .inclusion h
    · exact .declaration hi h
    · exact .declaration hi h
    · exact .measurement hi (hkinds.2 ⟨hq, hc⟩) h
    · exact .gate hi (hkinds.2 ⟨hq, hc⟩) hm h
  · intro h
    cases h with
    | inclusion h => exact .inl (.inl (.inl (.inl ⟨h, rfl⟩)))
    | @declaration kind e hi h =>
        cases kind with
        | quantum => exact .inl (.inl (.inl (.inr ⟨hi, e, h, rfl⟩)))
        | classical =>
            have hq : ∀ e', ¬ DeclarationShape .quantum e' line :=
              fun e' h' => absurd (kind_eq_of_declarationShape h h') (by decide)
            exact .inl (.inl (.inr ⟨⟨hi, hq⟩, e, h, rfl⟩))
    | measurement hi hd h =>
        rcases hkinds.1 hd with ⟨hq, hc⟩
        exact .inl (.inr ⟨⟨⟨hi, hq⟩, hc⟩, _, _, h, rfl⟩)
    | gate hi hd hm h =>
        rcases hkinds.1 hd with ⟨hq, hc⟩
        exact .inr ⟨⟨⟨⟨hi, hq⟩, hc⟩, hm⟩, _, _, h, rfl⟩

end Statement

/-! ### Unique readings -/

theorem Reads.unique {line : List Char} {st st' : Statement} (h : Reads line st)
    (h' : Reads line st') : st = st' := by
  rw [← Statement.parse?_eq_some_iff] at h h'
  exact Option.some.inj (h.symm.trans h')

theorem ElementShape.unique {e e' : Element} {t : List Char} (h : ElementShape e t)
    (h' : ElementShape e' t) : e = e' := by
  have hcut : ∀ {e : Element}, ElementShape e t → element? t = some (e, []) :=
    fun h => element?_eq_some_iff.2 ⟨t, (List.append_nil t).symm, h⟩
  exact congrArg Prod.fst (Option.some.inj ((hcut h).symm.trans (hcut h')))

theorem Denotes.unique {arg : List Char} {i j : Nat} (h : Denotes arg i) (h' : Denotes arg j) :
    i = j := by
  rcases h with ⟨e, he, rfl⟩
  rcases h' with ⟨e', he', rfl⟩
  rw [he.unique he']

theorem comment?_eq_some_iff {line text : List Char} :
    comment? line = some text ↔ CommentShape text line := by
  rw [comment?, Option.map_eq_some_iff]
  simp only [literal?_eq_some_iff]
  constructor
  · rintro ⟨s, rfl, rfl⟩
    cases hspace : char? ' ' s with
    | some t =>
        rw [char?_eq_some_iff.1 hspace]
        exact .spaced t
    | none =>
        refine .tight fun hhead => ?_
        rcases s with _ | ⟨c, s⟩
        · cases hhead
        · rw [Option.getD_none, List.head?_cons, Option.some.injEq] at hhead
          rw [hhead, char?_cons] at hspace
          cases hspace
  · intro h
    cases h with
    | spaced =>
        refine ⟨' ' :: text, rfl, ?_⟩
        rw [char?_cons]
        rfl
    | tight hhead =>
        refine ⟨text, rfl, ?_⟩
        cases hspace : char? ' ' text with
        | none => rfl
        | some t =>
            rw [char?_eq_some_iff.1 hspace] at hhead
            exact absurd rfl hhead

theorem CommentShape.unique {line text text' : List Char} (h : CommentShape text line)
    (h' : CommentShape text' line) : text = text' := by
  rw [← comment?_eq_some_iff] at h h'
  exact Option.some.inj (h.symm.trans h')

/-- A line is an aside if it is blank or has the shape of a comment. -/
theorem isAside_iff {line : List Char} :
    IsAside line ↔ line = [] ∨ ∃ text, CommentShape text line := by
  rw [IsAside]
  refine or_congr_right ?_
  simp only [← comment?_eq_some_iff, comment?, Option.map_eq_some_iff, literal?_eq_some_iff]
  constructor
  · rintro ⟨s, rfl⟩
    exact ⟨_, s, rfl, rfl⟩
  · rintro ⟨text, s, rfl, -⟩
    exact List.prefix_append _ _

/-- A statement begins with a letter or an underscore. -/
theorem Reads.head {line : List Char} {statement : Statement} (h : Reads line statement) :
    ∃ c s, line = c :: s ∧ isIdentifierStart c = true := by
  cases h with
  | inclusion h =>
      rcases h with ⟨t, rfl⟩
      exact ⟨'i', _, rfl, by decide⟩
  | @declaration kind e _ h =>
      rcases h with ⟨-, -, -, -⟩
      cases kind with
      | quantum => exact ⟨'q', _, rfl, by decide⟩
      | classical => exact ⟨'c', _, rfl, by decide⟩
  | measurement _ _ h =>
      rcases h with ⟨-, -, -, -, -, -, -⟩
      exact ⟨'m', _, rfl, by decide⟩
  | gate _ _ _ h =>
      rcases h with ⟨⟨a, w, rfl, ha, -⟩, -, -, -, -⟩
      exact ⟨a, _, rfl, ha⟩

theorem Reads.not_isAside {line : List Char} {statement : Statement} (h : Reads line statement) :
    ¬ IsAside line := by
  rcases h.head with ⟨c, s, rfl, hc⟩
  rintro (hnil | ⟨t, ht⟩)
  · cases hnil
  · have hslash : '/' = c := (List.cons.inj ht).1
    rw [← hslash] at hc
    exact absurd hc (by decide)

theorem Statement.Adds.unique {statement : Statement} {ops ops' : List Operation}
    (h : statement.Adds ops) (h' : statement.Adds ops') : ops = ops' := by
  cases h with
  | inclusion | declaration | measurement =>
      cases h'
      rfl
  | gate name h =>
      cases h' with
      | gate name h' =>
          have hunique : Relator.RightUnique Denotes := fun _ _ _ => Denotes.unique
          rw [List.right_unique_forall₂' hunique h h']

/-- A line adds one list of operations only. -/
theorem Adds.unique {line : List Char} {ops ops' : List Operation} (h : Adds line ops)
    (h' : Adds line ops') : ops = ops' := by
  have haside : ∀ {text : List Char}, CommentShape text line → IsAside line :=
    fun h => isAside_iff.2 (.inr ⟨_, h⟩)
  have hblank : ∀ {text : List Char}, CommentShape text line → line ≠ [] := by
    rintro text hcomment rfl
    cases hcomment
  -- Blank lines, comments and statements exclude each other, so both readings are of
  -- one kind.
  cases h with
  | blank h =>
      cases h' with
      | blank => rfl
      | comment h' => exact absurd h (hblank h')
      | statement h' => exact absurd (.inl h) h'.not_isAside
  | comment h =>
      cases h' with
      | blank h' => exact absurd h' (hblank h)
      | comment h' => rw [h.unique h']
      | statement h' => exact absurd (haside h) h'.not_isAside
  | statement h hops =>
      cases h' with
      | blank h' => exact absurd (.inl h') h.not_isAside
      | comment h' => exact absurd (haside h') h.not_isAside
      | statement h' hops' =>
          rw [h.unique h'] at hops
          exact hops.unique hops'

end OpenQasm

end QuantumIR
