import QuantumIR.Proofs.Assembly.Grammar

/-!
# Reading Written Arguments

An argument list that was written from operands is read as these operands. There
are two halves. The list is cut at its top level commas, which finds the arguments
again because none of them has such a comma or an unmatched bracket; and each
argument, taken by itself, is read as the operand it was written for.

`nesting?` follows the depth of nesting like the cut does, but gives up where the
cut would act, at a comma or at a bracket that closes nothing. A text through which
it gets stays in one piece whatever follows it.

## Main definitions

* `nesting?`: The depth of nesting after a text that stays in one piece.
* `Balanced`: A text that stays in one piece and leaves no bracket open.

## Theorems

* `segments_append`: A text that stays in one piece begins the first part.
* `arguments_intercalate`: Balanced arguments joined by commas are cut apart again.
* `parse_argumentText`: A written operand is read as this operand.
* `operands_intercalate`: A written list of operands is read as this list.
-/

namespace QuantumIR

namespace Assembly

open Text

/-! ### Cutting at commas -/

/-- The depth of nesting after a text, unless the text holds a comma outside all
    brackets or closes a bracket that it has not opened. -/
def nesting? : Nat → List Char → Option Nat
  | depth, [] => some depth
  | depth, c :: s =>
    if depth = 0 ∧ c ∈ [',', ')', ']', '\x7d', '>'] then none else nesting? (depthAfter depth c) s

/-- The text stays in one piece and leaves no bracket open. -/
def Balanced (s : List Char) : Prop :=
  nesting? 0 s = some 0

instance (s : List Char) : Decidable (Balanced s) :=
  inferInstanceAs (Decidable (_ = _))

theorem nesting?_append {depth depth' : Nat} {s : List Char} (h : nesting? depth s = some depth')
    (t : List Char) : nesting? depth (s ++ t) = nesting? depth' t := by
  induction s generalizing depth with
  | nil =>
      rw [nesting?, Option.some.injEq] at h
      rw [h, List.nil_append]
  | cons c s ih =>
      rw [nesting?] at h
      rw [List.cons_append, nesting?]
      by_cases hstop : depth = 0 ∧ c ∈ [',', ')', ']', '\x7d', '>']
      · rw [if_pos hstop] at h
        cases h
      · rw [if_neg hstop] at h ⊢
        exact ih h

/-- A text that stays in one piece begins the first part, whatever follows it. -/
theorem segments_append {depth depth' : Nat} {s : List Char} (h : nesting? depth s = some depth')
    (t : List Char) :
    segments depth (s ++ t) = (segments depth' t).modifyHead (s ++ ·) := by
  induction s generalizing depth with
  | nil =>
      rw [nesting?, Option.some.injEq] at h
      rw [h, List.nil_append]
      cases segments depth' t <;> rfl
  | cons c s ih =>
      rw [nesting?] at h
      by_cases hstop : depth = 0 ∧ c ∈ [',', ')', ']', '\x7d', '>']
      · rw [if_pos hstop] at h
        cases h
      · rw [if_neg hstop] at h
        have hcomma : ¬ (c = ',' ∧ depth = 0) := fun hc => hstop ⟨hc.2, by simp [hc.1]⟩
        rw [List.cons_append, segments, if_neg hcomma, ih h]
        cases segments depth' t <;> rfl

/-- The characters that can change the depth or end a part. -/
def cutMarks : List Char :=
  [',', '(', '[', '\x7b', '<', ')', ']', '\x7d', '>']

/-- Characters of a class without commas and brackets leave the depth as it is. -/
theorem nesting?_of_class {p : Char → Bool} (hp : cutMarks.all (fun c => !p c) = true)
    (depth : Nat) {s : List Char} (h : ∀ c ∈ s, p c = true) : nesting? depth s = some depth := by
  induction s with
  | nil => rfl
  | cons c s ih =>
      have hc : c ∉ cutMarks := by
        intro hmem
        have hnot := List.all_eq_true.1 hp c hmem
        rw [h c List.mem_cons_self] at hnot
        cases hnot
      simp only [cutMarks, List.mem_cons, List.not_mem_nil, or_false, not_or] at hc
      have hdepth : depthAfter depth c = depth := by simp [depthAfter, hc]
      rw [nesting?, if_neg (by simp [hc]), hdepth]
      exact ih fun d hd => h d (List.mem_cons_of_mem _ hd)

theorem segments_of_balanced {s : List Char} (h : Balanced s) : segments 0 s = [s] := by
  have hone := segments_append h []
  simpa [segments] using hone

theorem segments_append_comma {s : List Char} (h : Balanced s) (t : List Char) :
    segments 0 (s ++ ',' :: t) = s :: segments 0 t := by
  rw [segments_append h, segments, if_pos ⟨rfl, rfl⟩, List.modifyHead_cons, List.append_nil]

/-- Arguments that are joined by commas are cut apart again. -/
theorem arguments_intercalate {ps : List (List Char)} (hbalanced : ∀ p ∈ ps, Balanced p)
    (htrim : ∀ p ∈ ps, trim p = p) (hsome : ∀ p ∈ ps, p ≠ []) :
    arguments ([',', ' '].intercalate ps) = ps := by
  by_cases hne : ps = []
  · rw [hne]
    rfl
  · have hcut : (segments 0 ([',', ' '].intercalate ps)).map trim = ps := by
      refine map_trim_cut_intercalate hne ?_ ?_ ?_ htrim
      · exact fun p hp => segments_of_balanced (hbalanced p hp)
      · exact fun p hp => segments_append_comma (hbalanced p hp)
      · intro t
        rw [segments, if_neg (by decide)]
        rfl
    -- A last argument that is empty would be dropped, but no argument is empty.
    rw [arguments, hcut, dropEmptyLast, if_neg]
    intro hlast
    exact hsome [] (List.mem_of_getLast? hlast) rfl

/-! ### Values -/

theorem IsInline.append {s t : String} (hs : IsInline s) (ht : IsInline t) : IsInline (s ++ t) := by
  intro c hc
  rw [String.toList_append, List.mem_append] at hc
  rcases hc with hc | hc
  · exact hs c hc
  · exact ht c hc

/-- Characters of a class without semicolon and line feed. -/
theorem isInline_of_class {p : Char → Bool} (hsemicolon : p ';' = false) (hfeed : p '\n' = false)
    {s : String} (h : ∀ c ∈ s.toList, p c = true) : IsInline s := by
  intro c hc
  constructor
  · rintro rfl
    rw [h _ hc] at hsemicolon
    cases hsemicolon
  · rintro rfl
    rw [h _ hc] at hfeed
    cases hfeed

theorem isInline_repr (n : Nat) : IsInline n.repr := by
  refine isInline_of_class (p := Char.isDigit) (by decide) (by decide) fun c hc => ?_
  rw [Nat.toList_repr] at hc
  exact isDigit_of_mem_toDigits hc

/-- A value that stays in one piece and shows where it ends. -/
structure IsValue (v : String) : Prop where
  ne_nil : v.toList ≠ []
  inline : IsInline v
  trimmed : trim v.toList = v.toList
  balanced : Balanced v.toList

/-- The characters of values that are words. -/
def isValueChar (c : Char) : Bool :=
  isNameChar c || c == '%'

theorem isBlank_of_isValueChar {c : Char} (h : isValueChar c = true) : isBlank c = false := by
  rw [isValueChar, Bool.or_eq_true, beq_iff_eq] at h
  rcases h with h | rfl
  · exact isBlank_of_isNameChar h
  · decide

theorem isValue_of_word {v : String} (hne : v.toList ≠ [])
    (h : ∀ c ∈ v.toList, isValueChar c = true) : IsValue v where
  ne_nil := hne
  inline := isInline_of_class (by decide) (by decide) h
  trimmed := by
    refine trim_of_ends ?_ ?_
    · exact fun c hc => isBlank_of_isValueChar (h c (List.mem_of_head? hc))
    · exact fun c hc => isBlank_of_isValueChar (h c (List.mem_of_getLast? hc))
  balanced := nesting?_of_class (by decide) 0 h

theorem isValueChar_of_isDigit {c : Char} (h : c.isDigit = true) : isValueChar c = true := by
  rw [isValueChar, isNameChar_of_isWordChar (isWordChar_of_isDigit h), Bool.true_or]

theorem isValue_name {name : String} (h : IsName name) : IsValue ("%" ++ name) := by
  refine isValue_of_word (by simp) ?_
  intro c hc
  rw [String.toList_append, List.mem_append] at hc
  rcases hc with hc | hc
  · rw [show "%".toList = ['%'] from rfl, List.mem_singleton] at hc
    rw [hc]
    decide
  · rw [isValueChar, h.2 c hc, Bool.true_or]

theorem isValue_integer (n : Int) : IsValue n.repr := by
  have hdigits : ∀ c ∈ Nat.toDigits 10 n.natAbs, isValueChar c = true :=
    fun c hc => isValueChar_of_isDigit (isDigit_of_mem_toDigits hc)
  refine isValue_of_word ?_ ?_
  · rw [toList_repr_int]
    split
    · exact Nat.toDigits_ne_nil
    · exact List.cons_ne_nil _ _
  · intro c hc
    rw [toList_repr_int] at hc
    split at hc
    · exact hdigits c hc
    · rcases List.mem_cons.1 hc with rfl | hc
      · decide
      · exact hdigits c hc

/-- The constant address of a pointer, as a list of characters. -/
theorem toList_address (kind : PointerKind) (n : Nat) :
    ("inttoptr (i64 " ++ n.repr ++ " to " ++ kind.type ++ ")").toList
      = "inttoptr".toList ++ ' ' :: '(' :: ("i64".toList ++ ' ' :: (Nat.toDigits 10 n
        ++ ' ' :: ("to".toList ++ ' ' :: (kind.type.toList ++ [')'])))) := by
  simp [String.toList_append, Nat.toList_repr]

theorem isValue_address (kind : PointerKind) (n : Nat) :
    IsValue ("inttoptr (i64 " ++ n.repr ++ " to " ++ kind.type ++ ")") := by
  have hkind : IsInline kind.type := by cases kind <;> decide
  have htext := toList_address kind n
  constructor
  case ne_nil =>
      rw [htext]
      simp
  case inline =>
      have hopen : IsInline "inttoptr (i64 " := by decide
      exact (((hopen.append (isInline_repr n)).append (by decide)).append hkind).append (by decide)
  case trimmed =>
      have hends := trim_cons_concat (c := 'i') (d := ')') (by decide) (by decide)
        ("nttoptr (i64 ".toList ++ Nat.toDigits 10 n ++ " to ".toList ++ kind.type.toList)
      rw [htext]
      simpa using hends
  case balanced =>
      -- The digits stand inside the only pair of brackets.
      have hopen : nesting? 0 "inttoptr (i64 ".toList = some 1 := by decide
      have hinside : nesting? 1 (Nat.toDigits 10 n) = some 1 :=
        nesting?_of_class (p := Char.isDigit) (by decide) 1 fun c hc => isDigit_of_mem_toDigits hc
      have hclose : nesting? 1 (" to ".toList ++ (kind.type.toList ++ [')'])) = some 0 := by
        cases kind <;> decide
      have hsplit : ("inttoptr (i64 " ++ n.repr ++ " to " ++ kind.type ++ ")").toList
          = "inttoptr (i64 ".toList ++ (Nat.toDigits 10 n
            ++ (" to ".toList ++ (kind.type.toList ++ [')']))) := by
        simp [String.toList_append, Nat.toList_repr]
      rw [Balanced, hsplit, nesting?_append hopen, nesting?_append hinside, hclose]

/-! ### Reading -/

theorem intToPtr?_address (kind : PointerKind) {n : Nat} (h : n < Decimal.limit64) :
    Operand.intToPtr? ("inttoptr".toList ++ ' ' :: '(' :: ("i64".toList ++ ' ' :: (Nat.toDigits 10 n
      ++ ' ' :: ("to".toList ++ ' ' :: (kind.type.toList ++ [')']))))) = some n := by
  have hopen : ∀ s, skipSpaces (' ' :: '(' :: s) = '(' :: s := by
    intro s
    rw [skipSpaces_space, skipSpaces_cons (by decide)]
  have hword : ∀ s, skipSpaces ("i64".toList ++ s) = "i64".toList ++ s :=
    fun s => skipSpaces_cons (by decide)
  have hnumber : ∀ s, skipSpaces1? (' ' :: (Nat.toDigits 10 n ++ s))
      = some (Nat.toDigits 10 n ++ s) := by
    intro s
    rw [skipSpaces1?, if_pos (by decide), skipSpaces_toDigits]
  have hto : ∀ s, skipSpaces1? (' ' :: ("to".toList ++ s)) = some ("to".toList ++ s) :=
    fun s => skipSpaces1?_cons (by decide)
  -- The type between `to` and the closing parenthesis is passed over.
  have hclose : (skipSpaces1? (' ' :: (kind.type.toList ++ [')']))).bind (after? ')')
      = some [] := by
    cases kind <;> rfl
  rw [Option.bind_eq_some_iff] at hclose
  rcases hclose with ⟨rest, hspaces, hafter⟩
  rw [Operand.intToPtr?, literal?_append]
  simp only [Option.bind_eq_bind, Option.bind_some, hopen, char?_cons, hword, literal?_append,
    hnumber, word?_toDigits n (show ' '.isDigit = false by decide), hto, hspaces, hafter,
    List.isEmpty_nil, if_true, Decimal.unsigned64?_toDigits h]

theorem constantPointer?_address (kind : PointerKind) {n : Nat} (h : n < Decimal.limit64) :
    Operand.constantPointer? ("inttoptr (i64 " ++ n.repr ++ " to " ++ kind.type ++ ")").toList
      = some n := by
  rw [Operand.constantPointer?, toList_address, intToPtr?_address kind h]
  rfl

theorem ofTyped_pointer (kind : PointerKind) (value text : List Char) :
    Operand.ofTyped kind.type.toList value text
      = kind.operand (Operand.constantPointer? value) := by
  cases kind <;> rfl

theorem signed64?_toDigits {n : Nat} (h : n < Decimal.limit63) :
    Decimal.signed64? (Nat.toDigits 10 n) = some (n : Int) := by
  have hread : ((Decimal.natural? (Nat.toDigits 10 n)).filter (· < Decimal.limit63)).map
      (fun n => (n : Int)) = some (n : Int) := by
    rw [Decimal.natural?_toDigits, Option.filter_some, if_pos (by simpa using h)]
    rfl
  rw [← hread]
  -- The first character is a digit and so no sign.
  rcases hdigits : Nat.toDigits 10 n with _ | ⟨d, ds⟩
  · exact absurd hdigits Nat.toDigits_ne_nil
  · have hd : d.isDigit = true := isDigit_of_mem_toDigits (n := n) (by rw [hdigits]; simp)
    unfold Decimal.signed64?
    split
    · rename_i heq
      injection heq with heq _
      rw [heq] at hd
      cases hd
    · rename_i heq
      injection heq with heq _
      rw [heq] at hd
      cases hd
    · rfl

theorem signed64?_repr {n : Int} (hlow : -(Decimal.limit63 : Int) ≤ n)
    (hhigh : n < Decimal.limit63) : Decimal.signed64? n.repr.toList = some n := by
  rw [toList_repr_int]
  by_cases hsign : 0 ≤ n
  · rw [if_pos hsign, signed64?_toDigits (by omega), Int.natAbs_of_nonneg hsign]
  · have hbound : n.natAbs ≤ Decimal.limit63 := by omega
    rw [if_neg hsign, Decimal.signed64?, Decimal.natural?_toDigits, Option.filter_some,
      if_pos (by simpa using hbound)]
    exact congrArg some (show -(n.natAbs : Int) = n by omega)

theorem parse?_name (s : List Char) : Binary64.parse? ('%' :: s) = none := by
  -- None of the words for special values begins with this character, and no digit does.
  have hword : ∀ w : String, w.toList.head? ≠ some '%' →
      String.ofList (('%' :: s).map Char.toLower) ≠ w := by
    intro w hw heq
    rw [← heq, String.toList_ofList] at hw
    exact hw rfl
  rw [Binary64.parse?, show Decimal.sign ('%' :: s) = (false, '%' :: s) from rfl]
  simp only [hword "inf" (by decide), hword "infinity" (by decide), hword "nan" (by decide)]
  rfl

theorem ofTyped_name {type name : String} (htype : type ∈ ["i64", "i1", "double"])
    (h : IsName name) (text : List Char) :
    Operand.ofTyped type.toList ("%" ++ name).toList text = .named name := by
  rcases hchars : name.toList with _ | ⟨c, w⟩
  · exact absurd hchars h.1
  have hname : String.ofList (c :: w) = name := by rw [← hchars, String.ofList_toList]
  have hvalue : ("%" ++ name).toList = '%' :: c :: w := by
    rw [String.toList_append, hchars]
    rfl
  rw [hvalue, ← hname]
  simp only [List.mem_cons, List.not_mem_nil, or_false] at htype
  rcases htype with rfl | rfl | rfl
  · rfl
  · rfl
  · have hdouble : Operand.ofTyped "double".toList ('%' :: c :: w) text
        = ((Binary64.parse? ('%' :: c :: w)).map Operand.double).getD
          (Operand.ofName ('%' :: c :: w) text) := rfl
    rw [hdouble, parse?_name]
    rfl

/-- The types that arguments are written with. -/
def argumentTypes : List String :=
  ["%Qubit*", "%Result*", "ptr", "i64", "i1", "double"]

theorem type_mem_argumentTypes (kind : PointerKind) : kind.type ∈ argumentTypes := by
  cases kind <;> decide

/-- A written operand is a type and a value that together are this operand. -/
theorem ArgumentText.exists_typed {o : Operand} {t : String} (h : ArgumentText o t) :
    ∃ type value, t = type ++ " " ++ value ∧ type ∈ argumentTypes ∧ IsValue value
      ∧ Operand.ofTyped type.toList value.toList t.toList = o := by
  cases h with
  | null kind =>
      refine ⟨kind.type, "null", rfl, type_mem_argumentTypes kind,
        isValue_of_word (by decide) (List.all_eq_true.1 (by decide)), ?_⟩
      rw [ofTyped_pointer]
      rfl
  | @address kind n hn =>
      refine ⟨kind.type, _, rfl, type_mem_argumentTypes kind, isValue_address kind n, ?_⟩
      rw [ofTyped_pointer, constantPointer?_address kind hn]
  | @dynamic kind name hname =>
      refine ⟨kind.type, _, rfl, type_mem_argumentTypes kind, isValue_name hname, ?_⟩
      rw [ofTyped_pointer, String.toList_append]
      rfl
  | @integer n hlow hhigh =>
      refine ⟨"i64", _, rfl, by decide, isValue_integer n, ?_⟩
      have hread := signed64?_repr hlow hhigh
      exact (congrArg (fun v : Option Int => (v.map Operand.integer).getD _) hread).trans rfl
  | bool b =>
      refine ⟨"i1", _, rfl, by decide, ?_, ?_⟩
      · cases b <;> exact isValue_of_word (by decide) (List.all_eq_true.1 (by decide))
      · cases b <;> rfl
  | @named type name htype hname =>
      refine ⟨type, _, rfl, ?_, isValue_name hname, ofTyped_name htype hname _⟩
      simp only [List.mem_cons, List.not_mem_nil, or_false] at htype
      rcases htype with rfl | rfl | rfl <;> decide

theorem parse_typed {type value : List Char} (htype : ∀ c ∈ type, (!isBlank c) = true)
    (hvalue : trim value = value) :
    Operand.parse (type ++ ' ' :: value)
      = Operand.ofTyped type value (type ++ ' ' :: value) := by
  have hspace : (!isBlank ' ') = false := by decide
  rw [Operand.parse, dropWhile_append_cons htype hspace, takeWhile_append_cons htype hspace]
  simp only [hvalue]

/-- What is known of the types of arguments, once for all of them. -/
theorem argumentTypes_spec {type : String} (h : type ∈ argumentTypes) :
    type.toList.all (fun c => !isBlank c) = true ∧ type.toList ≠ [] ∧ IsInline (type ++ " ")
      ∧ Balanced (type.toList ++ [' ']) := by
  simp only [argumentTypes, List.mem_cons, List.not_mem_nil, or_false] at h
  rcases h with rfl | rfl | rfl | rfl | rfl | rfl <;> decide

/-- A written operand is read as this operand. -/
theorem parse_argumentText {o : Operand} {t : String} (h : ArgumentText o t) :
    Operand.parse t.toList = o := by
  rcases h.exists_typed with ⟨type, value, rfl, htype, hvalue, hread⟩
  have htext : (type ++ " " ++ value).toList = type.toList ++ ' ' :: value.toList := by
    simp [String.toList_append]
  rw [htext] at hread ⊢
  rw [parse_typed (List.all_eq_true.1 (argumentTypes_spec htype).1) hvalue.trimmed, hread]

/-- A written operand is a value in the wider sense: it stays in one piece and shows
    where it ends. -/
theorem ArgumentText.isValue {o : Operand} {t : String} (h : ArgumentText o t) : IsValue t := by
  rcases h.exists_typed with ⟨type, value, rfl, htype, hvalue, -⟩
  rcases argumentTypes_spec htype with ⟨hchars, hne, hinline, hbalanced⟩
  have htext : (type ++ " " ++ value).toList = type.toList ++ [' '] ++ value.toList := by
    simp [String.toList_append]
  constructor
  case ne_nil =>
      rw [htext]
      simp
  case inline => exact hinline.append hvalue.inline
  case trimmed =>
      rcases hfirst : type.toList with _ | ⟨c, w⟩
      · exact absurd hfirst hne
      have hc : isBlank c = false := by
        simpa using List.all_eq_true.1 hchars c (by rw [hfirst]; exact List.mem_cons_self)
      rw [htext, hfirst]
      exact trim_cons_append hc (w ++ [' ']) hvalue.ne_nil hvalue.trimmed
  case balanced =>
      rw [htext, Balanced, nesting?_append hbalanced]
      exact hvalue.balanced

section Lists

variable {os : List Operand} {args : List String}

theorem isValue_of_mem (h : List.Forall₂ ArgumentText os args) : ∀ t ∈ args, IsValue t := by
  induction h with
  | nil => exact List.forall_mem_nil _
  | cons hfirst _ ih => exact List.forall_mem_cons.2 ⟨hfirst.isValue, ih⟩

theorem map_parse (h : List.Forall₂ ArgumentText os args) :
    (args.map String.toList).map Operand.parse = os := by
  induction h with
  | nil => rfl
  | cons hfirst _ ih => rw [List.map_cons, List.map_cons, parse_argumentText hfirst, ih]

/-- A written list of operands is read as this list. -/
theorem operands_intercalate (h : List.Forall₂ ArgumentText os args) :
    operands (", ".intercalate args).toList = os := by
  have hvalue : ∀ p ∈ args.map String.toList, Balanced p ∧ trim p = p ∧ p ≠ [] := by
    intro p hp
    rcases List.mem_map.1 hp with ⟨t, ht, rfl⟩
    have ht := isValue_of_mem h t ht
    exact ⟨ht.balanced, ht.trimmed, ht.ne_nil⟩
  rw [operands, String.toList_intercalate]
  refine (congrArg (List.map Operand.parse) ?_).trans (map_parse h)
  exact arguments_intercalate (fun p hp => (hvalue p hp).1) (fun p hp => (hvalue p hp).2.1)
    (fun p hp => (hvalue p hp).2.2)

end Lists

end Assembly

end QuantumIR
