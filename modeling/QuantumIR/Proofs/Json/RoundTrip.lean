import QuantumIR.Proofs.Json.Tokens

/-!
# Reading Printed Values

Every JSON value is read back from its indented text.

The reader is given fuel and the printer a level, and neither says anything of the other:
how far a line is indented does not change how many calls it takes. The statement is
therefore about any level and any fuel above the length of the text, and it goes down to
the parts of a value because each of them is shorter than the whole.

A value is followed by the rest of the text it stands in. Numbers need to know of that
rest that it does not continue them, and all the others nothing. Between the brackets
stand the items with commas between them; `itemsText` is that text, and the reader of a
non-empty list takes it from the first item on, so that the induction is on the list and
not on what has been read of it.

## Main definitions

* `Json.IsWritable`: The value has a text.
* `itemsText`, `fieldsText`: What stands between brackets and between braces.
* `StartsNumber`: The characters that a number can start with.

## Theorems

* `value?_print`: A value is read back, whatever stands behind it.
* `items?_print`, `fields?_print`: So are the items of a list and the fields of an object.
* `parse?_pretty`: A value is read back from its text.
-/

namespace QuantumIR

namespace Json

open Text

mutual

/-- The value has a text: its strings are made of code units and its numerals of digits. -/
def IsWritable : Json → Prop
  | null => True
  | bool _ => True
  | natural _ => True
  | number n => n.IsWritable
  | string units => AreUnits units
  | array items => AreWritable items
  | object fields => FieldsWritable fields

/-- All values of a list have a text. -/
def AreWritable : List Json → Prop
  | [] => True
  | j :: js => j.IsWritable ∧ AreWritable js

/-- All names and values of an object have a text. -/
def FieldsWritable : List (List Nat × Json) → Prop
  | [] => True
  | (name, j) :: fs => AreUnits name ∧ j.IsWritable ∧ FieldsWritable fs

end

theorem areWritable_iff {js : List Json} : AreWritable js ↔ ∀ j ∈ js, j.IsWritable := by
  induction js with
  | nil => simp [AreWritable]
  | cons j js ih => simp [AreWritable, ih]

/-- The items of a list as they stand between its brackets. -/
def itemsText (level : Nat) : List Json → List Char
  | [] => []
  | j :: js => print level j ++ printItems level js

/-- The fields of an object as they stand between its braces. -/
def fieldsText (level : Nat) : List (List Nat × Json) → List Char
  | [] => []
  | (name, j) :: fs => quote name ++ ':' :: ' ' :: (print level j ++ printFields level fs)

/-! ### Blanks -/

theorem skipGap_newline (level : Nat) (s : List Char) :
    skipGap (newline level ++ s) = skipGap s := by
  have hgap : ∀ c ∈ newline level, isGap c = true := by
    intro c hc
    rcases List.mem_cons.1 hc with rfl | hc
    · decide
    · rw [List.eq_of_mem_replicate hc]
      decide
  exact List.dropWhile_append_of_pos hgap

theorem skipGap_cons {c : Char} (hc : isGap c = false) (s : List Char) :
    skipGap (c :: s) = c :: s :=
  List.dropWhile_cons_of_neg (by simp [hc])

theorem value?_newline (fuel level : Nat) (s : List Char) :
    value? fuel (newline level ++ s) = value? fuel s := by
  cases fuel with
  | zero => rfl
  | succ fuel => rw [value?, value?, skipGap_newline]

theorem value?_space (fuel : Nat) (s : List Char) : value? fuel (' ' :: s) = value? fuel s := by
  cases fuel with
  | zero => rfl
  | succ fuel => rw [value?, value?]; rfl

theorem items?_newline (fuel level : Nat) (s : List Char) :
    items? fuel (newline level ++ s) = items? fuel s := by
  cases fuel with
  | zero => rfl
  | succ fuel => rw [items?, items?, value?_newline]

theorem fields?_newline (fuel level : Nat) (s : List Char) :
    fields? fuel (newline level ++ s) = fields? fuel s := by
  cases fuel with
  | zero => rfl
  | succ fuel => rw [fields?, fields?, skipGap_newline]

/-! ### Values without parts -/

theorem value?_quote (fuel : Nat) {units : List Nat} (h : AreUnits units) (rest : List Char) :
    value? (fuel + 1) (quote units ++ rest) = some (string units, rest) := by
  have htext : quote units ++ rest = '"' :: (units.flatMap escape ++ '"' :: rest) := by simp [quote]
  rw [htext, value?, skipGap_cons (by decide)]
  simp only [quoted?_quote h, Option.map_some]

/-- The characters that a number can start with. -/
def StartsNumber (c : Char) : Prop :=
  c.isDigit = true ∨ c = '-'

theorem StartsNumber.ne {c d : Char} (hc : StartsNumber c) (hd : d.isDigit = false)
    (hminus : d ≠ '-') : c ≠ d := by
  rintro rfl
  rcases hc with hc | hc
  · rw [hd] at hc
    cases hc
  · exact hminus hc

theorem StartsNumber.isGap {c : Char} (hc : StartsNumber c) : isGap c = false := by
  simp [Json.isGap, hc.ne (d := ' ') (by decide) (by decide),
    hc.ne (d := '\t') (by decide) (by decide), hc.ne (d := '\n') (by decide) (by decide),
    hc.ne (d := '\r') (by decide) (by decide)]

/-- The first character of a number begins no other value. -/
theorem value?_number (fuel : Nat) {c : Char} (hc : StartsNumber c) (s : List Char) :
    value? (fuel + 1) (c :: s) = number? (c :: s) := by
  rw [value?, skipGap_cons hc.isGap]
  split
  · rename_i heq
    exact absurd (List.cons.inj heq).1 (hc.ne (by decide) (by decide))
  · rename_i heq
    exact absurd (List.cons.inj heq).1 (hc.ne (by decide) (by decide))
  · rename_i heq
    exact absurd (List.cons.inj heq).1 (hc.ne (by decide) (by decide))
  · have hnull : literal? "null" (c :: s) = none := by
      simp [literal?, List.isPrefixOf?, (hc.ne (d := 'n') (by decide) (by decide)).symm]
    have htrue : literal? "true" (c :: s) = none := by
      simp [literal?, List.isPrefixOf?, (hc.ne (d := 't') (by decide) (by decide)).symm]
    have hfalse : literal? "false" (c :: s) = none := by
      simp [literal?, List.isPrefixOf?, (hc.ne (d := 'f') (by decide) (by decide)).symm]
    rw [hnull, htrue, hfalse]
    rfl

theorem exists_cons_of_isNumeral {s : List Char} (h : IsNumeral s) (t : List Char) :
    ∃ c r, s ++ t = c :: r ∧ StartsNumber c := by
  rcases s with _ | ⟨c, s⟩
  · exact absurd rfl h.1
  · exact ⟨c, s ++ t, rfl, .inl (h.2 c List.mem_cons_self)⟩

theorem value?_toDigits (fuel n : Nat) {rest : List Char} (h : EndsValue rest) :
    value? (fuel + 1) (Nat.toDigits 10 n ++ rest) = some (natural n, rest) := by
  obtain ⟨c, r, heq, hc⟩ := exists_cons_of_isNumeral (isNumeral_toDigits n) rest
  have hread := number?_toDigits n h
  rw [heq] at hread ⊢
  rw [value?_number fuel hc, hread]

theorem exists_cons_of_isWritable {n : Numeral} (h : n.IsWritable) (t : List Char) :
    ∃ c r, n.print ++ t = c :: r ∧ StartsNumber c := by
  simp only [Numeral.print, List.append_assoc]
  cases n.negative with
  | true => exact ⟨'-', _, rfl, .inr rfl⟩
  | false => exact exists_cons_of_isNumeral h.whole _

theorem value?_numeral (fuel : Nat) {n : Numeral} (hn : n.IsWritable) {rest : List Char}
    (h : EndsValue rest) : value? (fuel + 1) (n.print ++ rest) = some (number n, rest) := by
  obtain ⟨c, r, heq, hc⟩ := exists_cons_of_isWritable hn rest
  have hread := number?_print hn h
  rw [heq] at hread ⊢
  rw [value?_number fuel hc, hread]

/-! ### Lists and objects -/

/-- A value starts with no blank, and not like the end of a list. -/
theorem exists_cons_of_print (level : Nat) {j : Json} (h : j.IsWritable) (t : List Char) :
    ∃ c r, print level j ++ t = c :: r ∧ isGap c = false ∧ c ≠ ']' := by
  match j with
  | null => exact ⟨'n', _, by rw [print]; rfl, by decide⟩
  | bool true => exact ⟨'t', _, by rw [print]; rfl, by decide⟩
  | bool false => exact ⟨'f', _, by rw [print]; rfl, by decide⟩
  | natural n =>
      obtain ⟨c, r, heq, hc⟩ := exists_cons_of_isNumeral (isNumeral_toDigits n) t
      exact ⟨c, r, by rw [print]; exact heq, hc.isGap, hc.ne (by decide) (by decide)⟩
  | number n =>
      rw [IsWritable] at h
      obtain ⟨c, r, heq, hc⟩ := exists_cons_of_isWritable h t
      exact ⟨c, r, by rw [print]; exact heq, hc.isGap, hc.ne (by decide) (by decide)⟩
  | string units => exact ⟨'"', _, by rw [print]; rfl, by decide⟩
  | array [] => exact ⟨'[', _, by rw [print]; rfl, by decide⟩
  | array (j :: js) => exact ⟨'[', _, by rw [print]; rfl, by decide⟩
  | object [] => exact ⟨'\x7b', _, by rw [print]; rfl, by decide⟩
  | object ((name, j) :: fs) => exact ⟨'\x7b', _, by rw [print]; rfl, by decide⟩

/-- Between brackets stand the items. -/
theorem print_array (level : Nat) {js : List Json} (hne : js ≠ []) (rest : List Char) :
    print level (array js) ++ rest
      = '[' :: (newline (level + 1)
        ++ (itemsText (level + 1) js ++ (newline level ++ ']' :: rest))) := by
  cases js with
  | nil => exact absurd rfl hne
  | cons j js => simp [print, itemsText]

theorem print_object (level : Nat) {fs : List (List Nat × Json)} (hne : fs ≠ [])
    (rest : List Char) :
    print level (object fs) ++ rest
      = '\x7b' :: (newline (level + 1)
        ++ (fieldsText (level + 1) fs ++ (newline level ++ '\x7d' :: rest))) := by
  cases fs with
  | nil => exact absurd rfl hne
  | cons f fs => simp [print, fieldsText]

theorem printItems_eq (level : Nat) {js : List Json} (hne : js ≠ []) (rest : List Char) :
    printItems level js ++ rest = ',' :: (newline level ++ (itemsText level js ++ rest)) := by
  cases js with
  | nil => exact absurd rfl hne
  | cons j js => simp [printItems, itemsText]

theorem printFields_eq (level : Nat) {fs : List (List Nat × Json)} (hne : fs ≠ [])
    (rest : List Char) :
    printFields level fs ++ rest = ',' :: (newline level ++ (fieldsText level fs ++ rest)) := by
  cases fs with
  | nil => exact absurd rfl hne
  | cons f fs => simp [printFields, fieldsText]

section Parts

variable {fuel level outer : Nat} {rest : List Char}

theorem value?_array {js : List Json} (hne : js ≠ []) (hjs : AreWritable js)
    (h : items? fuel (itemsText (level + 1) js ++ (newline level ++ ']' :: rest))
      = some (js, rest)) :
    value? (fuel + 1) (print level (array js) ++ rest) = some (array js, rest) := by
  rw [print_array level hne, value?, skipGap_cons (by decide)]
  simp only [skipGap_newline]
  rcases js with _ | ⟨j, js⟩
  · exact absurd rfl hne
  rw [AreWritable] at hjs
  rw [itemsText, List.append_assoc] at h ⊢
  obtain ⟨c, r, heq, hgap, hclose⟩ := exists_cons_of_print (level + 1) hjs.1
    (printItems (level + 1) js ++ (newline level ++ ']' :: rest))
  rw [heq] at h ⊢
  rw [skipGap_cons hgap]
  -- A list with an item is not taken for an empty one.
  split
  · rename_i heq
    exact absurd (List.cons.inj heq).1 hclose
  · rw [h]
    rfl

theorem value?_object {fs : List (List Nat × Json)} (hne : fs ≠ [])
    (h : fields? fuel (fieldsText (level + 1) fs ++ (newline level ++ '\x7d' :: rest))
      = some (fs, rest)) :
    value? (fuel + 1) (print level (object fs) ++ rest) = some (object fs, rest) := by
  rw [print_object level hne, value?, skipGap_cons (by decide)]
  simp only [skipGap_newline]
  rcases fs with _ | ⟨⟨name, j⟩, fs⟩
  · exact absurd rfl hne
  rw [fieldsText, quote, List.cons_append, List.cons_append, List.cons_append] at h ⊢
  rw [skipGap_cons (by decide)]
  split
  · rename_i heq
    exact absurd (List.cons.inj heq).1 (by decide)
  · rw [h]
    rfl

/-- The items before the last are followed by a comma. -/
theorem items?_cons {j : Json} {js : List Json}
    (hj : value? fuel (print level j ++ (printItems level js ++ (newline outer ++ ']' :: rest)))
      = some (j, printItems level js ++ (newline outer ++ ']' :: rest)))
    (hjs : js ≠ [] → items? fuel (itemsText level js ++ (newline outer ++ ']' :: rest))
      = some (js, rest)) :
    items? (fuel + 1) (itemsText level (j :: js) ++ (newline outer ++ ']' :: rest))
      = some (j :: js, rest) := by
  rw [itemsText, List.append_assoc, items?, hj]
  by_cases hne : js = []
  · subst hne
    simp only [printItems, List.nil_append, skipGap_newline,
      skipGap_cons (show isGap ']' = false from rfl), Option.bind_eq_bind, Option.bind_some]
    rfl
  · simp only [printItems_eq level hne, skipGap_cons (show isGap ',' = false from rfl),
      Option.bind_eq_bind, Option.bind_some, items?_newline, hjs hne]
    rfl

theorem fields?_cons {name : List Nat} (hname : AreUnits name) {j : Json}
    {fs : List (List Nat × Json)}
    (hj : value? fuel (print level j ++ (printFields level fs ++ (newline outer ++ '\x7d' :: rest)))
      = some (j, printFields level fs ++ (newline outer ++ '\x7d' :: rest)))
    (hfs : fs ≠ [] → fields? fuel (fieldsText level fs ++ (newline outer ++ '\x7d' :: rest))
      = some (fs, rest)) :
    fields? (fuel + 1) (fieldsText level ((name, j) :: fs) ++ (newline outer ++ '\x7d' :: rest))
      = some ((name, j) :: fs, rest) := by
  have htext : fieldsText level ((name, j) :: fs) ++ (newline outer ++ '\x7d' :: rest)
      = '"' :: (name.flatMap escape ++ '"' :: (':' :: ' ' :: (print level j
        ++ (printFields level fs ++ (newline outer ++ '\x7d' :: rest))))) := by
    simp [fieldsText, quote]
  rw [htext, fields?]
  simp only [skipGap_cons (show isGap '"' = false from rfl),
    skipGap_cons (show isGap ':' = false from rfl), char?, beq_self_eq_true, if_true,
    Option.bind_eq_bind, Option.bind_some, quoted?_quote hname, value?_space, hj]
  by_cases hne : fs = []
  · subst hne
    simp only [printFields, List.nil_append, skipGap_newline,
      skipGap_cons (show isGap '\x7d' = false from rfl)]
    rfl
  · simp only [printFields_eq level hne, skipGap_cons (show isGap ',' = false from rfl),
      fields?_newline, hfs hne, Option.bind_some]
    rfl

end Parts

theorem endsValue_newline (level : Nat) (s : List Char) : EndsValue (newline level ++ s) := by
  rintro c hc
  exact .inr (Option.some.inj hc).symm

theorem endsValue_printItems (level : Nat) (js : List Json) {rest : List Char}
    (h : EndsValue rest) : EndsValue (printItems level js ++ rest) := by
  cases js with
  | nil => exact h
  | cons j js =>
      rw [printItems_eq level (List.cons_ne_nil _ _)]
      rintro c hc
      exact .inl (Option.some.inj hc).symm

theorem endsValue_printFields (level : Nat) (fs : List (List Nat × Json)) {rest : List Char}
    (h : EndsValue rest) : EndsValue (printFields level fs ++ rest) := by
  cases fs with
  | nil => exact h
  | cons f fs =>
      rw [printFields_eq level (List.cons_ne_nil _ _)]
      rintro c hc
      exact .inl (Option.some.inj hc).symm

/-! ### The round trip -/

mutual

/-- A value is read back as it was written, whatever stands behind it. -/
theorem value?_print (level : Nat) {j : Json} (hj : j.IsWritable) {rest : List Char}
    (hrest : EndsValue rest) {fuel : Nat} (hfuel : (print level j).length < fuel) :
    value? fuel (print level j ++ rest) = some (j, rest) := by
  -- Along the value, the list or the object; the fuel only has to last.
  obtain ⟨fuel, rfl⟩ : ∃ k, fuel = k + 1 := ⟨fuel - 1, by omega⟩
  match j with
  | null =>
      rw [print, show "null".toList ++ rest = 'n' :: 'u' :: 'l' :: 'l' :: rest from rfl, value?,
        skipGap_cons (by decide)]
      rfl
  | bool true =>
      rw [print, if_pos rfl, show "true".toList ++ rest = 't' :: 'r' :: 'u' :: 'e' :: rest from rfl,
        value?, skipGap_cons (by decide)]
      rfl
  | bool false =>
      rw [print, if_neg Bool.false_ne_true,
        show "false".toList ++ rest = 'f' :: 'a' :: 'l' :: 's' :: 'e' :: rest from rfl,
        value?, skipGap_cons (by decide)]
      rfl
  | natural n =>
      rw [print]
      exact value?_toDigits fuel n hrest
  | number n =>
      rw [IsWritable] at hj
      rw [print]
      exact value?_numeral fuel hj hrest
  | string units =>
      rw [IsWritable] at hj
      rw [print]
      exact value?_quote fuel hj rest
  | array [] =>
      rw [print, show ['[', ']'] ++ rest = '[' :: ']' :: rest from rfl, value?,
        skipGap_cons (by decide)]
      rfl
  | array (j :: js) =>
      have hne : j :: js ≠ [] := List.cons_ne_nil _ _
      rw [IsWritable] at hj
      have hlength := congrArg List.length (print_array level hne [])
      simp only [List.append_nil, List.length_append, List.length_cons] at hlength
      exact value?_array hne hj (items?_print (level + 1) level hne hj rest (by omega))
  | object [] =>
      rw [print, show ['\x7b', '\x7d'] ++ rest = '\x7b' :: '\x7d' :: rest from rfl, value?,
        skipGap_cons (by decide)]
      rfl
  | object (f :: fs) =>
      have hne : f :: fs ≠ [] := List.cons_ne_nil _ _
      rw [IsWritable] at hj
      have hlength := congrArg List.length (print_object level hne [])
      simp only [List.append_nil, List.length_append, List.length_cons] at hlength
      exact value?_object hne (fields?_print (level + 1) level hne hj rest (by omega))

theorem items?_print (level outer : Nat) {js : List Json} (hne : js ≠ []) (hjs : AreWritable js)
    (rest : List Char) {fuel : Nat} (hfuel : (itemsText level js).length + 1 < fuel) :
    items? fuel (itemsText level js ++ (newline outer ++ ']' :: rest)) = some (js, rest) := by
  obtain ⟨fuel, rfl⟩ : ∃ k, fuel = k + 1 := ⟨fuel - 1, by omega⟩
  match js with
  | [] => exact absurd rfl hne
  | j :: js =>
      rw [AreWritable] at hjs
      rw [itemsText, List.length_append] at hfuel
      refine items?_cons (value?_print level hjs.1
        (endsValue_printItems level js (endsValue_newline outer _)) (by omega)) ?_
      intro hne
      -- The rest is shorter by the first item, its comma and its line feed.
      have hlength := congrArg List.length (printItems_eq level hne [])
      simp only [List.append_nil, List.length_append, List.length_cons] at hlength
      exact items?_print level outer hne hjs.2 rest (by omega)

theorem fields?_print (level outer : Nat) {fs : List (List Nat × Json)} (hne : fs ≠ [])
    (hfs : FieldsWritable fs) (rest : List Char) {fuel : Nat}
    (hfuel : (fieldsText level fs).length + 1 < fuel) :
    fields? fuel (fieldsText level fs ++ (newline outer ++ '\x7d' :: rest)) = some (fs, rest) := by
  obtain ⟨fuel, rfl⟩ : ∃ k, fuel = k + 1 := ⟨fuel - 1, by omega⟩
  match fs with
  | [] => exact absurd rfl hne
  | (name, j) :: fs =>
      rw [FieldsWritable] at hfs
      rw [fieldsText] at hfuel
      simp only [List.length_append, List.length_cons] at hfuel
      refine fields?_cons hfs.1 (value?_print level hfs.2.1
        (endsValue_printFields level fs (endsValue_newline outer _)) (by omega)) ?_
      intro hne
      have hlength := congrArg List.length (printFields_eq level hne [])
      simp only [List.append_nil, List.length_append, List.length_cons] at hlength
      exact fields?_print level outer hne hfs.2.2 rest (by omega)

end

/-- A value is read back from its text. -/
theorem parse?_pretty {j : Json} (h : j.IsWritable) : parse? j.pretty = some j := by
  have hread : value? ((print 0 j).length + 1) (print 0 j ++ []) = some (j, []) :=
    value?_print 0 h (by rintro c hc; cases hc) (Nat.lt_succ_self _)
  rw [List.append_nil] at hread
  rw [parse?, pretty, String.toList_ofList]
  simp only [hread, Option.bind_eq_bind, Option.bind_some]
  rfl

end Json

end QuantumIR
