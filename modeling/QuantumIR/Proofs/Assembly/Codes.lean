import QuantumIR.Proofs.Assembly.Arguments
import QuantumIR.Proofs.Assembly.CallShape

/-!
# Reading a Single Code

What the reader makes of each code that the grammar allows. A line is read as its
code, and each code is recognised as what it is: the tests that come before the
right one fail, and the right one finds the names and operands that were written.

Most tests look at the first word of a code only, so the failing ones are settled
by `firstWord_append`. A written call has the shape of a call, and that is enough. Two
things are not obvious there. The callee follows the first `@`, and a type holds none;
the arguments end at the last closing parenthesis, and after the closing parenthesis of
the call there is no other.

## Theorems

* `content_of_framed`: A line is read as its code.
* `call?_callText`: A written call is read as this call.
* `header?_headerText`: A written header opens the function it names.
* `CallText.isCode`, `HeaderText.isCode`: Written lines are codes.
* `TerminatorText.isTerminator`, `TerminatorText.opensTable_iff`: A terminator is
  recognised, and so is a table that goes on.
-/

namespace QuantumIR

namespace Assembly

open Text

/-! ### Lines and their codes -/

theorem takeWhile_of_isInline {s : String} (h : IsInline s) :
    s.toList.takeWhile (· != ';') = s.toList :=
  List.takeWhile_eq_self_iff.2 fun c hc => bne_iff_ne.2 (h c hc).1

theorem content_of_isCode {t : String} (h : IsCode t) : content t.toList = t.toList := by
  rw [content, takeWhile_of_isInline h.inline, h.trimmed]

theorem IsMargin.inline {s : String} (h : IsMargin s) : IsInline s := by
  intro c hc
  refine ⟨?_, (h c hc).2⟩
  rintro rfl
  exact absurd (h _ hc).1 (by decide)

theorem trim_margin {before t after : String} (hbefore : IsMargin before)
    (hafter : IsMargin after) :
    trim (before ++ t ++ after).toList = trim t.toList := by
  rw [String.toList_append, String.toList_append,
    trim_append_of_blank_right (fun c hc => (hafter c hc).1),
    trim_append_of_blank_left (fun c hc => (hbefore c hc).1)]

/-- A line is read as its code. -/
theorem content_of_framed {t l : String} (ht : IsCode t) (h : Framed t l) :
    content l.toList = t.toList := by
  cases h with
  | bare hbefore hafter =>
      have hinline := (hbefore.inline.append ht.inline).append hafter.inline
      rw [content, takeWhile_of_isInline hinline, trim_margin hbefore hafter, ht.trimmed]
  | @commented before after comment hbefore hafter _ =>
      have hinline := (hbefore.inline.append ht.inline).append hafter.inline
      have hrun : ∀ c ∈ (before ++ t ++ after).toList, (c != ';') = true :=
        fun c hc => bne_iff_ne.2 (hinline c hc).1
      have htext : (before ++ t ++ after ++ ";" ++ comment).toList
          = (before ++ t ++ after).toList ++ ';' :: comment.toList := by
        simp [String.toList_append]
      rw [content, htext, takeWhile_append_cons hrun (by decide), trim_margin hbefore hafter,
        ht.trimmed]

theorem notMem_of_framed {t l : String} (ht : IsCode t) (h : Framed t l) : '\n' ∉ l.toList := by
  have hfeed : ∀ {s : String}, IsInline s → '\n' ∉ s.toList := fun hs hmem => (hs _ hmem).2 rfl
  cases h with
  | bare hbefore hafter =>
      exact hfeed ((hbefore.inline.append ht.inline).append hafter.inline)
  | commented hbefore hafter hcomment =>
      have hinline := (hbefore.inline.append ht.inline).append hafter.inline
      rw [String.toList_append, String.toList_append, List.mem_append, List.mem_append, not_or,
        not_or]
      exact ⟨⟨hfeed hinline, by decide⟩, hcomment⟩

/-- A carriage return at the end of a line makes no difference: it belongs to a
    comment or to the blanks at the end. -/
theorem content_dropReturn (l : List Char) : content (dropReturn l) = content l := by
  have hreturn : ∀ d : List Char, content (d ++ ['\r']) = content d := by
    intro d
    rw [content, content, List.takeWhile_append]
    -- Without a semicolon the carriage return is a blank at the end; with one, it belongs
    -- to the comment.
    split
    · rename_i hlength
      have hwhole : d.takeWhile (· != ';') = d :=
        (List.takeWhile_prefix _).eq_of_length hlength
      have hblank : ∀ c ∈ ['\r'].takeWhile (· != ';'), isBlank c = true :=
        List.all_eq_true.1 (by decide)
      rw [trim_append_of_blank_right hblank, hwhole]
    · rfl
  rw [dropReturn]
  split
  · rename_i hlast
    rw [← hreturn l.dropLast, List.dropLast_append_getLast? _ hlast]
  · rfl

/-! ### First words -/

theorem firstWord_append {w : String} (hw : IsName w) {rest : List Char}
    (hrest : ∀ c ∈ rest.head?, isBlank c = true) : firstWord (w.toList ++ rest) = w := by
  have hrun : ∀ c ∈ w.toList, (!isBlank c) = true := by
    intro c hc
    rw [isBlank_of_isNameChar (hw.2 c hc)]
    rfl
  rw [firstWord]
  cases rest with
  | nil => rw [List.append_nil, List.takeWhile_eq_self_iff.2 hrun, String.ofList_toList]
  | cons c rest =>
      have hc : (!isBlank c) = false := by rw [hrest c rfl]; rfl
      rw [takeWhile_append_cons hrun hc, String.ofList_toList]

/-- A name that is followed by a blank or by nothing is no label. -/
theorem label?_append {w : String} (hw : IsName w) {rest : List Char}
    (hrest : ∀ c ∈ rest.head?, isBlank c = true) : label? (w.toList ++ rest) = none := by
  have hcut : word? isNameChar (w.toList ++ rest) = some (w.toList, rest) := by
    cases rest with
    | nil =>
        rw [List.append_nil, word?, List.takeWhile_eq_self_iff.2 hw.2,
          List.dropWhile_eq_nil_iff.2 hw.2, if_neg (by simpa using hw.1)]
    | cons c rest =>
        have hc : isNameChar c = false := by
          cases hname : isNameChar c with
          | false => rfl
          | true =>
              have hblank := hrest c rfl
              rw [isBlank_of_isNameChar hname] at hblank
              cases hblank
        exact word?_append_cons hw.1 hw.2 hc
  -- What follows the word would have to be a colon alone.
  have hcolon : rest ≠ [':'] := by
    rintro rfl
    exact absurd (hrest ':' rfl) (by decide)
  rw [label?, hcut]
  simp only [Option.bind_eq_bind, Option.bind_some, if_neg hcolon]

/-- A line that begins with a name and a space is no label, and it is a terminator
    only if the name is one. -/
theorem label?_isTerminator_word {w : String} (hw : IsName w) (hother : w ∉ terminators)
    (s : List Char) :
    label? (w.toList ++ ' ' :: s) = none ∧ isTerminator (w.toList ++ ' ' :: s) = false := by
  have hspace : ∀ c ∈ (' ' :: s).head?, isBlank c = true := by
    intro c hc
    rw [List.head?_cons, Option.mem_some_iff] at hc
    rw [← hc]
    decide
  refine ⟨label?_append hw hspace, ?_⟩
  rw [isTerminator, firstWord_append hw hspace, ← Bool.not_eq_true, List.contains_iff_mem]
  exact hother

/-! ### Calls -/

section Calls

variable {output : Option String} {marker : String}

theorem exists_boundText_eq (houtput : ∀ name ∈ output, IsName name) :
    ∃ b : Option Binding, boundText b = (bindingText output).toList
      ∧ b.map Binding.output = output := by
  cases output with
  | none => exact ⟨none, rfl, rfl⟩
  | some name =>
      have hname := houtput name rfl
      refine ⟨some ⟨name.toList, [' '], [' '], hname.1, hname.2, isGap_space, isGap_space⟩, ?_, ?_⟩
      · simp [boundText, Binding.text, bindingText, String.toList_append]
      · exact congrArg some String.ofList_toList

theorem exists_markedText_eq (hmarker : marker ∈ tailMarkers) :
    ∃ m : Option TailMarker, markedText m = marker.toList := by
  have hmarkers : tailMarkers = "" :: markers.map (· ++ " ") := by decide
  rw [hmarkers, List.mem_cons, List.mem_map] at hmarker
  rcases hmarker with rfl | ⟨word, hword, rfl⟩
  · exact ⟨none, rfl⟩
  · refine ⟨some ⟨word, [' '], hword, by decide, isGap_space⟩, ?_⟩
    rw [String.toList_append]
    rfl

/-- With or without a marker, a call without a binding begins with a letter. -/
theorem marker_head (hmarker : marker ∈ tailMarkers) :
    ∃ c s, isBlank c = false
      ∧ ∀ rest : List Char, marker.toList ++ ("call".toList ++ rest) = c :: (s ++ rest) := by
  simp only [tailMarkers, List.mem_cons, List.not_mem_nil, or_false] at hmarker
  rcases hmarker with rfl | rfl | rfl | rfl
  · exact ⟨'c', "all".toList, by decide, fun _ => rfl⟩
  · exact ⟨'t', "ail call".toList, by decide, fun _ => rfl⟩
  · exact ⟨'m', "usttail call".toList, by decide, fun _ => rfl⟩
  · exact ⟨'n', "otail call".toList, by decide, fun _ => rfl⟩

end Calls

/-- The code of a call, cut where the reader cuts it. -/
theorem toList_callText (output : Option String) (marker type callee args suffix : String) :
    (bindingText output ++ marker ++ ("call " ++ type ++ " @" ++ callee
        ++ "(" ++ args ++ ")" ++ suffix)).toList
      = (bindingText output).toList ++ (marker.toList ++ ("call".toList ++ ' ' :: (type.toList
        ++ ' ' :: '@' :: (callee.toList ++ '(' :: (args.toList ++ ')' :: suffix.toList))))) := by
  simp [String.toList_append]

theorem notMem_suffix {suffix : String} (h : suffix = "" ∨ ∃ n : Nat, suffix = " #" ++ n.repr)
    {c : Char} (hc : c.isDigit = false) (hother : c ∉ [' ', '#']) : c ∉ suffix.toList := by
  rcases h with rfl | ⟨n, rfl⟩
  · exact List.not_mem_nil
  · rw [String.toList_append, Nat.toList_repr, List.mem_append, not_or]
    refine ⟨hother, fun hmem => ?_⟩
    rw [isDigit_of_mem_toDigits hmem] at hc
    cases hc

/-- A written call has the shape of a call. There is one space after `call`, and none after
    the callee. -/
theorem CallText.exists_callParts {i : Instruction} {t : String} (h : CallText i t) :
    ∃ p : CallParts, p.text = t.toList ∧ p.instruction = i := by
  rcases h with @⟨output, marker, type, callee, suffix, operands, args, houtput, hmarker, htype,
    hcallee, hargs, hsuffix⟩
  rcases exists_boundText_eq houtput with ⟨b, hbound, hname⟩
  rcases exists_markedText_eq hmarker with ⟨m, hmarked⟩
  have hclose : ')' ∉ suffix.toList := notMem_suffix hsuffix (by decide) (by decide)
  have hat : '@' ∉ type.toList ++ [' '] := by
    rw [List.mem_append, not_or]
    exact ⟨htype.2, by decide⟩
  refine ⟨⟨b, m, [' '], type.toList ++ [' '], callee.toList, [], (", ".intercalate args).toList,
    suffix.toList, by decide, isGap_space, hat, hcallee.1, hcallee.2,
    List.all_eq_true.1 rfl, hclose⟩, ?_, ?_⟩
  · rw [toList_callText, CallParts.text, hbound, hmarked]
    simp
  · have hoperands := operands_intercalate hargs
    rw [Assembly.operands] at hoperands
    simp only [CallParts.instruction, hname, hoperands, String.ofList_toList]

/-- A written call is read as this call. -/
theorem call?_callText {i : Instruction} {t : String} (h : CallText i t) :
    call? t.toList = some i := by
  rcases h.exists_callParts with ⟨p, htext, hinstruction⟩
  rw [← htext, call?_text, hinstruction]

theorem instruction_callText {i : Instruction} {t : String} (h : CallText i t) (number : Nat) :
    instruction number t.toList = .ok i := by
  have hmentions : mentionsCall t.toList = true := by
    rcases h with @⟨output, marker, type, callee, suffix, operands, args, -, -, -, -, -, -⟩
    rw [toList_callText, mentionsCall, occurs_eq_true_iff, ← List.append_assoc]
    exact ⟨_, _, List.append_assoc _ _ _⟩
  rw [instruction, if_pos hmentions, call?_callText h]

/-- Nothing that is tried before an instruction fits a call. -/
theorem callText_first {i : Instruction} {t : String} (h : CallText i t) :
    label? t.toList = none ∧ isTerminator t.toList = false := by
  rcases h with @⟨output, marker, type, callee, suffix, operands, args, -, hmarker, -, -, -, -⟩
  rw [toList_callText]
  cases output with
  | some name =>
      have htext : (bindingText (some name)).toList = '%' :: (name.toList ++ " = ".toList) := by
        simp [bindingText, String.toList_append]
      rw [htext]
      refine ⟨rfl, ?_⟩
      -- No terminator begins with this character.
      have hpercent : ∀ w ∈ terminators, w.toList.head? ≠ some '%' := by decide
      rw [isTerminator, ← Bool.not_eq_true, List.contains_iff_mem]
      intro hmem
      refine hpercent _ hmem ?_
      rw [firstWord, String.toList_ofList]
      rfl
  | none =>
      simp only [tailMarkers, List.mem_cons, List.not_mem_nil, or_false] at hmarker
      rcases hmarker with rfl | rfl | rfl | rfl
      · exact label?_isTerminator_word (w := "call") (by decide) (by decide) _
      · exact label?_isTerminator_word (w := "tail") (by decide) (by decide) _
      · exact label?_isTerminator_word (w := "musttail") (by decide) (by decide) _
      · exact label?_isTerminator_word (w := "notail") (by decide) (by decide) _

theorem isInline_of_isName {s : String} (h : IsName s) : IsInline s :=
  isInline_of_class (by decide) (by decide) h.2

theorem isInline_bindingText {output : Option String} (h : ∀ name ∈ output, IsName name) :
    IsInline (bindingText output) := by
  cases output with
  | none => decide
  | some name =>
      have hpercent : IsInline "%" := by decide
      exact (hpercent.append (isInline_of_isName (h name rfl))).append (by decide)

theorem isInline_arguments {os : List Operand} {args : List String}
    (h : List.Forall₂ ArgumentText os args) : IsInline (", ".intercalate args) := by
  intro c hc
  rw [String.toList_intercalate] at hc
  have hinline : ∀ d, (d = ';' ∨ d = '\n') →
      d ∉ ", ".toList.intercalate (args.map String.toList) := by
    intro d hd
    refine notMem_intercalate ?_ fun p hp hmem => ?_
    · rcases hd with rfl | rfl <;> decide
    · rcases List.mem_map.1 hp with ⟨t, ht, rfl⟩
      have hvalue := (isValue_of_mem h t ht).inline d hmem
      exact hd.elim hvalue.1 hvalue.2
  exact ⟨fun heq => hinline c (.inl heq) hc, fun heq => hinline c (.inr heq) hc⟩

theorem isInline_suffix {suffix : String} (h : suffix = "" ∨ ∃ n : Nat, suffix = " #" ++ n.repr) :
    IsInline suffix := by
  rcases h with rfl | ⟨n, rfl⟩
  · decide
  · have hhash : IsInline " #" := by decide
    exact hhash.append (isInline_repr n)

/-- The end of a call, from the parenthesis that closes its arguments. -/
theorem trim_suffix {suffix : String} (h : suffix = "" ∨ ∃ n : Nat, suffix = " #" ++ n.repr) :
    trim (')' :: suffix.toList) = ')' :: suffix.toList := by
  rcases h with rfl | ⟨n, rfl⟩
  · decide
  · rw [String.toList_append, Nat.toList_repr]
    exact trim_cons_append (by decide) _ Nat.toDigits_ne_nil (trim_toDigits n)

/-- The beginning of a call, whatever follows. -/
theorem callText_head (output : Option String) {marker : String} (hmarker : marker ∈ tailMarkers) :
    ∃ c s, isBlank c = false ∧ ∀ rest : List Char,
      (bindingText output).toList ++ (marker.toList ++ ("call".toList ++ rest))
        = c :: (s ++ rest) := by
  cases output with
  | some name =>
      refine ⟨'%', name.toList ++ " = ".toList ++ marker.toList ++ "call".toList, by decide, ?_⟩
      intro rest
      simp [bindingText, String.toList_append]
  | none =>
      exact marker_head hmarker

/-- A written call is a code: what is left free in it holds no semicolon and no line
    feed, and both its ends are fixed. -/
theorem CallText.isCode {i : Instruction} {t : String} (h : CallText i t) : IsCode t := by
  rcases h with @⟨output, marker, type, callee, suffix, operands, args, houtput, hmarker, htype,
    hcallee, hargs, hsuffix⟩
  constructor
  case inline =>
      have hmarked : ∀ m ∈ tailMarkers, IsInline m := by decide
      have hcall : IsInline "call " := by decide
      have htyped := (hcall.append htype.1).append (show IsInline " @" by decide)
      have hnamed := (htyped.append (isInline_of_isName hcallee)).append
        (show IsInline "(" by decide)
      have hclosed := (hnamed.append (isInline_arguments hargs)).append
        (show IsInline ")" by decide)
      exact ((isInline_bindingText houtput).append (hmarked marker hmarker)).append
        (hclosed.append (isInline_suffix hsuffix))
  case trimmed =>
      rcases callText_head output hmarker with ⟨c, s, hc, htext⟩
      have hends := trim_cons_append hc (s ++ ' ' :: (type.toList ++ ' ' :: '@' :: (callee.toList
        ++ '(' :: (", ".intercalate args).toList))) (List.cons_ne_nil _ _) (trim_suffix hsuffix)
      rw [toList_callText, htext]
      simpa using hends

/-! ### Headers, labels and terminators -/

theorem toList_headerText (type name params attributes : String) :
    ("define " ++ type ++ " @" ++ name ++ "(" ++ params ++ ")" ++ attributes ++ "\x7b").toList
      = "define".toList ++ ' ' :: (type.toList ++ ' ' :: '@' :: (name.toList
        ++ '(' :: (params.toList ++ ')' :: (attributes.toList ++ ['\x7b'])))) := by
  simp [String.toList_append]

/-- A written header opens the function it names. -/
theorem header?_headerText {name t : String} (h : HeaderText name t) :
    header? t.toList = some name := by
  rcases h with @⟨type, params, attributes, hname, htype, -, -⟩
  have hword : ∀ s, functionName? (name.toList ++ '(' :: s) = some (name.toList, '(' :: s) := by
    intro s
    rcases hchars : name.toList with _ | ⟨c, w⟩
    · exact absurd hchars hname.1
    -- A name does not begin with a quotation mark, so it is taken for a plain one.
    have hquote : c ≠ '"' := by
      rintro rfl
      exact absurd (hname.2 '"' (by rw [hchars]; simp)) (by decide)
    rw [← hchars]
    unfold functionName?
    split
    · rename_i heq
      rw [hchars] at heq
      injection heq with heq _
      exact absurd heq hquote
    · exact word?_append_cons hname.1 hname.2 (by decide)
  -- The spaces before the type are left to the search for the `@`.
  have hafter : ∀ s, after? '@' (' ' :: (type.toList ++ ' ' :: '@' :: s)) = some s := by
    intro s
    have hnone : '@' ∉ ' ' :: (type.toList ++ [' ']) := by simp [htype.2]
    have hcut := after?_append_cons hnone s
    simpa using hcut
  have hopen : ∀ s, skipSpaces ('(' :: s) = '(' :: s := fun s => skipSpaces_cons (by decide)
  rw [toList_headerText, header?, literal?_append]
  simp only [Option.bind_eq_bind, Option.bind_some, hafter, hword, hopen, char?_cons,
    String.ofList_toList]
  rfl

theorem HeaderText.isCode {name t : String} (h : HeaderText name t) : IsCode t := by
  rcases h with @⟨type, params, attributes, hname, htype, hparams, hattributes⟩
  constructor
  case inline =>
      have hdefine : IsInline "define " := by decide
      have htyped := (hdefine.append htype.1).append (show IsInline " @" by decide)
      have hnamed := (htyped.append (isInline_of_isName hname)).append (show IsInline "(" by decide)
      have hclosed := (hnamed.append hparams).append (show IsInline ")" by decide)
      exact (hclosed.append hattributes).append (by decide)
  case trimmed =>
      have hends := trim_cons_concat (c := 'd') (d := '\x7b') (by decide) (by decide)
        ("efine".toList ++ ' ' :: (type.toList ++ ' ' :: '@' :: (name.toList
          ++ '(' :: (params.toList ++ ')' :: attributes.toList))))
      rw [toList_headerText]
      simpa using hends

/-- A line outside of functions that does not begin like a definition opens none. -/
theorem header?_of_not_isPrefix {t : List Char} (h : ¬ "define".toList <+: t) :
    header? t = none := by
  have hnone : literal? "define" t = none := by
    rw [Option.eq_none_iff_forall_not_mem]
    intro s hs
    exact h ⟨s, (literal?_eq_some_iff.1 hs).symm⟩
  rw [header?, hnone]
  rfl

theorem label?_written {label : String} (h : IsName label) :
    label? (label ++ ":").toList = some label := by
  have hcut : word? isNameChar (label.toList ++ [':']) = some (label.toList, [':']) :=
    word?_append_cons h.1 h.2 (by decide)
  rw [String.toList_append, label?, show ":".toList = [':'] from rfl, hcut]
  simp only [Option.bind_eq_bind, Option.bind_some, if_true, String.ofList_toList]

theorem isCode_label {label : String} (h : IsName label) : IsCode (label ++ ":") := by
  refine ⟨(isInline_of_isName h).append (by decide), ?_⟩
  rcases hchars : label.toList with _ | ⟨c, w⟩
  · exact absurd hchars h.1
  have hc : isBlank c = false := isBlank_of_isNameChar (h.2 c (by rw [hchars]; simp))
  rw [String.toList_append, hchars]
  exact trim_cons_concat hc (by decide) w

section Terminators

variable {word t : String}

theorem isName_of_mem_terminatorWords : ∀ w ∈ terminatorWords, IsName w := by
  decide

/-- The reader knows the words with which a terminator begins. -/
theorem mem_terminators_of_mem_terminatorWords : ∀ w ∈ terminatorWords, w ∈ terminators := by
  decide

theorem TerminatorText.firstWord_eq (h : TerminatorText word t) : firstWord t.toList = word := by
  rcases h.first with ⟨rest, htext, hrest⟩
  rw [htext, firstWord_append (isName_of_mem_terminatorWords word h.terminator) hrest]

theorem TerminatorText.label?_eq_none (h : TerminatorText word t) : label? t.toList = none := by
  rcases h.first with ⟨rest, htext, hrest⟩
  rw [htext, label?_append (isName_of_mem_terminatorWords word h.terminator) hrest]

theorem TerminatorText.isTerminator (h : TerminatorText word t) : isTerminator t.toList = true := by
  rw [Assembly.isTerminator, h.firstWord_eq, List.contains_iff_mem]
  exact mem_terminators_of_mem_terminatorWords word h.terminator

/-- The reader finds that a table goes on exactly if it does. -/
theorem TerminatorText.opensTable_iff (h : TerminatorText word t) :
    opensTable t.toList = true ↔ GoesOn word t := by
  rw [opensTable, h.firstWord_eq, GoesOn]
  simp [and_assoc]

end Terminators

end Assembly

end QuantumIR
