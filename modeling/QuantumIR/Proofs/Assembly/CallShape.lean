import QuantumIR.Assembly.Reader
import QuantumIR.Proofs.Text.Shape

/-!
# The Shape of a Call

Which lines have the shape of a call, and into which parts such a line falls.

The reader cuts a line from left to right and never goes back, although the shape has
optional parts at its beginning, a type of which only the end is known, and arguments
that may hold parentheses. No other cut is possible: what stands before the binding or
the marker of a line decides whether it has one, a type ends at the first `@`, a callee
takes all name characters that follow, and the arguments end at the last closing
parenthesis. The only choice left is which of the spaces after `call` to count to the
type. Nothing depends on it, and if the type takes none of them, there is no choice.

`CallParts` holds the parts of a line, with the proof that each is of its kind. So a line
has the shape of a call if it is the text of some `CallParts`, and that the reader
accepts exactly these lines, and reads each as its parts say, is all there is to know
about it. In a `CallLine` the type takes no spaces, so each line is the text of one
`CallLine` at most.

## Main definitions

* `Binding`, `TailMarker`: What may stand before an opcode.
* `CallParts`: The parts of a line with the shape of a call.
* `CallParts.instruction`: What the parts say.
* `CallParts.Agrees`: The same parts, but for the spaces before the type.
* `CallLine`: The parts in which the type does not begin with a space.

## Theorems

* `binding?_boundText`, `skipTailMarker_text`: What stands before an opcode is cut off.
* `boundText_inj`, `markedText_inj`: It is determined by the line.
* `plain?_boundText`: Behind a binding every word of small letters can be an opcode.
* `call?_text`, `exists_callLine`: The lines that are read as calls.
* `CallParts.agrees_of_text_eq`, `CallLine.text_inj`: The parts of a line are determined by
  the line.
* `instruction_callLine`: A line that mentions a call is read exactly if it has the
  shape of one, and as its parts say.
-/

namespace QuantumIR

namespace Assembly

open Text

/-! ### What stands before an opcode -/

/-- The text begins with a small letter. -/
def BeginsLower (s : List Char) : Prop :=
  ∃ c t, s = c :: t ∧ c.isLower = true

theorem isWordChar_of_isLower {c : Char} (h : c.isLower = true) : isWordChar c = true := by
  have halpha : c.isAlpha = true := by
    change (c.isUpper || c.isLower) = true
    rw [h, Bool.or_true]
  simp [isWordChar, Char.isAlphanum, halpha]

theorem BeginsLower.stops_isSpace {s : List Char} (h : BeginsLower s) : Stops isSpace s := by
  rcases h with ⟨c, t, rfl, hc⟩
  exact stops_cons.2 (isSpace_of_isBlank_eq_false
    (isBlank_of_isNameChar (isNameChar_of_isWordChar (isWordChar_of_isLower hc))))

theorem BeginsLower.append {w : List Char} (h : BeginsLower w) (s : List Char) :
    BeginsLower (w ++ s) := by
  rcases h with ⟨c, t, rfl, hc⟩
  exact ⟨c, t ++ s, rfl, hc⟩

theorem beginsLower_call (s : List Char) : BeginsLower ("call".toList ++ s) :=
  ⟨'c', "all".toList ++ s, rfl, by decide⟩

/-- The name that the value of an instruction is bound to: `%name =`, with the spaces
    around the equals sign. -/
@[ext]
structure Binding where
  name : List Char
  before : List Char
  after : List Char
  name_ne : name ≠ []
  isName : ∀ c ∈ name, isNameChar c = true
  gapBefore : IsGap before
  gapAfter : IsGap after

/-- A binding as written. -/
def Binding.text (b : Binding) : List Char :=
  '%' :: (b.name ++ (b.before ++ '=' :: b.after))

/-- The name of a binding. -/
def Binding.output (b : Binding) : String :=
  String.ofList b.name

/-- The words that mark a tail call. -/
def markers : List String :=
  ["tail", "musttail", "notail"]

/-- A marker of a tail call and the spaces after it. -/
@[ext]
structure TailMarker where
  word : String
  gap : List Char
  isMarker : word ∈ markers
  gap_ne : gap ≠ []
  isGap : IsGap gap

/-- A marker as written. -/
def TailMarker.text (m : TailMarker) : List Char :=
  m.word.toList ++ m.gap

/-- An optional binding as written. -/
def boundText : Option Binding → List Char
  | none => []
  | some b => b.text

/-- An optional marker as written. -/
def markedText : Option TailMarker → List Char
  | none => []
  | some m => m.text

theorem Binding.stops_name (b : Binding) (r : List Char) :
    Stops isNameChar (b.before ++ '=' :: r) :=
  stops_gap_append (fun _ => isNameChar_of_isSpace) b.gapBefore (stops_cons.2 (by decide))

theorem binding?_boundText (b : Option Binding) {r : List Char} (hr : BeginsLower r) :
    binding? (boundText b ++ r) = some (b.map Binding.output, r) := by
  cases b with
  | none =>
      rcases hr with ⟨c, t, rfl, hc⟩
      rw [boundText, List.nil_append]
      -- A binding begins with a percent sign, which is no small letter.
      unfold binding?
      split
      · rename_i heq
        rw [List.cons.injEq] at heq
        rw [heq.1] at hc
        exact absurd hc (by decide)
      · rfl
  | some b =>
      have htext : b.text ++ r = '%' :: (b.name ++ (b.before ++ '=' :: (b.after ++ r))) := by
        simp [Binding.text]
      have hname := word?_eq_some_iff.2 ⟨rfl, ⟨b.name_ne, b.isName⟩, b.stops_name (b.after ++ r)⟩
      have hequals : char? '=' (skipSpaces (b.before ++ '=' :: (b.after ++ r)))
          = some (b.after ++ r) :=
        (char?_skipSpaces_eq_some_iff (by decide)).2 ⟨b.before, rfl, b.gapBefore⟩
      have hafter : skipSpaces (b.after ++ r) = r :=
        skipSpaces_eq_iff.2 ⟨b.after, rfl, b.gapAfter, hr.stops_isSpace⟩
      rw [boundText, htext, binding?, hname]
      simp only [Option.bind_eq_bind, Option.bind_some, hequals, hafter]
      rfl

theorem exists_boundText {line r : List Char} {o : Option String}
    (h : binding? line = some (o, r)) :
    ∃ b : Option Binding, boundText b ++ r = line ∧ b.map Binding.output = o := by
  unfold binding? at h
  split at h
  · simp only [Option.bind_eq_bind, Option.bind_eq_some_iff, Prod.exists, word?_eq_some_iff,
      char?_skipSpaces_eq_some_iff (show isSpace '=' = false by decide), Option.pure_def,
      Option.some.injEq, Prod.mk.injEq] at h
    rcases h with ⟨name, s, ⟨rfl, ⟨hne, hname⟩, -⟩, t, ⟨before, rfl, hbefore⟩, rfl, hr⟩
    rcases skipSpaces_eq_iff.1 hr with ⟨after, rfl, hafter, -⟩
    refine ⟨some ⟨name, before, after, hne, hname, hbefore, hafter⟩, ?_, rfl⟩
    simp [boundText, Binding.text]
  · cases h
    exact ⟨none, rfl, rfl⟩

theorem Binding.text_inj {b b' : Binding} (h : b.text = b'.text) : b = b' := by
  rw [Binding.text, Binding.text, List.cons.injEq] at h
  rcases append_inj_of_stops h.2 b.isName (b.stops_name _) b'.isName (b'.stops_name _) with
    ⟨hname, hrest⟩
  rcases append_cons_inj_of_first hrest (b.gapBefore.notMem (by decide))
    (b'.gapBefore.notMem (by decide)) with ⟨hbefore, hafter⟩
  exact Binding.ext hname hbefore hafter

/-- Whether a line has a binding, and which, is determined by the line. -/
theorem boundText_inj {b b' : Option Binding} {r r' : List Char}
    (h : boundText b ++ r = boundText b' ++ r') (hr : BeginsLower r) (hr' : BeginsLower r') :
    b = b' ∧ r = r' := by
  -- The reader cuts off the same on both sides, so the rests are equal and cancel.
  have hcut := binding?_boundText b hr
  rw [h, binding?_boundText b' hr', Option.some.injEq, Prod.mk.injEq] at hcut
  refine ⟨?_, hcut.2.symm⟩
  rw [hcut.2] at h
  have htext := List.append_cancel_right h
  cases b with
  | none =>
      cases b' with
      | none => rfl
      | some b' => cases htext
  | some b =>
      cases b' with
      | none => cases htext
      | some b' => exact congrArg some (Binding.text_inj htext)

/-- A line that begins with a word of small letters, behind an optional binding, has the
    loosest shape of an instruction, whatever follows the word. -/
theorem plain?_boundText (b : Option Binding) {w s : List Char} (hlower : BeginsLower w)
    (hw : ∀ c ∈ w, isWordChar c = true) (hs : Stops isWordChar s) :
    plain? (boundText b ++ (w ++ s))
      = some { opcode := String.ofList w, operands := operands (skipSpaces s)
               output := b.map Binding.output } := by
  rcases hlower with ⟨c, t, rfl, hc⟩
  have hcut : word? isWordChar (c :: t ++ s) = some (c :: t, s) :=
    word?_eq_some_iff.2 ⟨rfl, ⟨List.cons_ne_nil _ _, hw⟩, hs⟩
  have hbegins : BeginsLower (c :: t ++ s) := ⟨c, t ++ s, rfl, hc⟩
  rw [plain?, binding?_boundText b hbegins]
  simp only [Option.bind_eq_bind, Option.bind_some, hcut]
  rw [List.head?_cons, Option.any_some, if_pos hc]
  rfl

/-! ### Markers -/

namespace TailMarker

theorem isWord (m : TailMarker) : ∀ c ∈ m.word.toList, isWordChar c = true := by
  have hall : ∀ w ∈ markers, w.toList.all isWordChar = true := by decide
  exact List.all_eq_true.1 (hall _ m.isMarker)

theorem beginsLower (m : TailMarker) : BeginsLower m.word.toList := by
  have hmarker := m.isMarker
  simp only [markers, List.mem_cons, List.not_mem_nil, or_false] at hmarker
  rcases hmarker with hword | hword | hword
  all_goals
    rw [hword]
    exact ⟨_, _, rfl, by decide⟩

theorem stops_word (m : TailMarker) (r : List Char) : Stops isWordChar (m.gap ++ r) :=
  stops_gap_append_of_ne_nil (fun _ => isWordChar_of_isSpace) m.gap_ne m.isGap r

theorem notMem_text (m : TailMarker) {c : Char} (hwords : ∀ w ∈ markers, c ∉ w.toList)
    (hc : isSpace c = false) : c ∉ m.text := by
  rw [text, List.mem_append, not_or]
  exact ⟨hwords _ m.isMarker, m.isGap.notMem hc⟩

/-- A marker is not the beginning of `call`, since it has none of its first letter. -/
theorem text_append_ne (m : TailMarker) (s t : List Char) :
    m.text ++ s ≠ "call".toList ++ t := by
  have hnone : 'c' ∉ m.text := m.notMem_text (by decide) (by decide)
  rcases m.beginsLower with ⟨c, u, hword, -⟩
  rw [text, hword] at hnone ⊢
  intro heq
  have hc : c = 'c' := (List.cons.inj heq).1
  rw [hc] at hnone
  exact hnone List.mem_cons_self

end TailMarker

theorem beginsLower_markedText (m : Option TailMarker) {r : List Char} (hr : BeginsLower r) :
    BeginsLower (markedText m ++ r) := by
  cases m with
  | none => exact hr
  | some m => exact (m.beginsLower.append m.gap).append r

/-- A marker is dropped together with all spaces after it. -/
theorem skipTailMarker_text (m : TailMarker) {r : List Char} (hr : Stops isSpace r) :
    skipTailMarker (m.text ++ r) = r := by
  have hgap : skipSpaces1? (m.gap ++ r) = some r :=
    skipSpaces1?_eq_some_iff.2 ⟨m.gap, rfl, m.gap_ne, m.isGap, hr⟩
  have hmarker := m.isMarker
  simp only [markers, List.mem_cons, List.not_mem_nil, or_false] at hmarker
  rw [TailMarker.text, List.append_assoc, skipTailMarker]
  -- The markers are told apart by their first letters.
  rcases hmarker with hword | hword | hword
  · rw [hword, List.findSome?_cons, literal?_append, Option.bind_some, hgap]
    rfl
  · have htail : literal? "tail" ("musttail".toList ++ (m.gap ++ r)) = none := rfl
    rw [hword, List.findSome?_cons, htail, List.findSome?_cons, literal?_append]
    simp only [Option.bind_none, Option.bind_some, hgap]
    rfl
  · have htail : literal? "tail" ("notail".toList ++ (m.gap ++ r)) = none := rfl
    have hmusttail : literal? "musttail" ("notail".toList ++ (m.gap ++ r)) = none := rfl
    rw [hword, List.findSome?_cons, htail, List.findSome?_cons, hmusttail, List.findSome?_cons,
      literal?_append]
    simp only [Option.bind_none, Option.bind_some, hgap]
    rfl

theorem skipTailMarker_markedText (m : Option TailMarker) (r : List Char) :
    skipTailMarker (markedText m ++ ("call".toList ++ r)) = "call".toList ++ r := by
  cases m with
  | none => rfl
  | some m => exact skipTailMarker_text m (beginsLower_call r).stops_isSpace

theorem exists_markedText (s : List Char) :
    ∃ m : Option TailMarker, markedText m ++ skipTailMarker s = s := by
  rw [skipTailMarker]
  cases hfound : ["tail", "musttail", "notail"].findSome? fun marker =>
      (literal? marker s).bind skipSpaces1? with
  | none => exact ⟨none, rfl⟩
  | some r =>
      rcases List.exists_of_findSome?_eq_some hfound with ⟨word, hword, hcut⟩
      simp only [Option.bind_eq_some_iff, literal?_eq_some_iff, skipSpaces1?_eq_some_iff] at hcut
      rcases hcut with ⟨t, rfl, g, rfl, hne, hg, -⟩
      refine ⟨some ⟨word, g, hword, hne, hg⟩, ?_⟩
      rw [markedText, TailMarker.text, Option.getD_some, List.append_assoc]

theorem TailMarker.text_append_inj {m m' : TailMarker} {r r' : List Char}
    (h : m.text ++ r = m'.text ++ r') (hr : Stops isSpace r) (hr' : Stops isSpace r') :
    m = m' ∧ r = r' := by
  -- Both words end where the spaces begin, and these end where the rests begin.
  rw [TailMarker.text, TailMarker.text, List.append_assoc, List.append_assoc] at h
  rcases append_inj_of_stops h m.isWord (m.stops_word r) m'.isWord (m'.stops_word r') with
    ⟨hwords, hrest⟩
  rcases append_inj_of_stops hrest m.isGap hr m'.isGap hr' with ⟨hgap, htail⟩
  exact ⟨TailMarker.ext (String.toList_inj.1 hwords) hgap, htail⟩

/-- Whether `call` has a marker, and which, is determined by the line. -/
theorem markedText_inj {m m' : Option TailMarker} {r r' : List Char}
    (h : markedText m ++ ("call".toList ++ r) = markedText m' ++ ("call".toList ++ r')) :
    m = m' ∧ r = r' := by
  cases m with
  | none =>
      cases m' with
      | none => exact ⟨rfl, List.append_cancel_left h⟩
      | some m' => exact absurd h.symm (m'.text_append_ne _ _)
  | some m =>
      cases m' with
      | none => exact absurd h (m.text_append_ne _ _)
      | some m' =>
          rcases TailMarker.text_append_inj h (beginsLower_call r).stops_isSpace
            (beginsLower_call r').stops_isSpace with ⟨hm, hrest⟩
          exact ⟨congrArg some hm, List.append_cancel_left hrest⟩

/-! ### Calls -/

/-- The parts of a line with the shape of a call: an optional binding, an optional
    marker, `call`, spaces, a type, `@` and the callee, optional spaces, the arguments in
    parentheses, and a rest. -/
structure CallParts where
  binding : Option Binding
  marker : Option TailMarker
  gap : List Char
  type : List Char
  callee : List Char
  pad : List Char
  args : List Char
  rest : List Char
  gap_ne : gap ≠ []
  isGap : IsGap gap
  type_no_at : '@' ∉ type
  callee_ne : callee ≠ []
  isCallee : ∀ c ∈ callee, isNameChar c = true
  isPad : IsGap pad
  rest_no_paren : ')' ∉ rest

namespace CallParts

/-- A call as written. -/
def text (p : CallParts) : List Char :=
  boundText p.binding ++ (markedText p.marker ++ ("call".toList ++ (p.gap ++ (p.type
    ++ '@' :: (p.callee ++ (p.pad ++ '(' :: (p.args ++ ')' :: p.rest)))))))

/-- The instruction that a call is: it is named after the callee and has the arguments
    as its operands. -/
def instruction (p : CallParts) : Instruction where
  opcode := String.ofList p.callee
  operands := (arguments p.args).map Operand.parse
  output := p.binding.map Binding.output

/-- The parts are the same, except that some of the spaces after `call` may be counted
    to the type on one side only. -/
def Agrees (p q : CallParts) : Prop :=
  p.binding = q.binding ∧ p.marker = q.marker ∧ p.gap ++ p.type = q.gap ++ q.type
    ∧ p.callee = q.callee ∧ p.pad = q.pad ∧ p.args = q.args ∧ p.rest = q.rest

theorem stops_callee (p : CallParts) (r : List Char) : Stops isNameChar (p.pad ++ '(' :: r) :=
  stops_gap_append (fun _ => isNameChar_of_isSpace) p.isPad (stops_cons.2 (by decide))

theorem notMem_gap_append_type (p : CallParts) : '@' ∉ p.gap ++ p.type := by
  rw [List.mem_append, not_or]
  exact ⟨p.isGap.notMem (by decide), p.type_no_at⟩

end CallParts

/-- The parts of a call, with all of the spaces after `call` in front of the type. -/
@[ext]
structure CallLine extends CallParts where
  type_start : Stops isSpace type

/-- A line that falls into the parts of a call is read as these parts say. -/
theorem call?_text (p : CallParts) : call? p.text = some p.instruction := by
  have hcallee : ∀ r, word? isNameChar (p.callee ++ (p.pad ++ '(' :: r))
      = some (p.callee, p.pad ++ '(' :: r) :=
    fun r => word?_eq_some_iff.2 ⟨rfl, ⟨p.callee_ne, p.isCallee⟩, p.stops_callee r⟩
  have hopen : ∀ r, char? '(' (skipSpaces (p.pad ++ '(' :: r)) = some r :=
    fun r => (char?_skipSpaces_eq_some_iff (by decide)).2 ⟨p.pad, rfl, p.isPad⟩
  rw [CallParts.text, call?, binding?_boundText _ (beginsLower_markedText _ (beginsLower_call _))]
  simp only [Option.bind_eq_bind, Option.bind_some, skipTailMarker_markedText, literal?_append,
    skipSpaces1?_append p.gap_ne p.isGap, after?_skipSpaces (show isSpace '@' = false by decide)
    p.type_no_at, hcallee, hopen, beforeLast?_append_cons p.rest_no_paren]
  rfl

/-- A line that is read as a call falls into the parts of one. -/
theorem exists_callLine {line : List Char} {i : Instruction} (h : call? line = some i) :
    ∃ p : CallLine, p.text = line ∧ p.instruction = i := by
  simp only [call?, Option.bind_eq_bind, Option.bind_eq_some_iff, Prod.exists,
    literal?_eq_some_iff, skipSpaces1?_eq_some_iff, after?_eq_some_iff, word?_eq_some_iff,
    char?_skipSpaces_eq_some_iff (show isSpace '(' = false by decide), beforeLast?_eq_some_iff,
    Option.pure_def, Option.some.injEq] at h
  rcases h with ⟨output, s, hbinding, t, hcall, _, ⟨gap, rfl, hgapne, hgap, hstops⟩, _,
    ⟨type, rfl, htype⟩, callee, _, ⟨rfl, ⟨hne, hcallee⟩, -⟩, _, ⟨pad, rfl, hpad⟩, args,
    ⟨rest, rfl, hrest⟩, rfl⟩
  rcases exists_boundText hbinding with ⟨binding, hline, hbound⟩
  rcases exists_markedText s with ⟨marker, hs⟩
  -- The spaces were taken whole, so the type does not begin with another one.
  have hstart : Stops isSpace type := by
    cases type with
    | nil => exact fun c hc => absurd hc (by simp)
    | cons c type => exact stops_cons.2 (stops_cons.1 hstops)
  refine ⟨⟨⟨binding, marker, gap, type, callee, pad, args, rest, hgapne, hgap, htype, hne,
    hcallee, hpad, hrest⟩, hstart⟩, ?_, ?_⟩
  · rw [← hline, ← hs, hcall]
    rfl
  · rw [← hbound]
    rfl

namespace CallParts

/-- The parts of a line are determined by the line. Each cut is made where the next part
    cannot go on: at the end of a run, at the first `@` and at the last closing
    parenthesis. -/
theorem agrees_of_text_eq {p q : CallParts} (h : p.text = q.text) : p.Agrees q := by
  rcases boundText_inj h (beginsLower_markedText _ (beginsLower_call _))
    (beginsLower_markedText _ (beginsLower_call _)) with ⟨hbinding, hline⟩
  rcases markedText_inj hline with ⟨hmarker, hcall⟩
  rw [← List.append_assoc p.gap, ← List.append_assoc q.gap] at hcall
  rcases append_cons_inj_of_first hcall p.notMem_gap_append_type q.notMem_gap_append_type with
    ⟨htype, hnamed⟩
  rcases append_inj_of_stops hnamed p.isCallee (p.stops_callee _) q.isCallee (q.stops_callee _)
    with ⟨hcallee, hpadded⟩
  rcases append_cons_inj_of_first hpadded (p.isPad.notMem (by decide))
    (q.isPad.notMem (by decide)) with ⟨hpad, hargs⟩
  rcases append_cons_inj_of_last hargs p.rest_no_paren q.rest_no_paren with ⟨hargs, hrest⟩
  exact ⟨hbinding, hmarker, htype, hcallee, hpad, hargs, hrest⟩

/-- No part before the callee's holds an `@`. -/
theorem notMem_front (p : CallParts) :
    '@' ∉ boundText p.binding ++ (markedText p.marker ++ ("call".toList ++ (p.gap ++ p.type))) := by
  have hbound : '@' ∉ boundText p.binding := by
    cases p.binding with
    | none => exact List.not_mem_nil
    | some b =>
        simp only [boundText, Binding.text, List.mem_cons, List.mem_append, not_or]
        exact ⟨by decide, fun hmem => absurd (b.isName _ hmem) (by decide),
          b.gapBefore.notMem (by decide), by decide, b.gapAfter.notMem (by decide)⟩
  have hmarked : '@' ∉ markedText p.marker := by
    cases p.marker with
    | none => exact List.not_mem_nil
    | some m => exact m.notMem_text (by decide) (by decide)
  simp only [List.mem_append, not_or]
  exact ⟨hbound, hmarked, by decide, p.isGap.notMem (by decide), p.type_no_at⟩

/-- The callee is all of the name characters after the first `@` of the line. -/
theorem callee_eq (p : CallParts) :
    p.callee = ((p.text.dropWhile (· != '@')).drop 1).takeWhile isNameChar := by
  have htext : p.text
      = (boundText p.binding ++ (markedText p.marker ++ ("call".toList ++ (p.gap ++ p.type))))
        ++ '@' :: (p.callee ++ (p.pad ++ '(' :: (p.args ++ ')' :: p.rest))) := by
    simp [text]
  have hrun : ∀ c ∈ boundText p.binding ++ (markedText p.marker ++ ("call".toList
      ++ (p.gap ++ p.type))), (c != '@') = true := by
    intro c hc
    rw [bne_iff_ne]
    rintro rfl
    exact p.notMem_front hc
  rw [htext, dropWhile_append_cons hrun (by decide), List.drop_one, List.tail_cons,
    takeWhile_append_of_stops p.isCallee (p.stops_callee _)]

/-- The arguments end at the last closing parenthesis of the line. -/
theorem exists_front_args (p : CallParts) :
    ∃ front, p.text = front ++ '(' :: (p.args ++ ')' :: p.rest) :=
  ⟨boundText p.binding ++ (markedText p.marker ++ ("call".toList ++ (p.gap ++ (p.type
    ++ '@' :: (p.callee ++ p.pad))))), by simp [text]⟩

end CallParts

/-- If the type takes none of the spaces after `call`, nothing is left to choose. -/
theorem CallLine.text_inj {p q : CallLine} (h : p.text = q.text) : p = q := by
  rcases CallParts.agrees_of_text_eq h with
    ⟨hbinding, hmarker, hboth, hcallee, hpad, hargs, hrest⟩
  rcases append_inj_of_stops hboth p.isGap p.type_start q.isGap q.type_start with ⟨hgap, htype⟩
  exact CallLine.ext hbinding hmarker hgap htype hcallee hpad hargs hrest

/-! ### Lines that mention a call -/

theorem instruction_text {p : CallParts} (h : "call ".toList <:+: p.text) (number : Nat) :
    instruction number p.text = .ok p.instruction := by
  have hmentions : mentionsCall p.text = true := occurs_eq_true_iff.2 h
  rw [instruction, if_pos hmentions, call?_text]

theorem instruction_of_forall_text_ne {line : List Char} (h : "call ".toList <:+: line)
    (hnone : ∀ p : CallParts, p.text ≠ line) (number : Nat) :
    instruction number line = .error (.malformedCall number (String.ofList line)) := by
  have hmentions : mentionsCall line = true := occurs_eq_true_iff.2 h
  rw [instruction, if_pos hmentions]
  cases hcall : call? line with
  | none => rfl
  | some i =>
      rcases exists_callLine hcall with ⟨p, hp, -⟩
      exact absurd hp (hnone p.toCallParts)

/-- **Calls are recognised by their shape, and a line has it in one way only.** A line
    that mentions a call is accepted exactly if it falls into the parts of a call. It is
    then read as these parts say: the opcode is the name after the first `@`, the
    arguments end at the last closing parenthesis, the output is the name that is bound,
    and the operands are the arguments in order. Its parts are determined by the line up
    to the spaces before the type, and there is one way to cut it in which the type takes
    none of them. Every other line that mentions a call is refused as a malformed call,
    with its number and its text. -/
theorem instruction_callLine (number : Nat) (line : List Char) (h : "call ".toList <:+: line) :
    ((∃ i, instruction number line = .ok i) ↔ ∃ p : CallParts, p.text = line)
      ∧ (∀ p : CallParts, p.text = line →
          instruction number line = .ok
            { opcode := String.ofList p.callee
              operands := (arguments p.args).map Operand.parse
              output := p.binding.map fun b => String.ofList b.name }
            ∧ p.callee = ((line.dropWhile (· != '@')).drop 1).takeWhile isNameChar
            ∧ (∃ front, line = front ++ '(' :: (p.args ++ ')' :: p.rest) ∧ ')' ∉ p.rest)
            ∧ ∀ q : CallParts, q.text = line → p.Agrees q)
      ∧ ((∃ p : CallParts, p.text = line) → ∃! p : CallLine, p.text = line)
      ∧ ((∀ p : CallParts, p.text ≠ line) →
          instruction number line = .error (.malformedCall number (String.ofList line))) := by
  have hrefused := fun hnone => instruction_of_forall_text_ne h hnone number
  refine ⟨⟨?_, ?_⟩, ?_, ?_, hrefused⟩
  · rintro ⟨i, hi⟩
    by_contra hnone
    rw [hrefused fun p hp => hnone ⟨p, hp⟩] at hi
    cases hi
  · rintro ⟨p, rfl⟩
    exact ⟨p.instruction, instruction_text h number⟩
  · rintro p rfl
    rcases p.exists_front_args with ⟨front, hfront⟩
    refine ⟨instruction_text h number, p.callee_eq, ⟨front, hfront, p.rest_no_paren⟩, ?_⟩
    intro q hq
    exact CallParts.agrees_of_text_eq hq.symm
  · rintro ⟨p, rfl⟩
    rcases exists_callLine (call?_text p) with ⟨q, hq, -⟩
    exact ⟨q, hq, fun q' hq' => CallLine.text_inj (hq'.trans hq.symm)⟩

/-- The parts of `%r.1= musttail call  void (i8) @f.g (i1 true, ptr (a, @b)) #3`, in which
    there are parentheses in the type and in the arguments, and a second `@`. -/
def nestedCall : CallLine where
  binding := some
    { name := "r.1".toList, before := [], after := [' '], name_ne := by decide
      isName := List.all_eq_true.1 rfl, gapBefore := List.all_eq_true.1 rfl
      gapAfter := isGap_space }
  marker := some
    { word := "musttail", gap := [' '], isMarker := by decide, gap_ne := by decide
      isGap := isGap_space }
  gap := [' ', ' ']
  type := "void (i8) ".toList
  callee := "f.g".toList
  pad := [' ']
  args := "i1 true, ptr (a, @b)".toList
  rest := " #3".toList
  gap_ne := by decide
  isGap := List.all_eq_true.1 rfl
  type_no_at := by decide
  type_start := stops_cons.2 (by decide)
  callee_ne := by decide
  isCallee := List.all_eq_true.1 rfl
  isPad := isGap_space
  rest_no_paren := by decide

/-- A call of a value, which has no name after an `@`. -/
def calleelessCall : List Char :=
  "call void %fnptr(%Qubit* null)".toList

theorem instruction_callLine_nestedCall :
    "call ".toList <:+: nestedCall.text
      ∧ nestedCall.text = "%r.1= musttail call  void (i8) @f.g (i1 true, ptr (a, @b)) #3".toList
      ∧ instruction 7 nestedCall.text
        = .ok { opcode := "f.g", operands := [.bool true, .pointer none], output := some "r.1" }
      ∧ (∃! p : CallLine, p.text = nestedCall.text)
      ∧ "call ".toList <:+: calleelessCall
      ∧ instruction 3 calleelessCall
        = .error (.malformedCall 3 "call void %fnptr(%Qubit* null)") := by
  have hmentions : "call ".toList <:+: nestedCall.text := occurs_eq_true_iff.1 rfl
  have hmentions' : "call ".toList <:+: calleelessCall := occurs_eq_true_iff.1 rfl
  have hnone : ∀ p : CallParts, p.text ≠ calleelessCall := by
    intro p hp
    have hread := call?_text p
    rw [hp, show call? calleelessCall = none from rfl] at hread
    cases hread
  rcases instruction_callLine 7 nestedCall.text hmentions with ⟨-, hread, hunique, -⟩
  rcases instruction_callLine 3 calleelessCall hmentions' with ⟨-, -, -, hrefused⟩
  refine ⟨hmentions, rfl, ?_, hunique ⟨nestedCall.toCallParts, rfl⟩, hmentions', hrefused hnone⟩
  rw [(hread nestedCall.toCallParts rfl).1]
  decide +kernel

end Assembly

end QuantumIR
