import QuantumIR.Proofs.Assembly.CallShape

/-!
# Calls and Other Instructions

How the two shapes of an instruction are told apart.

Every instruction has an opcode, behind an optional binding and an optional marker, and
one would expect that a line is read as a call if its opcode is `call`. The reader asks
for something else: whether `call` and a space occur anywhere in the line. The two differ
in both directions. A name, an opcode or an operand may end in `call` before a space, and
then the line is refused as a malformed call although its opcode is another one. And
`call` may be followed by a tab, and then the line is read as an instruction of this
name.

`OpcodeLine` holds the parts of a line around its opcode, and `ShowsCall` says in terms of
these parts what the reader looks for. Which of the two shapes a line is read with, and
what becomes of it, follows from there.

## Main definitions

* `OpcodeLine`: The parts of a line around its opcode.
* `OpcodeLine.plain`: What they say if the line is no call.
* `OpcodeLine.ShowsCall`: `call` and a space occur in the line.
* `callReading`: What the shape of a call makes of a line.

## Theorems

* `OpcodeLine.infix_text_iff`: What the reader looks for, in terms of the parts.
* `plain?_text`: Every line with an opcode can be read as an instruction.
* `call?_eq_none_of_op_ne`: Only a line with the opcode `call` can be read as a call.
* `instruction_opcodeLine`: What becomes of a line with an opcode.
-/

namespace QuantumIR

namespace Assembly

open Text

/-- The parts of a line around its opcode: an optional binding, an optional marker, an
    opcode that begins with a small letter, and a rest that is set off by a space. A marker
    in front of an opcode is not the opcode itself. -/
structure OpcodeLine where
  binding : Option Binding
  marker : Option TailMarker
  op : List Char
  rest : List Char
  lower : BeginsLower op
  isWord : ∀ c ∈ op, isWordChar c = true
  apart : ∀ c ∈ rest.head?, isSpace c = true
  unmarked : marker = none → ∀ (m : TailMarker) r, m.text ++ r = op ++ rest → ¬ BeginsLower r

namespace OpcodeLine

/-- The line. -/
def text (p : OpcodeLine) : List Char :=
  boundText p.binding ++ (markedText p.marker ++ (p.op ++ p.rest))

/-- The line as an instruction that is no call. A marker is nothing special there, so it
    is the opcode if there is one. -/
def plain (p : OpcodeLine) : Instruction :=
  match p.marker with
  | none =>
    { opcode := String.ofList p.op
      operands := (arguments (skipSpaces p.rest)).map Operand.parse
      output := p.binding.map Binding.output }
  | some m =>
    { opcode := m.word
      operands := (arguments (p.op ++ p.rest)).map Operand.parse
      output := p.binding.map Binding.output }

/-- `call` and a space occur in the line: at the end of the name that is bound, at the
    end of the opcode, or after the opcode. -/
def ShowsCall (p : OpcodeLine) : Prop :=
  (∃ b ∈ p.binding, "call".toList <:+ b.name ∧ b.before.head? = some ' ')
    ∨ ("call".toList <:+ p.op ∧ p.rest.head? = some ' ')
    ∨ "call ".toList <:+: p.rest

theorem stops_rest (p : OpcodeLine) : Stops isWordChar p.rest :=
  fun c hc => isWordChar_of_isSpace (p.apart c hc)

end OpcodeLine

/-! ### What the reader looks for -/

/-- Behind text without a `c` nothing changes. -/
theorem call_infix_append_iff {s t : List Char} (h : 'c' ∉ s) :
    "call ".toList <:+: s ++ t ↔ "call ".toList <:+: t :=
  infix_append_iff_of_notMem h

/-- A word can end in `call` before a space. -/
theorem call_infix_word_iff {p : Char → Bool} (hcall : "call".toList.all p = true)
    (hspace : p ' ' = false) {w s : List Char} (hw : ∀ c ∈ w, p c = true) (hs : Stops p s) :
    "call ".toList <:+: w ++ s
      ↔ ("call".toList <:+ w ∧ s.head? = some ' ') ∨ "call ".toList <:+: s :=
  concat_infix_append_iff (List.all_eq_true.1 hcall) hspace hw hs

theorem call_infix_boundText_iff (b : Option Binding) (s : List Char) :
    "call ".toList <:+: boundText b ++ s
      ↔ (∃ b' ∈ b, "call".toList <:+ b'.name ∧ b'.before.head? = some ' ')
        ∨ "call ".toList <:+: s := by
  cases b with
  | none => simp [boundText]
  | some b =>
      have htext : b.text ++ s = ['%'] ++ (b.name ++ (b.before ++ '=' :: (b.after ++ s))) := by
        simp [Binding.text]
      have hequals : "call ".toList <:+: b.before ++ '=' :: (b.after ++ s)
          ↔ "call ".toList <:+: s := by
        have hskip : 'c' ∉ b.before ++ '=' :: b.after := by
          rw [List.mem_append, List.mem_cons, not_or, not_or]
          exact ⟨b.gapBefore.notMem (by decide), by decide, b.gapAfter.notMem (by decide)⟩
        have hsplit : b.before ++ '=' :: (b.after ++ s) = (b.before ++ '=' :: b.after) ++ s := by
          simp
        rw [hsplit, call_infix_append_iff hskip]
      -- The equals sign is no space, so the name is followed by one only if a space
      -- stands before the sign.
      have hhead : (b.before ++ '=' :: (b.after ++ s)).head? = some ' '
          ↔ b.before.head? = some ' ' := by
        cases b.before with
        | nil => simp
        | cons c g => rfl
      rw [boundText, htext, call_infix_append_iff (by decide),
        call_infix_word_iff rfl rfl b.isName (b.stops_name _), hhead, hequals]
      simp

/-- The reader finds a call exactly if the parts show one. -/
theorem OpcodeLine.infix_text_iff (p : OpcodeLine) :
    "call ".toList <:+: p.text ↔ p.ShowsCall := by
  have hmarked : 'c' ∉ markedText p.marker := by
    cases p.marker with
    | none => exact List.not_mem_nil
    | some m => exact m.notMem_text (by decide) (by decide)
  -- The parts are taken off one by one. None of the markers has a `c`.
  rw [OpcodeLine.text, call_infix_boundText_iff, call_infix_append_iff hmarked,
    call_infix_word_iff rfl rfl p.isWord p.stops_rest]
  rfl

/-! ### The two shapes -/

/-- Every line with an opcode can be read as an instruction that is no call. -/
theorem plain?_text (p : OpcodeLine) : plain? p.text = some p.plain := by
  rw [OpcodeLine.text, OpcodeLine.plain]
  cases p.marker with
  | none => exact plain?_boundText p.binding p.lower p.isWord p.stops_rest
  | some m =>
      -- The marker takes the place of the opcode, which becomes the first of the operands.
      have hskip : skipSpaces (m.gap ++ (p.op ++ p.rest)) = p.op ++ p.rest :=
        skipSpaces_eq_iff.2 ⟨m.gap, rfl, m.isGap, (p.lower.append p.rest).stops_isSpace⟩
      rw [markedText, TailMarker.text, List.append_assoc,
        plain?_boundText p.binding m.beginsLower m.isWord (m.stops_word _), hskip,
        String.ofList_toList]
      rfl

/-- Only a line with the opcode `call` can be read as a call. -/
theorem call?_eq_none_of_op_ne {p : OpcodeLine} (h : p.op ≠ "call".toList) :
    call? p.text = none := by
  rw [Option.eq_none_iff_forall_ne_some]
  intro i hi
  rcases exists_callLine hi with ⟨q, hq, -, -⟩
  -- Both words end at the first space, so the opcode would be the word `call`.
  have hop : ∀ r, "call".toList ++ (q.gap ++ r) ≠ p.op ++ p.rest := by
    intro r heq
    have hstops : Stops isWordChar (q.gap ++ r) :=
      stops_gap_append_of_ne_nil (fun _ => isWordChar_of_isSpace) q.gap_ne q.isGap r
    exact h (append_inj_of_stops heq (List.all_eq_true.1 rfl) hstops p.isWord p.stops_rest).1.symm
  rcases boundText_inj hq (beginsLower_markedText _ (beginsLower_call _))
    (beginsLower_markedText _ (p.lower.append p.rest)) with ⟨-, hline⟩
  -- With or without a marker, the word after it would have to be `call`.
  cases hp : p.marker with
  | none =>
      rw [hp] at hline
      cases hm : q.marker with
      | none =>
          rw [hm] at hline
          exact hop _ hline
      | some m =>
          rw [hm] at hline
          exact p.unmarked hp m _ hline (beginsLower_call _)
  | some m =>
      rw [hp] at hline
      cases hm : q.marker with
      | none =>
          rw [hm] at hline
          exact m.text_append_ne _ _ hline.symm
      | some m' =>
          rw [hm] at hline
          exact hop _ (TailMarker.text_append_inj hline (beginsLower_call _).stops_isSpace
            (p.lower.append p.rest).stops_isSpace).2

/-! ### What becomes of a line -/

/-- What the shape of a call makes of a line. -/
def callReading (number : Nat) (line : List Char) : Except Error Instruction :=
  match call? line with
  | some i => .ok i
  | none => .error (.malformedCall number (String.ofList line))

theorem instruction_of_showsCall {p : OpcodeLine} (h : p.ShowsCall) (number : Nat) :
    instruction number p.text = callReading number p.text := by
  have hmentions : mentionsCall p.text = true := occurs_eq_true_iff.2 (p.infix_text_iff.2 h)
  rw [instruction, if_pos hmentions]
  rfl

theorem instruction_of_not_showsCall {p : OpcodeLine} (h : ¬ p.ShowsCall) (number : Nat) :
    instruction number p.text = .ok p.plain := by
  have hmentions : ¬ mentionsCall p.text = true := fun hoccurs =>
    h (p.infix_text_iff.1 (occurs_eq_true_iff.1 hoccurs))
  rw [instruction, if_neg hmentions, plain?_text]

theorem instruction_of_op_ne {p : OpcodeLine} (h : p.op ≠ "call".toList) (hshows : p.ShowsCall)
    (number : Nat) :
    instruction number p.text = .error (.malformedCall number (String.ofList p.text)) := by
  rw [instruction_of_showsCall hshows, callReading, call?_eq_none_of_op_ne h]

/-- **A line is read as a call if it shows one, whatever its opcode is.** If it does not,
    it is read as an instruction that is no call. A line with another opcode than `call` is
    refused as a malformed call if and only if it shows a call; so if it is bound to a name
    and has no marker, and no call is shown after its opcode, it is read with its own opcode
    if and only if neither the name nor the opcode ends in `call` before a space. -/
theorem instruction_opcodeLine (number : Nat) (p : OpcodeLine) :
    (p.ShowsCall → instruction number p.text = callReading number p.text)
      ∧ (¬ p.ShowsCall → instruction number p.text = .ok p.plain)
      ∧ (p.op ≠ "call".toList →
          (instruction number p.text = .error (.malformedCall number (String.ofList p.text))
            ↔ p.ShowsCall))
      ∧ ∀ b, p.binding = some b → p.marker = none → p.op ≠ "call".toList →
          ¬ "call ".toList <:+: p.rest →
          (instruction number p.text = .ok
              { opcode := String.ofList p.op
                operands := (arguments (skipSpaces p.rest)).map Operand.parse
                output := some (String.ofList b.name) }
            ↔ ¬ ("call".toList <:+ b.name ∧ b.before.head? = some ' ')
              ∧ ¬ ("call".toList <:+ p.op ∧ p.rest.head? = some ' ')) := by
  refine ⟨fun h => instruction_of_showsCall h number,
    fun h => instruction_of_not_showsCall h number,
    fun hop => ⟨fun h => ?_, fun h => instruction_of_op_ne hop h number⟩, ?_⟩
  · by_contra hshows
    rw [instruction_of_not_showsCall hshows] at h
    cases h
  · intro b hb hm hop hrest
    have hshows : ¬ p.ShowsCall ↔ ¬ ("call".toList <:+ b.name ∧ b.before.head? = some ' ')
        ∧ ¬ ("call".toList <:+ p.op ∧ p.rest.head? = some ' ') := by
      rw [OpcodeLine.ShowsCall, hb, not_or, not_or]
      simp only [Option.mem_some_iff, exists_eq_left', hrest, not_false_eq_true, and_true]
    rw [← hshows]
    constructor
    · intro h hcall
      rw [instruction_of_op_ne hop hcall] at h
      cases h
    · intro h
      rw [instruction_of_not_showsCall h, OpcodeLine.plain, hb, hm]
      rfl

/-- The line with an optional binding, no marker, and an opcode that is none either, before
    a space and a text. -/
def OpcodeLine.ofWord (b : Option Binding) (op : List Char) (space : Char) (s : List Char)
    (lower : BeginsLower op) (isWord : ∀ c ∈ op, isWordChar c = true)
    (isSpace_space : isSpace space = true) (notMarker : String.ofList op ∉ markers) :
    OpcodeLine where
  binding := b
  marker := none
  op := op
  rest := space :: s
  lower := lower
  isWord := isWord
  apart := by
    intro c hc
    rw [List.head?_cons, Option.mem_some_iff] at hc
    rwa [← hc]
  unmarked := by
    intro _ m r heq
    rw [TailMarker.text, List.append_assoc] at heq
    have hword := (append_inj_of_stops heq m.isWord (m.stops_word r) isWord
      (stops_cons.2 (isWordChar_of_isSpace isSpace_space))).1
    have hmarker := m.isMarker
    rw [← String.ofList_toList (s := m.word), hword] at hmarker
    exact absurd hmarker notMarker

/-- The line `%recall\t= syscall\ti64 3`. Two of its words end in `call`, but not before a
    space. -/
def tabbedLine : OpcodeLine :=
  .ofWord
    (some
      { name := "recall".toList, before := ['\t'], after := [' '], name_ne := by decide
        isName := List.all_eq_true.1 rfl, gapBefore := List.all_eq_true.1 rfl
        gapAfter := isGap_space })
    "syscall".toList '\t' "i64 3".toList ⟨'s', "yscall".toList, rfl, by decide⟩
    (List.all_eq_true.1 rfl) (by decide) (by decide)

theorem instruction_opcodeLine_tabbedLine :
    tabbedLine.text = "%recall\t= syscall\ti64 3".toList
      ∧ tabbedLine.op ≠ "call".toList
      ∧ ¬ "call ".toList <:+: tabbedLine.rest
      ∧ instruction 5 tabbedLine.text
        = .ok { opcode := "syscall", operands := [.integer 3], output := some "recall" } := by
  have hop : tabbedLine.op ≠ "call".toList := by decide
  have hrest : ¬ "call ".toList <:+: tabbedLine.rest := fun hinfix =>
    absurd (occurs_eq_true_iff.2 hinfix) (by decide)
  rcases instruction_opcodeLine 5 tabbedLine with ⟨-, -, -, hbound⟩
  refine ⟨rfl, hop, hrest, ?_⟩
  rw [(hbound _ rfl rfl hop hrest).2 ⟨by decide, by decide⟩]
  decide +kernel

/-- The line `%a.call = add i64 1, 2`, of which the opcode is `add`. -/
def callNamedLine : OpcodeLine :=
  .ofWord
    (some
      { name := "a.call".toList, before := [' '], after := [' '], name_ne := by decide
        isName := List.all_eq_true.1 rfl, gapBefore := isGap_space, gapAfter := isGap_space })
    "add".toList ' ' "i64 1, 2".toList ⟨'a', "dd".toList, rfl, by decide⟩
    (List.all_eq_true.1 rfl) (by decide) (by decide)

/-- The line `call\tvoid @f()`, of which the opcode is `call`. -/
def tabbedCallLine : OpcodeLine :=
  .ofWord none "call".toList '\t' "void @f()".toList (beginsLower_call [])
    (List.all_eq_true.1 rfl) (by decide) (by decide)

/-- The opcode does not decide. An addition is refused as a malformed call, for the name
    that its value is bound to, and a call is read as something else, for the tab after
    `call`. -/
theorem not_opcode_callNamedLine :
    callNamedLine.op = "add".toList
      ∧ instruction 2 callNamedLine.text = .error (.malformedCall 2 "%a.call = add i64 1, 2")
      ∧ functions "define void @main() \x7b\n  %a.call = add i64 1, 2\n\x7d\n"
        = .error (.malformedCall 2 "%a.call = add i64 1, 2")
      ∧ tabbedCallLine.op = "call".toList
      ∧ instruction 2 tabbedCallLine.text
        = .ok { opcode := "call", operands := [.raw "void @f()"] } := by
  refine ⟨rfl, ?_, ?_, rfl, ?_⟩ <;> decide +kernel

end Assembly

end QuantumIR
