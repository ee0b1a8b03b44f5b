import QuantumIR.Json.Parser
import QuantumIR.Json.Printer
import QuantumIR.Proofs.Text.Shape

/-!
# JSON Tokens

Strings and numbers are read back as they were written.

A string tells by its last quote where it ends, so nothing has to be known about the text
behind it. Inside of it every unit is written in one of three ways, and the first
character of each decides how it is read: a letter after a backslash, four hexadecimal
digits, or the character itself. The halves of surrogate pairs have no character and are
written with digits, so that strings which are no texts come back as well.

A number goes on as long as it can. What follows it must not begin like a further digit, a
fraction or an exponent; `EndsValue` is what the printer puts behind a value.

## Main definitions

* `AreUnits`: The code units of strings.
* `EndsValue`: A text that can stand behind a value.
* `Numeral.IsWritable`: A numeral whose digits are digits.

## Theorems

* `quoted?_escape`: A unit is read back as it was written.
* `quoted?_quote`: So is a string.
* `number?_toDigits`, `number?_print`: So are numbers.
-/

namespace QuantumIR

open Text

namespace Numeral

/-- The numerals that have a text: digits before the point without a zero in front, and
    digits after it. -/
structure IsWritable (n : Numeral) : Prop where
  whole : IsNumeral n.whole
  leading : n.whole.head? = some '0' → n.whole.length = 1
  part : ∀ c ∈ n.part, c.isDigit = true

end Numeral

namespace Json

/-! ### Strings -/

theorem hexDigit?_digitChar {k : Nat} (h : k < 16) : hexDigit? (Nat.digitChar k) = some k := by
  have hall : ∀ k < 16, hexDigit? (Nat.digitChar k) = some k := by decide
  exact hall k h

theorem quoted?_hexEscape {n : Nat} (h : n < 0x10000) (s : List Char) :
    quoted? (hexEscape n ++ s) = (quoted? s).map fun p => (n :: p.1, p.2) := by
  have hvalue : ((n / 4096 % 16 * 16 + n / 256 % 16) * 16 + n / 16 % 16) * 16 + n % 16 = n := by
    omega
  simp only [hexEscape, List.cons_append, List.nil_append, quoted?, hexDigits?]
  have hdigit : ∀ m, hexDigit? (Nat.digitChar (m % 16)) = some (m % 16) :=
    fun m => hexDigit?_digitChar (Nat.mod_lt m (by decide))
  simp only [hdigit, Option.bind_eq_bind, Option.bind_some, Option.pure_def, hvalue]
  cases quoted? s <;> rfl

/-- Any other character stands for itself. -/
theorem quoted?_cons {c : Char} (hquote : c ≠ '"') (hslash : c ≠ '\\') (hc : 0x20 ≤ c.toNat)
    (s : List Char) : quoted? (c :: s) = (quoted? s).map fun p => (c.toNat :: p.1, p.2) := by
  have hplain : ¬ (c == '\\' || decide (c.toNat < 0x20)) = true := by
    simp [hslash]; omega
  rw [quoted?.eq_def]
  split
  · rename_i heq
    cases heq
  · rename_i heq
    exact absurd (List.cons.inj heq).1 hquote
  · rename_i heq
    exact absurd (List.cons.inj heq).1 hslash
  · rename_i heq
    exact absurd (List.cons.inj heq).1 hslash
  · rename_i heq
    rw [List.cons.injEq] at heq
    rw [← heq.1, ← heq.2, if_neg hplain]
    cases quoted? s <;> rfl

/-- A short escape stands for the unit that its letter names. -/
theorem quoted?_backslash {c : Char} {n : Nat} (hc : c ≠ 'u') (h : unescape? c = some n)
    (s : List Char) : quoted? ('\\' :: c :: s) = (quoted? s).map fun p => (n :: p.1, p.2) := by
  rw [quoted?.eq_def]
  split
  · rename_i heq
    cases heq
  · rename_i heq
    exact absurd (List.cons.inj heq).1 (by decide)
  · rename_i heq
    simp only [List.cons.injEq] at heq
    exact absurd heq.2.1 hc
  · rename_i heq
    simp only [List.cons.injEq, true_and] at heq
    rw [← heq.1, ← heq.2, h]
    cases quoted? s <;> rfl
  · rename_i hshort heq
    rw [List.cons.injEq] at heq
    exact absurd heq.2.symm (hshort _ _ heq.1.symm)

theorem toNat_ofNat {n : Nat} (h : n < 0x110000) (hhigh : isHighHalf n = false)
    (hlow : isLowHalf n = false) : (Char.ofNat n).toNat = n := by
  have hvalid : n.isValidChar := by
    simp only [isHighHalf, isLowHalf, Bool.and_eq_false_iff, decide_eq_false_iff_not] at hhigh hlow
    rw [Nat.isValidChar]
    omega
  rw [Char.ofNat, dif_pos hvalid]
  rfl

theorem quoted?_escape {n : Nat} (h : n < 0x110000) (s : List Char) :
    quoted? (escape n ++ s) = (quoted? s).map fun p => (n :: p.1, p.2) := by
  have hshort : ∀ (c : Char) (m : Nat), c ≠ 'u' → unescape? c = some m → n = m →
      quoted? (['\\', c] ++ s) = (quoted? s).map fun p => (n :: p.1, p.2) := by
    rintro c m hc hm rfl
    exact quoted?_backslash hc hm s
  unfold escape
  split
  · exact hshort '"' _ (by decide) rfl ‹_›
  split
  · exact hshort '\\' _ (by decide) rfl ‹_›
  split
  · exact hshort 'b' _ (by decide) rfl ‹_›
  split
  · exact hshort 't' _ (by decide) rfl ‹_›
  split
  · exact hshort 'n' _ (by decide) rfl ‹_›
  split
  · exact hshort 'f' _ (by decide) rfl ‹_›
  split
  · exact hshort 'r' _ (by decide) rfl ‹_›
  rename_i hquote hslash _ _ _ _ _
  split
  · rename_i hhex
    refine quoted?_hexEscape ?_ s
    simp only [isHighHalf, isLowHalf, Bool.or_eq_true, Bool.and_eq_true, decide_eq_true_eq] at hhex
    omega
  · rename_i hplain
    simp only [Bool.or_eq_true, decide_eq_true_eq, not_or, Bool.not_eq_true] at hplain
    have hn := toNat_ofNat h hplain.1.2 hplain.2
    have hself := @quoted?_cons (Char.ofNat n) ?_ ?_ ?_ s
    · rw [hn] at hself
      exact hself
    · exact fun heq => hquote (by rw [← hn, heq]; rfl)
    · exact fun heq => hslash (by rw [← hn, heq]; rfl)
    · omega

/-- The code units of strings: those of characters and the halves of surrogate pairs. -/
def AreUnits (units : List Nat) : Prop :=
  ∀ n ∈ units, n < 0x110000

/-- A string is read back as it was written. -/
theorem quoted?_quote {units : List Nat} (h : AreUnits units) (rest : List Char) :
    quoted? (units.flatMap escape ++ '"' :: rest) = some (units, rest) := by
  induction units with
  | nil => rfl
  | cons n units ih =>
      have hrest := ih fun m hm => h m (List.mem_cons_of_mem _ hm)
      rw [List.flatMap_cons, List.append_assoc, quoted?_escape (h n List.mem_cons_self), hrest]
      rfl

/-! ### Numbers -/

/-- A text that ends a value: nothing, or what the printer puts after one. -/
def EndsValue (s : List Char) : Prop :=
  ∀ c ∈ s.head?, c = ',' ∨ c = '\n'

/-- Digits that are written start with a zero only if it is alone. -/
theorem length_toDigits_of_head? {n : Nat} (h : (Nat.toDigits 10 n).head? = some '0') :
    (Nat.toDigits 10 n).length = 1 := by
  have hzero : ∀ n : Nat, (Nat.toDigits 10 n).head? = some '0' → n = 0 := by
    intro n
    induction n using Nat.strongRecOn with
    | ind n ih =>
        intro hhead
        by_cases hlt : n < 10
        · have hall : ∀ k < 10, Nat.digitChar k = '0' → k = 0 := by decide
          rw [Nat.toDigits_of_lt_base hlt, List.head?_cons, Option.some.injEq] at hhead
          exact hall n hlt hhead
        · rw [Nat.toDigits_of_base_le (by decide) (by omega),
            List.head?_append_of_ne_nil _ Nat.toDigits_ne_nil] at hhead
          have hdiv := ih (n / 10) (by omega) hhead
          omega
  rw [hzero n h]
  rfl

theorem number?_append (negative : Bool) {whole s : List Char} (hwhole : IsNumeral whole)
    (hzero : whole.head? = some '0' → whole.length = 1) (hs : Stops Char.isDigit s) :
    number? ((if negative then ['-'] else []) ++ (whole ++ s))
      = (fraction? s).bind fun (part, s) => (exponent? s).bind fun (exponent, s) =>
        if negative || !part.isEmpty || exponent.isSome then
          some (number { negative, whole, part, exponent := exponent.getD 0 }, s)
        else
          some (natural (Nat.ofDigitChars 10 whole 0), s) := by
  have hcut : word? Char.isDigit (whole ++ s) = some (whole, s) :=
    word?_eq_some_iff.2 ⟨rfl, hwhole, hs⟩
  have hlead : ¬ (whole.head? = some '0' ∧ whole.length ≠ 1) := fun h => h.2 (hzero h.1)
  have hdigit : ∀ r, whole ++ s ≠ '-' :: r := by
    intro r heq
    rcases whole with _ | ⟨d, whole⟩
    · exact absurd rfl hwhole.1
    · rw [List.cons_append, List.cons.injEq] at heq
      exact absurd (hwhole.2 d List.mem_cons_self) (by rw [heq.1]; decide)
  cases negative with
  | true =>
      rw [if_pos rfl, List.singleton_append, number?]
      simp only [hcut, Option.bind_eq_bind, Option.bind_some, if_neg hlead]
      rfl
  | false =>
      rw [if_neg Bool.false_ne_true, List.nil_append, number?]
      · simp only [hcut, Option.bind_eq_bind, Option.bind_some, if_neg hlead]
        rfl
      · exact hdigit

section EndsValue

variable {rest : List Char}

theorem EndsValue.stops (h : EndsValue rest) {p : Char → Bool} (hcomma : p ',' = false)
    (hfeed : p '\n' = false) : Stops p rest := by
  intro c hc
  rcases h c hc with rfl | rfl
  · exact hcomma
  · exact hfeed

theorem fraction?_of_ne {s : List Char} (h : s.head? ≠ some '.') : fraction? s = some ([], s) := by
  unfold fraction?
  split
  · exact absurd rfl h
  · rfl

theorem exponent?_of_endsValue (h : EndsValue rest) : exponent? rest = some (none, rest) := by
  cases rest with
  | nil => rfl
  | cons c rest =>
      have hmark : ¬ (c == 'e' || c == 'E') = true := by
        rcases h c rfl with rfl | rfl <;> decide
      rw [exponent?, if_neg hmark]

theorem number?_toDigits (n : Nat) (h : EndsValue rest) :
    number? (Nat.toDigits 10 n ++ rest) = some (natural n, rest) := by
  have hpoint : rest.head? ≠ some '.' := by
    intro hhead
    rcases h '.' hhead with h | h
    · exact absurd h (by decide)
    · exact absurd h (by decide)
  have hcut := number?_append false (isNumeral_toDigits n) length_toDigits_of_head?
    (h.stops (by decide) (by decide))
  rw [if_neg Bool.false_ne_true, List.nil_append] at hcut
  rw [hcut, fraction?_of_ne hpoint]
  simp only [Option.bind_some, exponent?_of_endsValue h, Nat.ofDigitChars_ten_toDigits]
  rfl

end EndsValue

theorem fraction?_print {part : List Char} (h : ∀ c ∈ part, c.isDigit = true) (s : List Char) :
    fraction? ((if part.isEmpty then [] else '.' :: part) ++ 'e' :: s) = some (part, 'e' :: s) := by
  cases part with
  | nil => rfl
  | cons d ds => exact word?_append_cons (List.cons_ne_nil _ _) h (by decide)

theorem exponent?_print (e : Int) {rest : List Char} (h : EndsValue rest) :
    exponent? ('e' :: (e.repr.toList ++ rest)) = some (some e, rest) := by
  have hcut : word? Char.isDigit (Nat.toDigits 10 e.natAbs ++ rest)
      = some (Nat.toDigits 10 e.natAbs, rest) :=
    word?_eq_some_iff.2 ⟨rfl, isNumeral_toDigits _, h.stops (by decide) (by decide)⟩
  have hsign : Decimal.sign (e.repr.toList ++ rest)
      = (decide (e < 0), Nat.toDigits 10 e.natAbs ++ rest) := by
    rw [toList_repr_int]
    by_cases he : 0 ≤ e
    · rw [if_pos he, decide_eq_false (by omega)]
      rcases hdigits : Nat.toDigits 10 e.natAbs with _ | ⟨d, ds⟩
      · exact absurd hdigits Nat.toDigits_ne_nil
      · have hd : d.isDigit = true :=
          isDigit_of_mem_toDigits (n := e.natAbs) (by rw [hdigits]; simp)
        rw [List.cons_append, Decimal.sign]
        all_goals
          intro r heq
          rw [List.cons.injEq] at heq
          rw [heq.1] at hd
          exact absurd hd (by decide)
    · rw [if_neg he, decide_eq_true (by omega)]
      rfl
  rw [exponent?, if_pos (by decide), hsign]
  simp only [hcut, Option.bind_eq_bind, Option.bind_some, Nat.ofDigitChars_ten_toDigits,
    decide_eq_true_eq]
  have hvalue : (if e < 0 then -(e.natAbs : Int) else e.natAbs) = e := by
    split <;> omega
  rw [hvalue]
  rfl

/-- A numeral is read back as it was written. -/
theorem number?_print {n : Numeral} (hn : n.IsWritable) {rest : List Char}
    (h : EndsValue rest) : number? (n.print ++ rest) = some (number n, rest) := by
  have hstops : Stops Char.isDigit
      ((if n.part.isEmpty then [] else '.' :: n.part)
        ++ 'e' :: (n.exponent.repr.toList ++ rest)) := by
    cases n.part <;> exact stops_cons.2 (by decide)
  have htext : n.print ++ rest = (if n.negative then ['-'] else []) ++ (n.whole
      ++ ((if n.part.isEmpty then [] else '.' :: n.part)
        ++ 'e' :: (n.exponent.repr.toList ++ rest))) := by
    simp only [Numeral.print, List.append_assoc, List.cons_append]
  rw [htext, number?_append n.negative hn.whole hn.leading hstops, fraction?_print hn.part]
  simp only [Option.bind_some, exponent?_print n.exponent h, Option.isSome_some, Bool.or_true,
    if_true, Option.getD_some]

end Json

end QuantumIR
