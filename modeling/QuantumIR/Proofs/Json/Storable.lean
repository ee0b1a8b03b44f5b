import QuantumIR.Proofs.Json.Tokens
import Mathlib.Data.Nat.Digits.Defs

/-!
# Values That Can Be Used

A value that is ignored must still be usable: its strings must be texts and its numbers
finite. Here it is shown of what a circuit is written with, which is texts and numbers of
64 bits.

That a number of 64 bits is finite is less obvious than it sounds, because it is not
rounded once. Its digits are taken as a coefficient, which is rounded, and the result is
multiplied by the power of ten that is left over, which is one, and rounded again. All
bounds are crude: the largest finite number has a thousand bits, and no rounding adds more
than one.

## Theorems

* `Binary64.exists_ofRatio_eq_finite`: A fraction that is not too large is finite.
* `Binary64.isFinite_mul_one`: So is a number of moderate size times one.
* `Numeral.absorb_eq`: Digits are all taken while their number fits into 64 bits.
* `Numeral.isFinite_ofNat`: A number of 64 bits is finite.
* `Json.text?_units`: A text is the text of its units.
* `Json.areStorable_iff`: A list can be stored if each of its items can.
-/

namespace QuantumIR

namespace Binary64

theorem exponentFor_le (num den : Nat) :
    exponentFor num den ≤ max ((num.log2 : Int) - den.log2 - 52) minExponent := by
  rw [exponentFor, precision]
  simp only
  split <;> omega

theorem le_exponentFor (num den : Nat) :
    (num.log2 : Int) - den.log2 - 53 ≤ exponentFor num den := by
  rw [exponentFor, precision]
  simp only
  split <;> omega

theorem roundHalfEven_le (num den : Nat) : roundHalfEven num den ≤ num + 1 := by
  have hdiv : num / den ≤ num := Nat.div_le_self num den
  rw [roundHalfEven]
  split <;> omega

/-- A fraction below `2^1022` has a finite number nearest to it. -/
theorem exists_ofRatio_eq_finite (negative : Bool) (num den : Nat)
    (h : num.log2 ≤ den.log2 + 1022) :
    ∃ m e, ofRatio negative num den = .finite negative m e
      ∧ m ≤ num * 2 ^ (-exponentFor num den).toNat + 1 ∧ e ≤ exponentFor num den + 1 := by
  have hexp := exponentFor_le num den
  have hround := roundHalfEven_le (scale num den (exponentFor num den)).1
    (scale num den (exponentFor num den)).2
  have hmin : minExponent = -1074 := rfl
  have hmax : maxExponent = 971 := rfl
  rw [ofRatio]
  simp only
  split
  · rename_i hlimit
    rw [if_neg (by omega)]
    refine ⟨_, _, rfl, ?_, le_refl _⟩
    have hhalf : significandLimit / 2 ≤ significandLimit := Nat.div_le_self _ _
    rw [hlimit] at hround
    exact hhalf.trans hround
  · rw [if_neg (by omega)]
    exact ⟨_, _, rfl, hround, by omega⟩

/-- Multiplying by one makes no number of this size infinite. -/
theorem isFinite_mul_one (negative : Bool) {m : Nat} {e : Int} (hm : m < 2 ^ 118) (he : e ≤ 52) :
    ((finite negative m e).mul (ofDecimal false ⟨1, 0⟩)).isFinite = true := by
  have hone : ofDecimal false ⟨1, 0⟩ = .finite false 4503599627370496 (-52) := by decide
  rw [hone, mul]
  split
  · rfl
  · rename_i hne
    -- One is `2^52` at the exponent `-52`, so the whole product stands over a power of two.
    have hpower : (e + -52).toNat = 0 := by omega
    have hlog : (m * 4503599627370496).log2 < 170 := by
      rw [Nat.log2_lt hne]
      omega
    rw [hpower, show Nat.pow 2 0 = 1 from rfl, Nat.mul_one]
    obtain ⟨_, _, heq, -⟩ := exists_ofRatio_eq_finite (negative != false)
      (m * 4503599627370496) (Nat.pow 2 (-(e + -52)).toNat) (by omega)
    rw [heq]
    rfl

theorem exists_ofDecimal_eq_finite {n : Nat} (hpos : n ≠ 0) (h : n < Decimal.limit64) :
    ∃ m e, ofDecimal false ⟨n, 0⟩ = .finite false m e ∧ m < 2 ^ 118 ∧ e ≤ 52 := by
  have hlog : n.log2 < 64 := (Nat.log2_lt hpos).2 h
  have hplaces : (Nat.toDigits 10 n).length ≤ 20 :=
    Nat.toDigits_length 10 n 20 (by decide) (h.trans (by decide))
  have hlow := le_exponentFor n 1
  have hhigh := exponentFor_le n 1
  have hmin : minExponent = -1074 := rfl
  have hden : Nat.log2 1 = 0 := rfl
  obtain ⟨m, e, heq, hm, he⟩ := exists_ofRatio_eq_finite false n 1 (by omega)
  refine ⟨m, e, ?_, ?_, by omega⟩
  · rw [ofDecimal]
    simp only
    rw [if_neg (by simp [hpos]), if_neg (by omega)]
    simpa using heq
  · -- To fill its significand, a number is scaled up by 53 bits at most.
    have hpow : 2 ^ (-exponentFor n 1).toNat ≤ 2 ^ 53 := Nat.pow_le_pow_right (by decide) (by omega)
    have hprod := Nat.mul_le_mul (Nat.le_of_lt h) hpow
    calc m ≤ n * 2 ^ (-exponentFor n 1).toNat + 1 := hm
      _ ≤ Decimal.limit64 * 2 ^ 53 + 1 := Nat.succ_le_succ hprod
      _ < 2 ^ 118 := by decide

end Binary64

namespace Numeral

/-- Digits are all taken while the number they make fits into 64 bits. -/
theorem absorb_eq (coefficient : Nat) (s : List Char)
    (h : Nat.ofDigitChars 10 s coefficient < Decimal.limit64) :
    absorb coefficient s = (Nat.ofDigitChars 10 s coefficient, s.length) := by
  induction s generalizing coefficient with
  | nil => rfl
  | cons c s ih =>
      rw [Nat.ofDigitChars_cons] at h ⊢
      -- What has been taken is never more than the whole number.
      have hnext : 10 * coefficient + (c.toNat - '0'.toNat)
          ≤ Nat.ofDigitChars 10 s (10 * coefficient + (c.toNat - '0'.toNat)) := by
        rw [Nat.ofDigitChars_eq_ofDigitChars_zero]
        exact (Nat.le_mul_of_pos_left _ (Nat.pow_pos (by decide))).trans (Nat.le_add_right _ _)
      rw [absorb, if_pos (lt_of_le_of_lt hnext h), ih _ h]
      rfl

/-- A number of 64 bits is finite. -/
theorem isFinite_ofNat {n : Nat} (h : n < Decimal.limit64) : (ofNat n).isFinite = true := by
  have hdigits : Nat.ofDigitChars 10 (Nat.toDigits 10 n) 0 = n := Nat.ofDigitChars_ten_toDigits
  have hdecimal : (ofNat n).decimal64 = ⟨n, 0⟩ := by
    have htaken := absorb_eq 0 (Nat.toDigits 10 n) (by rwa [hdigits])
    rw [hdigits] at htaken
    simp [decimal64, ofNat, htaken, absorb]
  rw [isFinite, hdecimal]
  by_cases hzero : n = 0
  · simp [hzero]
  · obtain ⟨m, e, heq, hm, he⟩ := Binary64.exists_ofDecimal_eq_finite hzero h
    have hproduct := Binary64.isFinite_mul_one false hm he
    simp only [heq, hproduct]
    simp [maxPower]

end Numeral

namespace Json

theorem characters?_map_toNat (s : List Char) : characters? (s.map Char.toNat) = some s := by
  induction s with
  | nil => rfl
  | cons c s ih =>
      -- No character is half of a surrogate pair.
      have hvalid : c.toNat < 0xD800 ∨ 0xDFFF < c.toNat ∧ c.toNat < 0x110000 := c.valid
      have hhigh : isHighHalf c.toNat = false := by
        simp only [isHighHalf, Bool.and_eq_false_iff, decide_eq_false_iff_not]
        omega
      have hlow : isLowHalf c.toNat = false := by
        simp only [isLowHalf, Bool.and_eq_false_iff, decide_eq_false_iff_not]
        omega
      rw [List.map_cons, characters?.eq_def]
      simp only [hlow, hhigh, Bool.false_eq_true, if_false, ih, Char.ofNat_toNat, Option.map_some]

/-- A text is the text of its units. -/
@[simp]
theorem text?_units (t : String) : text? (units t) = some t := by
  rw [text?, units, characters?_map_toNat, Option.map_some, String.ofList_toList]

theorem areUnits_units (t : String) : AreUnits (units t) := by
  intro n hn
  obtain ⟨c, -, rfl⟩ := List.mem_map.1 hn
  have hvalid : c.toNat < 0xD800 ∨ 0xDFFF < c.toNat ∧ c.toNat < 0x110000 := c.valid
  omega

theorem unsigned64?_natural_iff {n : Nat} :
    unsigned64? (natural n) = some n ↔ n < Decimal.limit64 := by
  rw [unsigned64?]
  split <;> simp [*]

theorem areStorable_iff {depth : Nat} {js : List Json} :
    areStorable depth js = true ↔ ∀ j ∈ js, j.isStorable depth = true := by
  induction js with
  | nil => simp [areStorable]
  | cons j js ih => simp [areStorable, ih]

end Json

end QuantumIR
