import Mathlib.Data.List.TakeWhile
import Calculator.Number.Numeral
import Calculator.Number.Style
import Calculator.Proofs.DecimalRounding

namespace Calculator

/-!
A decimal that is written in full is a numeral and reads as the same number. Where the point stands
among the digits decides which of three layouts is used: zeros before the digits, a point between
them, or zeros after them.
-/

namespace Decimal

variable {d : Decimal} {whole part : List Char}

/-! ### Numerals -/

theorem no_point (plain : '.' ∉ whole) : ∀ c ∈ whole, decide (c ≠ '.') = true := by
  intro c member
  exact decide_eq_true fun point => plain (point ▸ member)

/-- A numeral with a point counts the digits behind it. -/
theorem ofNumeral?_point (first : '.' ∉ whole) (second : '.' ∉ part) (nonempty : whole ++ part ≠ []) :
    ofNumeral? (whole ++ '.' :: part) = some ⟨Nat.ofDigitChars 10 (whole ++ part) 0, -(part.length : Int)⟩ := by
  have before : (whole ++ '.' :: part).takeWhile (· ≠ '.') = whole := by
    rw [List.takeWhile_append_of_pos (no_point first), List.takeWhile_cons_of_neg (by decide), List.append_nil]
  have behind : ((whole ++ '.' :: part).dropWhile (· ≠ '.')).drop 1 = part := by
    rw [List.dropWhile_append_of_pos (no_point first), List.dropWhile_cons_of_neg (by decide), List.drop_one, List.tail_cons]
  rw [ofNumeral?, before, behind]
  exact if_neg (not_or.mpr ⟨second, nonempty⟩)

/-- A numeral without a point is a whole number. -/
theorem ofNumeral?_whole (plain : '.' ∉ whole) (nonempty : whole ≠ []) :
    ofNumeral? whole = some ⟨Nat.ofDigitChars 10 whole 0, 0⟩ := by
  have before : whole.takeWhile (· ≠ '.') = whole := List.takeWhile_eq_self_iff.mpr (no_point plain)
  have behind : whole.dropWhile (· ≠ '.') = [] := List.dropWhile_eq_nil_iff.mpr (no_point plain)
  rw [ofNumeral?, before, behind, List.drop_nil, List.append_nil]
  exact if_neg (not_or.mpr ⟨List.not_mem_nil, nonempty⟩)

/-! ### Written digits -/

theorem digits_no_point (n : Nat) : '.' ∉ Nat.toDigits 10 n := by
  intro member
  exact absurd (Nat.isDigit_of_mem_toDigits (by decide) (by decide) member) (by decide)

theorem zeros_no_point (count : Nat) : '.' ∉ List.replicate count '0' := by
  intro member
  exact absurd (List.eq_of_mem_replicate member) (by decide)

theorem digits_nonempty (n : Nat) : Nat.toDigits 10 n ≠ [] :=
  List.ne_nil_of_length_pos Nat.length_toDigits_pos

/-- Zeros before the digits of a number do not change it. -/
theorem ofDigitChars_zeros_before (count n : Nat) :
    Nat.ofDigitChars 10 (List.replicate count '0' ++ Nat.toDigits 10 n) 0 = n := by
  rw [Nat.ofDigitChars_append, Nat.ofDigitChars_replicate_zero, Nat.mul_zero]
  exact Nat.ofDigitChars_toDigits (by decide) (by decide)

/-- Zeros after them count as places. -/
theorem ofDigitChars_zeros_after (count n : Nat) :
    Nat.ofDigitChars 10 (Nat.toDigits 10 n ++ List.replicate count '0') 0 = 10 ^ count * n := by
  rw [Nat.ofDigitChars_append, Nat.ofDigitChars_toDigits (by decide) (by decide), Nat.ofDigitChars_replicate_zero]

theorem value_shift (n places : Nat) (exponent : Int) :
    value ⟨10 ^ places * n, exponent⟩ = value ⟨n, exponent + places⟩ := by
  rw [value, value, ten_pow_add, Nat.cast_mul, Nat.cast_pow, Nat.cast_ofNat, zpow_natCast]
  ring

/-- A decimal that is laid out without an exponent reads as the same number. -/
theorem ofNumeral?_positionalText (style : NumberStyle) (d : Decimal) :
    ∃ e, ofNumeral? (style.positionalText (Nat.toDigits 10 d.digits) (d.exponent + (Nat.toDigits 10 d.digits).length)) = some e ∧
      e.value = d.value := by
  have plain := digits_no_point d.digits
  have nonempty := digits_nonempty d.digits
  have number : Nat.ofDigitChars 10 (Nat.toDigits 10 d.digits) 0 = d.digits := Nat.ofDigitChars_toDigits (by decide) (by decide)
  have before := fun count => ofDigitChars_zeros_before count d.digits
  have after := fun count => ofDigitChars_zeros_after count d.digits
  generalize Nat.toDigits 10 d.digits = digits at plain nonempty number after before ⊢
  generalize point : d.exponent + (digits.length : Int) = place
  unfold NumberStyle.positionalText
  split
  · next small =>
    refine ⟨_, @ofNumeral?_point ['0'] _ (by decide) (List.not_mem_append (zeros_no_point _) plain) (List.cons_ne_nil _ _), ?_⟩
    have same : Nat.ofDigitChars 10 (['0'] ++ (List.replicate (-place).toNat '0' ++ digits)) 0 = d.digits := by
      rw [Nat.ofDigitChars_append]
      exact before _
    have exponent : -(((List.replicate (-place).toNat '0' ++ digits).length : Nat) : Int) = d.exponent := by
      rw [List.length_append, List.length_replicate]
      omega
    rw [same, exponent]
  · next positive =>
    split
    · next between =>
      have whole : digits.take place.toNat ++ digits.drop place.toNat = digits := List.take_append_drop _ _
      refine ⟨_, ofNumeral?_point (fun member => plain (List.mem_of_mem_take member))
        (fun member => plain (List.mem_of_mem_drop member)) (whole.trans_ne nonempty), ?_⟩
      have exponent : -(((digits.drop place.toNat).length : Nat) : Int) = d.exponent := by
        rw [List.length_drop]
        omega
      rw [whole, number, exponent]
    · next beyond =>
      have zeros := zeros_no_point (place.toNat - digits.length)
      split
      · refine ⟨_, ofNumeral?_point (List.not_mem_append plain zeros) (by decide) (by simp), ?_⟩
        rw [List.append_assoc, ← List.replicate_succ', after, value_shift]
        have exponent : -(((['0'] : List Char).length : Nat) : Int) + ((place.toNat - digits.length + 1 : Nat) : Int) = d.exponent := by
          rw [List.length_singleton]
          omega
        rw [exponent]
      · refine ⟨_, ofNumeral?_whole (by simp [plain, zeros]) (by simp [nonempty]), ?_⟩
        rw [List.append_nil, after, value_shift]
        have exponent : 0 + ((place.toNat - digits.length : Nat) : Int) = d.exponent := by omega
        rw [exponent]

end Decimal

end Calculator
