import Calculator.Proofs.NearestValue
import Calculator.Proofs.PrintedResults

namespace Calculator

/-!
What a result can be, in exact numbers. Rounding goes to the nearest decimal of twelve digits and from
there to the nearest value, and whatever was rounded once stays where it is.
-/

/-- `d` is the decimal of so many digits nearest to `q`, and of two of them the one with the even digits. -/
structure Decimal.Rounds (digits : Nat) (q : ℚ) (d : Decimal) : Prop where
  leading : (10 : ℚ) ^ (d.exponent + digits - 1) ≤ q
  next : q < (10 : ℚ) ^ (d.exponent + digits)
  close : |q - d.value| ≤ (10 : ℚ) ^ d.exponent / 2
  even : |q - d.value| = (10 : ℚ) ^ d.exponent / 2 → d.digits % 2 = 0

theorem Decimal.rounded_rounds {rank : Nat} (positive : 0 < rank) (digits : Nat) :
    Decimal.Rounds (max digits 1) (magnitude rank) (.rounded rank digits) := by
  obtain ⟨lower, upper⟩ := leadingPlace_bounds positive
  have place := rounded_exponent rank digits
  have one := le_max_right digits 1
  have kept := rounded_digits rank digits
  have step := ten_pow_pos (rounded rank digits).exponent
  have divisor := stepsAt_pos rank (rounded rank digits).exponent
  have close := divNearest_close (stepsAt rank (rounded rank digits).exponent).1 divisor
  have tie := fun half => @divNearest_even (stepsAt rank (rounded rank digits).exponent).1 _ divisor half
  rw [stepsAt_ratio, ← kept] at close tie
  have scaled : |magnitude rank - (rounded rank digits).value|
      = |((rounded rank digits).digits : ℚ) - magnitude rank / 10 ^ (rounded rank digits).exponent|
        * 10 ^ (rounded rank digits).exponent := by
    rw [value, ← abs_of_pos step, ← abs_mul, abs_of_pos step, sub_mul, div_mul_cancel₀ _ step.ne', abs_sub_comm]
  refine ⟨?_, ?_, ?_, fun half => tie ?_⟩
  · exact le_trans (ten_pow_le_iff.mpr (by omega)) lower
  · exact upper.trans_le (ten_pow_le_iff.mpr (by omega))
  · rw [scaled, le_div_iff₀ two_pos]
    have product := mul_le_mul_of_nonneg_right close step.le
    linarith only [product]
  · rw [scaled] at half
    exact mul_right_cancel₀ step.ne' (half.trans (by ring))

/-- What a result is: finite, zero or not tiny, and rounded already. -/
structure IsResult (x : Float) : Prop where
  finite : x.isFinite = true
  large : x = 0 ∨ exactValue 1e-12 ≤ |exactValue x|
  unsigned : x ≠ -0
  settled : normalize x = .ok x

/-- What is made of a value: zero if it is tiny, else its sign and twelve digits of its magnitude. -/
structure Normalized (value result : Float) : Prop extends IsResult result where
  tiny : |exactValue value| < exactValue 1e-12 → result = 0
  rounded : exactValue 1e-12 ≤ |exactValue value| → isNegative result = isNegative value ∧
    ∃ d, Decimal.Rounds 12 |exactValue value| d ∧ NearestTo d.value result

theorem exactValue_threshold : exactValue 1e-12 = magnitude zeroThreshold.rank := by
  have finite : (1e-12 : Float).isFinite = true := by decide +kernel
  have positive : 0 ≤ exactValue 1e-12 := by decide +kernel
  have rank : floatRank 1e-12 = zeroThreshold.rank := by decide +kernel
  rw [← abs_of_nonneg positive, abs_exactValue finite, rank]

theorem threshold_le_iff {x : Float} (finite : x.isFinite = true) :
    exactValue 1e-12 ≤ |exactValue x| ↔ zeroThreshold.rank ≤ floatRank x := by
  have bound : zeroThreshold.rank < infinityRank := by decide +kernel
  rw [exactValue_threshold, abs_exactValue finite]
  exact magnitude_le_iff bound (isFinite_iff.mp finite)

theorem isResult_zero : IsResult 0 := by
  refine ⟨by decide +kernel, .inl rfl, by decide +kernel, normalize_zero⟩

theorem isResult_of_large {x : Float} (finite : x.isFinite = true) (large : zeroThreshold.rank ≤ floatRank x)
    (settled : normalize x = .ok x) : IsResult x := by
  refine ⟨finite, .inr ((threshold_le_iff finite).mpr large), ?_, settled⟩
  rintro rfl
  have zero : floatRank (-0) = 0 := by decide +kernel
  have normal := threshold_normal
  omega

theorem normalize_finite {x : Float} (finite : x.isFinite = true) :
    ∃ r, normalize x = .ok r ∧ Normalized x r := by
  have bound := isFinite_iff.mp finite
  have scale := threshold_le_iff finite
  rcases lt_or_ge (floatRank x) zeroThreshold.rank with tiny | large
  · refine ⟨0, ?_, isResult_zero, fun _ => rfl, fun reached => absurd (scale.mp reached) tiny.not_ge⟩
    rw [normalize, if_neg bound.not_ge, if_pos tiny]
    rfl
  · have given := normalize_eq large bound
    have settled := (normalize_settled given).2
    obtain ⟨least, most⟩ := rounded_bounds large bound
    have rank := @floatRank_floatOfRank (isNegative x) _ most.le
    have inside := isFinite_iff.mpr (rank.trans_lt most)
    have positive : 0 < floatRank x :=
      Nat.lt_of_lt_of_le (Nat.lt_of_lt_of_le (by decide) threshold_normal) large
    have rounds := Decimal.rounded_rounds positive resultDigits
    rw [← abs_exactValue finite] at rounds
    refine ⟨_, given, isResult_of_large inside (least.trans_eq rank.symm) settled, ?_, fun _ => ?_⟩
    · exact fun less => absurd (scale.mpr large) less.not_ge
    · exact ⟨isNegative_floatOfRank most.le, _, rounds, Decimal.nearestTo_floatOfRank most _⟩

/-- Every finite value is given out as a result, and nothing else is. A result is finite, also next to the
largest value, and rounding it again gives it again. -/
theorem normalize_projection :
    (∀ x : Float, x.isFinite = true → ∃ r, normalize x = .ok r ∧ Normalized x r) ∧
    (∀ x : Float, x.isFinite = false → normalize x = .error .notFinite) ∧
    ∀ source r, evaluate source = .ok r → IsResult r := by
  have infinite : ∀ x : Float, x.isFinite = false → normalize x = .error .notFinite := by
    intro x not
    have bound := mt isFinite_iff.mpr (Bool.eq_false_iff.mp not)
    rw [normalize, if_pos (not_lt.mp bound)]
  refine ⟨fun x => normalize_finite, infinite, fun source r run => ?_⟩
  obtain ⟨_, _, value, _, _, _, rounded⟩ := evaluate_stages run
  cases finite : value.isFinite with
  | false =>
    rw [infinite value finite] at rounded
    cases rounded
  | true =>
    obtain ⟨given, same, normalized⟩ := normalize_finite finite
    rw [same] at rounded
    cases rounded
    exact normalized.toIsResult

end Calculator
