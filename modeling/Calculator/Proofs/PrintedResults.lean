import Calculator.Evaluation
import Calculator.Proofs.DecimalText
import Calculator.Proofs.FloatRank
import Calculator.Proofs.Spelling
import Calculator.Proofs.TreeValue

namespace Calculator

/-!
The plain text of a finite value is an expression again, a numeral that may have a sign before it.
Its value is the one that was written, and a result that was rounded once is not moved by being
rounded again.
-/

/-! ### Scanning a written value -/

theorem isNumeralChar_digits (n : Nat) : ∀ c ∈ Nat.toDigits 10 n, isNumeralChar c = true := by
  intro c digit
  rw [isNumeralChar, Nat.isDigit_of_mem_toDigits (by decide) (by decide) digit]
  rfl

/-- Without an exponent only digits and a point are written. -/
theorem isNumeralChar_positionalText (style : NumberStyle) {digits : List Char} (place : Int)
    (numeral : ∀ c ∈ digits, isNumeralChar c = true) {c : Char} (member : c ∈ style.positionalText digits place) :
    isNumeralChar c = true := by
  have zeros : ∀ count, c ∈ List.replicate count '0' → isNumeralChar c = true := by
    intro count zero
    rw [List.eq_of_mem_replicate zero]
    decide
  have ending : c ∈ (if style.keepsPoint then ['.', '0'] else []) → isNumeralChar c = true := by
    intro last
    split at last
    · rcases List.mem_pair.mp last with rfl | rfl <;> decide
    · exact absurd last List.not_mem_nil
  unfold NumberStyle.positionalText at member
  split at member
  · rcases List.mem_cons.mp member with rfl | member
    · decide
    · rcases List.mem_cons.mp member with rfl | member
      · decide
      · exact (List.mem_append.mp member).elim (zeros _) (numeral c)
  · split at member
    · rcases List.mem_append.mp member with before | member
      · exact numeral c (List.mem_of_mem_take before)
      · rcases List.mem_cons.mp member with rfl | behind
        · decide
        · exact numeral c (List.mem_of_mem_drop behind)
    · rcases List.mem_append.mp member with whole | last
      · exact (List.mem_append.mp whole).elim (numeral c) (zeros _)
      · exact ending last

theorem plainStyle_decimalText (d : Decimal) : plainStyle.decimalText d =
    plainStyle.positionalText (Nat.toDigits 10 d.digits) (d.exponent + (Nat.toDigits 10 d.digits).length) := by
  rw [NumberStyle.decimalText]
  exact if_pos rfl

theorem isNumeralChar_decimalText {d : Decimal} {c : Char} (member : c ∈ plainStyle.decimalText d) : isNumeralChar c = true := by
  rw [plainStyle_decimalText] at member
  exact isNumeralChar_positionalText plainStyle _ (isNumeralChar_digits d.digits) member

/-- A decimal that is written in full is read as the value of its rank. -/
theorem ofNumeral?_decimalText (d : Decimal) : ofNumeral? (plainStyle.decimalText d) = some (floatOfRank false d.rank) := by
  obtain ⟨e, spelled, same⟩ := Decimal.ofNumeral?_positionalText plainStyle d
  rw [← plainStyle_decimalText] at spelled
  rw [ofNumeral?, spelled, Option.map_some, Decimal.rank_congr same]

/-- A numeral is a single token, and a minus before it is one more. -/
theorem tokenize_numeral {text : List Char} {v : Float} (numeral : ∀ c ∈ text, isNumeralChar c = true)
    (read : ofNumeral? text = some v) (negative : Bool) :
    tokenize (.ofList ((if negative then ['-'] else []) ++ text))
      = .ok ((if negative then [.operator .sub] else []) ++ [.number v]) := by
  have nonempty : text ≠ [] := by
    rintro rfl
    cases read
  have number : Spells [] (text ++ []) [.number v] := .cons (.number nonempty numeral (fun c member => nomatch member) read) .nil
  rw [List.append_nil] at number
  refine Spells.tokenize ?_
  rw [String.toList_ofList]
  cases negative with
  | true =>
    have minus : IsLexeme ['-'] (text ++ []) (.operator .sub) := .symbol rfl
    exact .cons minus number
  | false => exact number

/-- A single value with a sign is an expression of that value, rounded. -/
theorem evaluate_numeral {text : List Char} {v : Float} (numeral : ∀ c ∈ text, isNumeralChar c = true)
    (read : ofNumeral? text = some v) (negative : Bool) :
    evaluate (.ofList ((if negative then ['-'] else []) ++ text))
      = (normalize (if negative then -v else v)).mapError .arithmetic := by
  rw [evaluate, postfixOf, tokenize_numeral numeral read]
  cases negative with
  | true => rfl
  | false => rfl

/-- A finite value written in full is an expression of that value, which is rounded as any other. -/
theorem evaluate_finite_text {x : Float} (finite : floatRank x < infinityRank) :
    evaluate (plainStyle.text x) = (normalize x).mapError .arithmetic := by
  have text : plainStyle.text x = .ofList ((if isNegative x then ['-'] else []) ++ plainStyle.decimalText (.shortest .up (floatRank x))) :=
    if_pos finite
  have read := ofNumeral?_decimalText (.shortest .up (floatRank x))
  rw [Decimal.rank_shortest .up finite] at read
  have value : (if isNegative x then -floatOfRank false (floatRank x) else floatOfRank false (floatRank x)) = x := by
    rw [neg_floatOfRank finite.le]
    conv => rhs; rw [← floatOfRank_self x]
    cases isNegative x <;> rfl
  rw [text, evaluate_numeral (fun c member => isNumeralChar_decimalText member) read, value]

/-! ### Rounding again -/

theorem threshold_normal : 2 ^ 52 ≤ zeroThreshold.rank := by decide +kernel

theorem threshold_rounded : zeroThreshold.rank ≤ (Decimal.rounded zeroThreshold.rank resultDigits).rank := by decide +kernel

theorem largest_rounded : (Decimal.rounded (infinityRank - 1) resultDigits).rank < infinityRank := by decide +kernel

/-- Rounding leads neither below the threshold nor to infinity. -/
theorem rounded_bounds {rank : Nat} (large : zeroThreshold.rank ≤ rank) (finite : rank < infinityRank) :
    zeroThreshold.rank ≤ (Decimal.rounded rank resultDigits).rank ∧ (Decimal.rounded rank resultDigits).rank < infinityRank := by
  have positive : 0 < zeroThreshold.rank := Nat.lt_of_lt_of_le (by decide) threshold_normal
  have below := Decimal.rounded_mono positive finite large resultDigits
  have above := Decimal.rounded_mono (Nat.lt_of_lt_of_le positive large) (by decide +kernel) (Nat.le_pred_of_lt finite) resultDigits
  exact ⟨threshold_rounded.trans (Decimal.rank_mono below), (Decimal.rank_mono above).trans_lt largest_rounded⟩

/-- A rounded magnitude is the one that rounding it again gives. -/
theorem rounded_twice {rank : Nat} (large : zeroThreshold.rank ≤ rank) (finite : rank < infinityRank) :
    (Decimal.rounded (Decimal.rounded rank resultDigits).rank resultDigits).rank = (Decimal.rounded rank resultDigits).rank := by
  obtain ⟨least, most⟩ := rounded_bounds large finite
  have positive : 0 < rank := Nat.lt_of_lt_of_le (Nat.lt_of_lt_of_le (by decide) threshold_normal) large
  obtain ⟨_, digits⟩ := Decimal.rounded_digits_bounds positive resultDigits
  exact Decimal.rank_rounded (by decide) digits (threshold_normal.trans least) most

theorem normalize_eq {x : Float} (large : zeroThreshold.rank ≤ floatRank x) (finite : floatRank x < infinityRank) :
    normalize x = .ok (floatOfRank (isNegative x) (Decimal.rounded (floatRank x) resultDigits).rank) := by
  have positive : 0 < floatRank x := Nat.lt_of_lt_of_le (Nat.lt_of_lt_of_le (by decide) threshold_normal) large
  rw [normalize, if_neg finite.not_ge, if_neg large.not_gt, roundSignificant,
    if_neg (not_or.mpr ⟨positive.ne', finite.not_ge⟩)]

theorem normalize_zero : normalize floatZero = .ok floatZero := by
  have rank : floatRank floatZero = 0 := floatRank_floatOfRank (Nat.zero_le _)
  have large := threshold_normal
  rw [normalize, rank, if_neg (by decide), if_pos (by omega)]

/-- A result is finite, and rounding it again gives it again. -/
theorem normalize_settled {value x : Float} (rounded : normalize value = .ok x) :
    floatRank x < infinityRank ∧ normalize x = .ok x := by
  rcases le_or_gt infinityRank (floatRank value) with infinite | finite
  · rw [normalize, if_pos infinite] at rounded
    cases rounded
  · rcases lt_or_ge (floatRank value) zeroThreshold.rank with tiny | large
    · rw [normalize, if_neg finite.not_ge, if_pos tiny] at rounded
      cases rounded
      exact ⟨(floatRank_floatOfRank (Nat.zero_le _)).trans_lt (by decide), normalize_zero⟩
    · rw [normalize_eq large finite] at rounded
      cases rounded
      obtain ⟨least, most⟩ := rounded_bounds large finite
      have same : floatRank (floatOfRank (isNegative value) (Decimal.rounded (floatRank value) resultDigits).rank)
          = (Decimal.rounded (floatRank value) resultDigits).rank := floatRank_floatOfRank most.le
      refine ⟨same.trans_lt most, ?_⟩
      rw [normalize_eq (least.trans_eq same.symm) (same.trans_lt most), same, isNegative_floatOfRank most.le,
        rounded_twice large finite]

/-- The plain text of a result is an expression with exactly that result. -/
theorem evaluate_result_text {source : String} {x : Float} (run : evaluate source = .ok x) :
    evaluate (plainStyle.text x) = .ok x := by
  obtain ⟨_, _, value, _, _, _, rounded⟩ := evaluate_stages run
  obtain ⟨finite, again⟩ := normalize_settled rounded
  rw [evaluate_finite_text finite, again]
  rfl

theorem evaluate_result_text_small_quotient :
    evaluate "0.0000000001 / -81" = .ok (-1.23456790123e-12) ∧
    plainStyle.text (-1.23456790123e-12) = "-0.00000000000123456790123" ∧
    evaluate "-0.00000000000123456790123" = .ok (-1.23456790123e-12) := by
  have run : evaluate "0.0000000001 / -81" = .ok (-1.23456790123e-12) := by decide +kernel
  have text : plainStyle.text (-1.23456790123e-12) = "-0.00000000000123456790123" := by decide +kernel
  have back := evaluate_result_text run
  rw [text] at back
  exact ⟨run, text, back⟩

end Calculator
