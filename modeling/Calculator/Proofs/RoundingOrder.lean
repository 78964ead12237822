import Calculator.Proofs.FloatOrder
import Calculator.Proofs.RepeatedRounding

namespace Calculator

/-!
Rounding as a function of ranks. It keeps their order, whatever the places of the first digits are, and the
sign is put back afterwards. The cut that makes a tiny result zero keeps the order too.
-/

/-- The rank to which a rank is rounded. Zero has no digits to round. -/
def roundedRank (digits rank : Nat) : Nat :=
  if rank = 0 then 0 else (Decimal.rounded rank digits).rank

/-- The rank of the result that is given out for a rank. -/
def resultRank (rank : Nat) : Nat :=
  if rank < zeroThreshold.rank then 0 else roundedRank resultDigits rank

variable {x y : Float} {r s : Nat}

theorem roundedRank_le (digits rank : Nat) : roundedRank digits rank ≤ infinityRank := by
  unfold roundedRank
  split
  · exact Nat.zero_le _
  · exact Decimal.rank_le_infinity _

theorem roundedRank_mono (digits : Nat) (le : r ≤ s) (finite : s < infinityRank) :
    roundedRank digits r ≤ roundedRank digits s := by
  rcases Nat.eq_zero_or_pos r with rfl | positive
  · exact Nat.zero_le _
  · have positiveToo : 0 < s := positive.trans_le le
    rw [roundedRank, if_neg positive.ne', roundedRank, if_neg positiveToo.ne']
    exact Decimal.rank_mono (Decimal.rounded_mono positive finite le digits)

theorem resultRank_mono (le : r ≤ s) (finite : s < infinityRank) : resultRank r ≤ resultRank s := by
  rcases lt_or_ge r zeroThreshold.rank with tiny | large
  · rw [resultRank, if_pos tiny]
    exact Nat.zero_le _
  · rw [resultRank, if_neg large.not_gt, resultRank, if_neg (large.trans le).not_gt]
    exact roundedRank_mono resultDigits le finite

theorem roundSignificant_floatOfRank (finite : x.isFinite = true) (digits : Nat) :
    roundSignificant x digits = floatOfRank (isNegative x) (roundedRank digits (floatRank x)) := by
  rcases Nat.eq_zero_or_pos (floatRank x) with zero | positive
  · rw [roundSignificant_self (.inl zero), zero, roundedRank, if_pos rfl, ← zero, floatOfRank_self]
  · rw [roundSignificant_of_rank positive (isFinite_iff.mp finite), roundedRank, if_neg positive.ne']

/-- A result has the sign of its value, unless the value is tiny. -/
theorem normalize_floatOfRank (finite : x.isFinite = true) :
    normalize x = .ok (floatOfRank (isNegative x && zeroThreshold.rank ≤ floatRank x) (resultRank (floatRank x))) := by
  have bound := isFinite_iff.mp finite
  rw [normalize, if_neg bound.not_ge]
  rcases lt_or_ge (floatRank x) zeroThreshold.rank with tiny | large
  · rw [if_pos tiny, resultRank, if_pos tiny, decide_eq_false tiny.not_ge, Bool.and_false]
    rfl
  · rw [if_neg large.not_gt, resultRank, if_neg large.not_gt, decide_eq_true large, Bool.and_true,
      roundSignificant_floatOfRank finite]

theorem roundSignificant_le (first : x.isFinite = true) (second : y.isFinite = true) (le : x ≤ y) (digits : Nat) :
    roundSignificant x digits ≤ roundSignificant y digits := by
  have below := isFinite_iff.mp first
  have belowToo := isFinite_iff.mp second
  rw [le_iff_signedRank below.le belowToo.le] at le
  rw [roundSignificant_floatOfRank first, roundSignificant_floatOfRank second,
    floatOfRank_le_iff (roundedRank_le _ _) (roundedRank_le _ _)]
  exact signed_mono rfl (fun r s => roundedRank_mono digits) below belowToo le

theorem resultRank_le (rank : Nat) : resultRank rank ≤ infinityRank := by
  unfold resultRank
  split
  · exact Nat.zero_le _
  · exact roundedRank_le _ _

/-- The sign that a tiny result loses makes no difference to its place. -/
theorem signed_resultRank (negative : Bool) (rank : Nat) :
    signed (negative && zeroThreshold.rank ≤ rank) (resultRank rank) = signed negative (resultRank rank) := by
  rcases lt_or_ge rank zeroThreshold.rank with tiny | large
  · rw [resultRank, if_pos tiny, signed_zero, signed_zero]
  · rw [decide_eq_true large, Bool.and_true]

theorem normalize_le (first : x.isFinite = true) (second : y.isFinite = true) (le : x ≤ y) :
    ∃ r s, normalize x = .ok r ∧ normalize y = .ok s ∧ r ≤ s := by
  have below := isFinite_iff.mp first
  have belowToo := isFinite_iff.mp second
  refine ⟨_, _, normalize_floatOfRank first, normalize_floatOfRank second, ?_⟩
  rw [le_iff_signedRank below.le belowToo.le] at le
  rw [floatOfRank_le_iff (resultRank_le _) (resultRank_le _), signed_resultRank, signed_resultRank]
  exact signed_mono (by decide +kernel) (fun r s => resultRank_mono) below belowToo le

theorem isFinite_neg (finite : x.isFinite = true) : (-x).isFinite = true := by
  have below := isFinite_iff.mp finite
  exact isFinite_iff.mpr ((floatRank_neg below.le).trans_lt below)

theorem roundSignificant_neg (finite : x.isFinite = true) (digits : Nat) :
    roundSignificant (-x) digits = -roundSignificant x digits := by
  have below := (isFinite_iff.mp finite).le
  rw [roundSignificant_floatOfRank (isFinite_neg finite), roundSignificant_floatOfRank finite,
    neg_floatOfRank (roundedRank_le _ _), isNegative_neg below, floatRank_neg below]

/-- The opposite value has the opposite result, but where the result is zero it has no sign. -/
theorem normalize_neg (finite : x.isFinite = true) :
    ∃ r s, normalize x = .ok r ∧ normalize (-x) = .ok s ∧ (s = -r ∨ r = 0 ∧ s = 0) := by
  have below := (isFinite_iff.mp finite).le
  refine ⟨_, _, normalize_floatOfRank finite, normalize_floatOfRank (isFinite_neg finite), ?_⟩
  rw [isNegative_neg below, floatRank_neg below]
  rcases lt_or_ge (floatRank x) zeroThreshold.rank with tiny | large
  · right
    rw [resultRank, if_pos tiny, decide_eq_false tiny.not_ge, Bool.and_false, Bool.and_false]
    exact ⟨rfl, rfl⟩
  · left
    rw [decide_eq_true large, Bool.and_true, Bool.and_true, neg_floatOfRank (resultRank_le _)]

/-- Rounding keeps the order of values and their symmetry about zero, to any number of digits and also where
it leads to infinity. So does the making of results, tiny ones included, of which none is a negative zero. -/
theorem rounding_keeps_order :
    (∀ x y : Float, x.isFinite = true → y.isFinite = true → x ≤ y →
      (∀ digits, roundSignificant x digits ≤ roundSignificant y digits) ∧
      ∃ r s, normalize x = .ok r ∧ normalize y = .ok s ∧ r ≤ s) ∧
    ∀ x : Float, x.isFinite = true →
      (∀ digits, roundSignificant (-x) digits = -roundSignificant x digits) ∧
      ∃ r s, normalize x = .ok r ∧ normalize (-x) = .ok s ∧ (s = -r ∨ r = 0 ∧ s = 0) :=
  ⟨fun _ _ first second le => ⟨roundSignificant_le first second le, normalize_le first second le⟩,
    fun _ finite => ⟨roundSignificant_neg finite, normalize_neg finite⟩⟩

/-- A value that a single digit rounds up to the threshold, beside the threshold. As a result it is zero. -/
theorem rounding_keeps_order_at_threshold :
    (9.6e-13 : Float).isFinite = true ∧ (1e-12 : Float).isFinite = true ∧ (9.6e-13 : Float) ≤ 1e-12 ∧
    roundSignificant 9.6e-13 1 = 1e-12 ∧ (1e-12 : Float) ≤ roundSignificant 1e-12 1 ∧
    roundSignificant (-9.6e-13) 1 = -1e-12 ∧ normalize 9.6e-13 = .ok 0 ∧
    (∃ s, normalize 1e-12 = .ok s ∧ (0 : Float) ≤ s) ∧ ∃ s, normalize (-9.6e-13) = .ok s ∧ (s = -0 ∨ s = 0) := by
  have first : (9.6e-13 : Float).isFinite = true := by decide +kernel
  have second : (1e-12 : Float).isFinite = true := by decide +kernel
  have le : (9.6e-13 : Float) ≤ 1e-12 := by decide +kernel
  have rounded : roundSignificant 9.6e-13 1 = 1e-12 := by decide +kernel
  have result : normalize 9.6e-13 = .ok 0 := by decide +kernel
  obtain ⟨ordered, r, s, given, givenToo, results⟩ := rounding_keeps_order.1 _ _ first second le
  obtain ⟨mirrored, zero, opposite, same, sameToo, symmetric⟩ := rounding_keeps_order.2 _ first
  have atOne := ordered 1
  have atMinusOne := mirrored 1
  rw [rounded] at atOne atMinusOne
  cases result.symm.trans given
  cases result.symm.trans same
  exact ⟨first, second, le, rounded, atOne, atMinusOne, result, ⟨s, givenToo, results⟩, opposite, sameToo,
    symmetric.imp_right And.right⟩

end Calculator
