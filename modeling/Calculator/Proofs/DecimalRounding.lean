import Mathlib.Algebra.Order.Field.Power
import Mathlib.Data.Nat.Cast.Order.Field
import Mathlib.Algebra.Order.Ring.Rat
import Mathlib.Data.Rat.Cast.Order
import Mathlib.Tactic.FieldSimp
import Mathlib.Tactic.GCongr
import Mathlib.Tactic.Linarith
import Mathlib.Tactic.NormNum
import Mathlib.Tactic.Ring
import Calculator.Number.Shortest
import Calculator.Proofs.NearestRank

namespace Calculator

/-!
Decimals and ranks as numbers. Reading a decimal as a rank keeps the order of the numbers, so that
only the number counts and not how it is written; and a rank reads back from every decimal that is
its magnitude. In the normal range the two are so close that rounding to a few digits finds the
decimal again that was read.
-/

/-- The magnitude of a rank as a number. -/
def magnitude (rank : Nat) : ℚ :=
  rankUnits rank / unitsPerOne

/-- The number that a decimal stands for. -/
def Decimal.value (d : Decimal) : ℚ :=
  d.digits * 10 ^ d.exponent

theorem unitsPerOne_pos : (0 : ℚ) < unitsPerOne :=
  Nat.cast_pos.mpr (by decide +kernel)

theorem ten_pow_pos (place : Int) : (0 : ℚ) < 10 ^ place :=
  zpow_pos (by norm_num) place

theorem ten_pow_add (a b : Int) : (10 : ℚ) ^ (a + b) = 10 ^ a * 10 ^ b :=
  zpow_add₀ (by norm_num) a b

theorem ten_pow_le_iff {a b : Int} : (10 : ℚ) ^ a ≤ 10 ^ b ↔ a ≤ b :=
  zpow_le_zpow_iff_right₀ (by norm_num)

theorem ten_pow_lt_iff {a b : Int} : (10 : ℚ) ^ a < 10 ^ b ↔ a < b :=
  zpow_lt_zpow_iff_right₀ (by norm_num)

/-- A power of ten as a fraction of whole numbers. -/
theorem ten_pow_fraction (place : Int) :
    (10 : ℚ) ^ place = ((10 ^ place.toNat : Nat) : ℚ) / ((10 ^ (-place).toNat : Nat) : ℚ) := by
  rcases Int.eq_nat_or_neg place with ⟨n, rfl | rfl⟩
  · simp
  · simp

/-! ### Rounding a fraction -/

section Fraction

variable {n d k : Nat}

theorem le_divNearest (positive : 0 < d) (le : (k : ℚ) ≤ n / d) : k ≤ divNearest n d := by
  rw [le_div_iff₀ (Nat.cast_pos.mpr positive), ← Nat.cast_mul, Nat.cast_le] at le
  exact (divNearest_mul k positive).symm.le.trans (divNearest_mono d le)

theorem divNearest_le (positive : 0 < d) (le : (n : ℚ) / d ≤ k) : divNearest n d ≤ k := by
  rw [div_le_iff₀ (Nat.cast_pos.mpr positive), ← Nat.cast_mul, Nat.cast_le] at le
  exact (divNearest_mono d le).trans (divNearest_mul k positive).le

theorem divNearest_close (n : Nat) (positive : 0 < d) : |(divNearest n d : ℚ) - n / d| ≤ 1 / 2 := by
  obtain ⟨lower, upper⟩ := divNearest_bounds n positive
  have divisor : (0 : ℚ) < d := Nat.cast_pos.mpr positive
  have below : 2 * ((divNearest n d : ℚ) * d) ≤ 2 * n + d := by exact_mod_cast lower
  have above : 2 * (n : ℚ) ≤ 2 * (divNearest n d * d) + d := by exact_mod_cast upper
  rw [sub_div' divisor.ne', abs_div, abs_of_pos divisor, div_le_iff₀ divisor, abs_le]
  exact ⟨by linarith only [above], by linarith only [below]⟩

/-- The whole number less than a half away is what a fraction rounds to. -/
theorem divNearest_eq_of_near (positive : 0 < d) (near : |(n : ℚ) / d - k| < 1 / 2) : divNearest n d = k := by
  have divisor : (0 : ℚ) < d := Nat.cast_pos.mpr positive
  rw [div_sub' divisor.ne', abs_div, abs_of_pos divisor, div_lt_iff₀ divisor, abs_lt] at near
  obtain ⟨lower, upper⟩ := near
  have below : 2 * ((k : ℚ) * d) < 2 * n + d := by linarith only [lower]
  have above : 2 * (n : ℚ) < 2 * (k * d) + d := by linarith only [upper]
  exact divNearest_eq_of_close (by exact_mod_cast below) (by exact_mod_cast above)

end Fraction

theorem nearestRank_le_of_div_le {n d m e : Nat} (first : 0 < d) (second : 0 < e) (le : (n : ℚ) / d ≤ m / e) :
    nearestRank n d ≤ nearestRank m e := by
  rw [div_le_div_iff₀ (Nat.cast_pos.mpr first) (Nat.cast_pos.mpr second)] at le
  exact nearestRank_le_of_le first second (by exact_mod_cast le)

/-! ### Reading a decimal -/

namespace Decimal

variable {d e : Decimal} {rank : Nat}

/-- The fraction of which a decimal takes the nearest rank. -/
theorem rank_fraction (d : Decimal) :
    ((d.digits * Nat.pow 10 d.exponent.toNat * unitsPerOne : Nat) : ℚ) / ((Nat.pow 10 (-d.exponent).toNat : Nat) : ℚ)
      = d.value * unitsPerOne := by
  rw [value, ten_pow_fraction, Nat.pow_eq, Nat.pow_eq, Nat.cast_mul, Nat.cast_mul]
  ring

/-- A decimal is a multiple of every finer step. -/
theorem value_multiple {place : Int} (coarse : place ≤ d.exponent) :
    d.value = (d.digits * 10 ^ (d.exponent - place).toNat : Nat) * 10 ^ place := by
  have places : d.exponent = ((d.exponent - place).toNat : Int) + place := by omega
  rw [value, Nat.cast_mul, Nat.cast_pow, Nat.cast_ofNat, mul_assoc, ← zpow_natCast, ← ten_pow_add, ← places]

theorem rank_mono (le : d.value ≤ e.value) : d.rank ≤ e.rank := by
  refine nearestRank_le_of_div_le (Nat.pow_pos (by decide)) (Nat.pow_pos (by decide)) ?_
  rw [rank_fraction, rank_fraction]
  exact mul_le_mul_of_nonneg_right le unitsPerOne_pos.le

theorem rank_congr (same : d.value = e.value) : d.rank = e.rank :=
  le_antisymm (rank_mono same.le) (rank_mono same.ge)

theorem rank_le_infinity (d : Decimal) : d.rank ≤ infinityRank :=
  Nat.min_le_left _ _

theorem rank_le (finite : rank < infinityRank) (le : d.value ≤ magnitude rank) : d.rank ≤ rank := by
  rw [magnitude, le_div_iff₀ unitsPerOne_pos] at le
  rw [← nearestRank_rankUnits finite]
  refine nearestRank_le_of_div_le (Nat.pow_pos (by decide)) Nat.one_pos ?_
  rwa [rank_fraction, Nat.cast_one, div_one]

theorem le_rank (finite : rank < infinityRank) (le : magnitude rank ≤ d.value) : rank ≤ d.rank := by
  rw [magnitude, div_le_iff₀ unitsPerOne_pos] at le
  rw [← nearestRank_rankUnits finite]
  refine nearestRank_le_of_div_le Nat.one_pos (Nat.pow_pos (by decide)) ?_
  rwa [rank_fraction, Nat.cast_one, div_one]

/-- The exact magnitude reads back as its rank. -/
theorem rank_eq (finite : rank < infinityRank) (same : d.value = magnitude rank) : d.rank = rank :=
  le_antisymm (rank_le finite same.le) (le_rank finite same.ge)

/-- A decimal that reads as a normal value differs from it by half a unit of 53 places at most. -/
theorem rank_close (normal : 2 ^ 52 ≤ d.rank) (finite : d.rank < infinityRank) :
    |magnitude d.rank - d.value| * 2 ^ 53 ≤ magnitude d.rank := by
  have fraction := rank_fraction d
  unfold rank at normal finite
  rw [magnitude, rank]
  generalize d.digits * Nat.pow 10 d.exponent.toNat * unitsPerOne = n at fraction normal finite ⊢
  have positive : 0 < Nat.pow 10 (-d.exponent).toNat := Nat.pow_pos (by decide)
  generalize Nat.pow 10 (-d.exponent).toNat = b at fraction positive normal finite ⊢
  obtain ⟨_, many⟩ := divNearest_excess_bounds n positive
  have near := divNearest_close n (Nat.mul_pos positive (Nat.two_pow_pos (excess n b)))
  rw [rankUnits_nearestRank positive finite]
  rw [nearestRank_eq] at normal
  generalize divNearest n (b * 2 ^ excess n b) = kept at many near normal ⊢
  generalize excess n b = places at many near normal ⊢
  have enough : 2 ^ 52 ≤ kept := by
    rcases Nat.eq_zero_or_pos places with none | some
    · rw [none] at normal
      omega
    · exact many some
  have divisor : (0 : ℚ) < b := Nat.cast_pos.mpr positive
  have units := unitsPerOne_pos
  generalize (unitsPerOne : ℚ) = unit at fraction units ⊢
  have unscaled : ((kept * 2 ^ places : Nat) : ℚ) / unit - d.value
      = (kept - (n : ℚ) / (b * 2 ^ places : Nat)) * (2 ^ places / unit) := by
    rw [← (div_eq_iff units.ne').mpr fraction]
    push_cast
    field_simp
  have large : (2 : ℚ) ^ 52 ≤ kept := by exact_mod_cast enough
  calc
    |((kept * 2 ^ places : Nat) : ℚ) / unit - d.value| * 2 ^ 53
        = |kept - (n : ℚ) / (b * 2 ^ places : Nat)| * (2 ^ places / unit) * 2 ^ 53 := by
      rw [unscaled, abs_mul, abs_of_pos (div_pos (by positivity) units)]
    _ ≤ 1 / 2 * (2 ^ places / unit) * 2 ^ 53 := by gcongr
    _ = 2 ^ 52 * (2 ^ places / unit) := by ring
    _ ≤ kept * (2 ^ places / unit) := by gcongr
    _ = ((kept * 2 ^ places : Nat) : ℚ) / unit := by
      push_cast
      ring

end Decimal

/-! ### Rounding a rank -/

/-- The digits of a positive number place it between two powers of ten. -/
theorem toDigits_length_bounds {n : Nat} (positive : 0 < n) :
    10 ^ ((Nat.toDigits 10 n).length - 1) ≤ n ∧ n < 10 ^ (Nat.toDigits 10 n).length := by
  have some : 0 < (Nat.toDigits 10 n).length := Nat.length_toDigits_pos
  refine ⟨?_, (Nat.length_toDigits_le_iff (by decide) some).mp le_rfl⟩
  rcases Nat.eq_zero_or_pos ((Nat.toDigits 10 n).length - 1) with one | more
  · rw [one]
    exact positive
  · rw [← not_lt, ← Nat.length_toDigits_le_iff (by decide) more]
    omega

theorem rankUnits_pos {rank : Nat} (positive : 0 < rank) : 0 < rankUnits rank := by
  unfold rankUnits
  split
  · exact positive
  · exact Nat.mul_pos (Nat.add_pos_left (Nat.two_pow_pos 52) _) (Nat.two_pow_pos _)

theorem rankUnits_mono {r s : Nat} (finite : s < infinityRank) (le : r ≤ s) : rankUnits r ≤ rankUnits s := by
  by_contra less
  have back := nearestRank_mono Nat.one_pos (Nat.le_of_not_le less)
  rw [nearestRank_rankUnits finite, nearestRank_rankUnits (Nat.lt_of_le_of_lt le finite)] at back
  exact less (le_of_eq (congrArg rankUnits (le_antisymm le back)))

theorem magnitude_mono {r s : Nat} (finite : s < infinityRank) (le : r ≤ s) : magnitude r ≤ magnitude s :=
  div_le_div_of_nonneg_right (Nat.cast_le.mpr (rankUnits_mono finite le)) unitsPerOne_pos.le

/-- The digits of a fraction whose point was moved `far` places tell its own first place. -/
theorem length_toDigits_shifted {n d far : Nat} (positive : 0 < d) (enough : d ≤ n * Nat.pow 10 far) :
    (10 : ℚ) ^ ((Nat.toDigits 10 (n * Nat.pow 10 far / d)).length - (far : Int) - 1) ≤ n / d ∧
      (n : ℚ) / d < 10 ^ ((Nat.toDigits 10 (n * Nat.pow 10 far / d)).length - (far : Int)) := by
  rw [Nat.pow_eq] at enough ⊢
  obtain ⟨lower, upper⟩ := toDigits_length_bounds (Nat.div_pos enough positive)
  have some : 0 < (Nat.toDigits 10 (n * 10 ^ far / d)).length := Nat.length_toDigits_pos
  have shifted : ((n * 10 ^ far : Nat) : ℚ) / d = n / d * 10 ^ (far : Int) := by
    push_cast
    exact (div_mul_eq_mul_div _ _ _).symm
  generalize (Nat.toDigits 10 (n * 10 ^ far / d)).length = length at lower upper some ⊢
  refine ⟨?_, ?_⟩
  · have digits : ((10 ^ (length - 1) : Nat) : ℚ) ≤ n / d * 10 ^ (far : Int) :=
      shifted ▸ (Nat.cast_le.mpr lower).trans Nat.cast_div_le
    refine le_of_mul_le_mul_right (le_trans (le_of_eq ?_) digits) (ten_pow_pos far)
    rw [← ten_pow_add, Nat.cast_pow, ← zpow_natCast]
    exact congrArg _ (by omega)
  · have digits : (n : ℚ) / d * 10 ^ (far : Int) < ((10 ^ length : Nat) : ℚ) := by
      rw [← shifted, div_lt_iff₀ (Nat.cast_pos.mpr positive)]
      exact_mod_cast (Nat.div_lt_iff_lt_mul positive).mp upper
    refine lt_of_mul_lt_mul_right (lt_of_lt_of_eq digits ?_) (ten_pow_pos far).le
    rw [← ten_pow_add, Nat.cast_pow, ← zpow_natCast]
    exact congrArg _ (by omega)

/-- The leading place is where the first digit of the magnitude stands. -/
theorem leadingPlace_bounds {rank : Nat} (positive : 0 < rank) :
    (10 : ℚ) ^ leadingPlace rank ≤ magnitude rank ∧ magnitude rank < 10 ^ (leadingPlace rank + 1) := by
  have units : 0 < unitsPerOne := by decide +kernel
  have enough : unitsPerOne ≤ Nat.pow 10 324 := by decide +kernel
  have bounds := length_toDigits_shifted units (Nat.le_trans enough (Nat.le_mul_of_pos_left _ (rankUnits_pos positive)))
  have first : leadingPlace rank = (Nat.toDigits 10 (rankUnits rank * Nat.pow 10 324 / unitsPerOne)).length - (324 : Nat) - 1 := by
    unfold leadingPlace
    omega
  rw [first, sub_add_cancel]
  exact bounds

theorem stepsAt_ratio (rank : Nat) (place : Int) :
    ((stepsAt rank place).1 : ℚ) / (stepsAt rank place).2 = magnitude rank / 10 ^ place := by
  rw [ten_pow_fraction, magnitude, stepsAt]
  simp only [Nat.pow_eq, Nat.cast_mul]
  rw [div_div_div_eq]

theorem stepsAt_mono {r s : Nat} (finite : s < infinityRank) (le : r ≤ s) (place : Int) :
    divNearest (stepsAt r place).1 (stepsAt r place).2 ≤ divNearest (stepsAt s place).1 (stepsAt s place).2 := by
  simp only [stepsAt]
  exact divNearest_mono _ (Nat.mul_le_mul_right _ (rankUnits_mono finite le))

theorem stepsAt_pos (rank : Nat) (place : Int) : 0 < (stepsAt rank place).2 :=
  Nat.mul_pos (Nat.cast_pos.mp unitsPerOne_pos) (Nat.pow_pos (by decide))

/-- A whole number of steps less than half a step away is what a magnitude rounds to. -/
theorem divNearest_stepsAt {rank k : Nat} {place : Int} (near : |magnitude rank - k * 10 ^ place| * 2 < 10 ^ place) :
    divNearest (stepsAt rank place).1 (stepsAt rank place).2 = k := by
  have step := ten_pow_pos place
  refine divNearest_eq_of_near (stepsAt_pos rank place) ?_
  rw [stepsAt_ratio, div_sub' step.ne', abs_div, abs_of_pos step, div_lt_iff₀ step, mul_comm (10 ^ place) (k : ℚ)]
  linarith only [near]

namespace Decimal

variable {d : Decimal} {rank digits : Nat}

/-- Of the digits that are kept the first stands at the leading place. -/
theorem rounded_exponent (rank digits : Nat) :
    (rounded rank digits).exponent = leadingPlace rank - (max digits 1 - 1 : Nat) :=
  rfl

theorem rounded_digits (rank digits : Nat) : (rounded rank digits).digits =
    divNearest (stepsAt rank (rounded rank digits).exponent).1 (stepsAt rank (rounded rank digits).exponent).2 := by
  simp only [rounded]

theorem leading_digits (rank digits : Nat) :
    (10 : ℚ) ^ leadingPlace rank = ((10 ^ (max digits 1 - 1) : Nat) : ℚ) * 10 ^ (rounded rank digits).exponent ∧
      (10 : ℚ) ^ (leadingPlace rank + 1) = ((10 ^ max digits 1 : Nat) : ℚ) * 10 ^ (rounded rank digits).exponent := by
  have one := le_max_right digits 1
  rw [Nat.cast_pow, Nat.cast_pow, Nat.cast_ofNat, ← zpow_natCast, ← zpow_natCast, ← ten_pow_add, ← ten_pow_add, rounded_exponent]
  exact ⟨congrArg _ (by omega), congrArg _ (by omega)⟩

/-- A positive rank is rounded to as many digits as are asked for, or up to the next power of ten. -/
theorem rounded_digits_bounds (positive : 0 < rank) (digits : Nat) :
    10 ^ (max digits 1 - 1) ≤ (rounded rank digits).digits ∧ (rounded rank digits).digits ≤ 10 ^ max digits 1 := by
  obtain ⟨lower, upper⟩ := leadingPlace_bounds positive
  obtain ⟨first, next⟩ := leading_digits rank digits
  have step := ten_pow_pos (rounded rank digits).exponent
  rw [rounded_digits]
  refine ⟨le_divNearest (stepsAt_pos _ _) ?_, divNearest_le (stepsAt_pos _ _) ?_⟩
  · rw [stepsAt_ratio, le_div_iff₀ step, ← first]
    exact lower
  · rw [stepsAt_ratio, div_le_iff₀ step, ← next]
    exact upper.le

/-- Rounding keeps the order of the ranks. -/
theorem rounded_mono {r s : Nat} (positive : 0 < r) (finite : s < infinityRank) (le : r ≤ s) (digits : Nat) :
    (rounded r digits).value ≤ (rounded s digits).value := by
  have magnitudes := magnitude_mono finite le
  obtain ⟨lower, _⟩ := leadingPlace_bounds positive
  obtain ⟨_, upper⟩ := leadingPlace_bounds (positive.trans_le le)
  have places : leadingPlace r < leadingPlace s + 1 := ten_pow_lt_iff.mp (lower.trans_lt (magnitudes.trans_lt upper))
  rcases (Int.lt_add_one_iff.mp places).lt_or_eq with less | same
  · obtain ⟨_, most⟩ := rounded_digits_bounds positive digits
    obtain ⟨least, _⟩ := rounded_digits_bounds (positive.trans_le le) digits
    obtain ⟨_, next⟩ := leading_digits r digits
    obtain ⟨first, _⟩ := leading_digits s digits
    calc
      (rounded r digits).value ≤ ((10 ^ max digits 1 : Nat) : ℚ) * 10 ^ (rounded r digits).exponent :=
        mul_le_mul_of_nonneg_right (Nat.cast_le.mpr most) (ten_pow_pos _).le
      _ = 10 ^ (leadingPlace r + 1) := next.symm
      _ ≤ 10 ^ leadingPlace s := ten_pow_le_iff.mpr less
      _ = ((10 ^ (max digits 1 - 1) : Nat) : ℚ) * 10 ^ (rounded s digits).exponent := first
      _ ≤ (rounded s digits).value := mul_le_mul_of_nonneg_right (Nat.cast_le.mpr least) (ten_pow_pos _).le
  · have exponents : (rounded r digits).exponent = (rounded s digits).exponent := by
      rw [rounded_exponent, rounded_exponent, same]
    have steps : (rounded r digits).digits ≤ (rounded s digits).digits := by
      rw [rounded_digits, rounded_digits, exponents]
      exact stepsAt_mono finite le _
    rw [value, value, exponents]
    exact mul_le_mul_of_nonneg_right (Nat.cast_le.mpr steps) (ten_pow_pos _).le

/-- A decimal on the grid to which its own rank is rounded is found again by rounding. -/
theorem rank_rounded_of_multiple {k : Nat} (few : 10 ^ max digits 1 < 2 ^ 52) (normal : 2 ^ 52 ≤ d.rank)
    (finite : d.rank < infinityRank) (multiple : d.value = k * 10 ^ (rounded d.rank digits).exponent) :
    (rounded d.rank digits).rank = d.rank := by
  obtain ⟨_, upper⟩ := leadingPlace_bounds (Nat.lt_of_lt_of_le (by decide) normal)
  obtain ⟨_, next⟩ := leading_digits d.rank digits
  have close := rank_close normal finite
  have step := ten_pow_pos (rounded d.rank digits).exponent
  have bound : ((10 ^ max digits 1 : Nat) : ℚ) < 2 ^ 52 := by exact_mod_cast few
  have scaled := mul_lt_mul_of_pos_right bound step
  have found : (rounded d.rank digits).digits = k := by
    rw [rounded_digits]
    refine divNearest_stepsAt ?_
    rw [← multiple]
    linarith only [close, upper, next, scaled]
  refine rank_congr ?_
  rw [multiple, value, found]

/-- Rounding to so few digits that every one of their decimals has a rank of its own moves no rank
that was read from one of them. -/
theorem rank_rounded (few : 10 ^ max digits 1 < 2 ^ 52) (bound : d.digits ≤ 10 ^ max digits 1)
    (normal : 2 ^ 52 ≤ d.rank) (finite : d.rank < infinityRank) : (rounded d.rank digits).rank = d.rank := by
  obtain ⟨first, _⟩ := leading_digits d.rank digits
  rcases le_or_gt (rounded d.rank digits).exponent d.exponent with fine | coarse
  · exact rank_rounded_of_multiple few normal finite (value_multiple fine)
  · -- the rank lies above all decimals with this exponent, so it is also that of the power of ten between
    obtain ⟨lower, _⟩ := leadingPlace_bounds (Nat.lt_of_lt_of_le (by decide) normal)
    have below : d.value ≤ 10 ^ leadingPlace d.rank := by
      calc
        d.value ≤ ((10 ^ max digits 1 : Nat) : ℚ) * 10 ^ d.exponent :=
          mul_le_mul_of_nonneg_right (Nat.cast_le.mpr bound) (ten_pow_pos _).le
        _ = 10 ^ ((max digits 1 : Nat) + d.exponent) := by
          rw [ten_pow_add, Nat.cast_pow, Nat.cast_ofNat, zpow_natCast]
        _ ≤ 10 ^ leadingPlace d.rank := by
          have one := le_max_right digits 1
          rw [rounded_exponent] at coarse
          exact ten_pow_le_iff.mpr (by omega)
    let power : Decimal := ⟨10 ^ (max digits 1 - 1), (rounded d.rank digits).exponent⟩
    have same : power.rank = d.rank := by
      refine le_antisymm (rank_le finite ?_) (rank_mono ?_)
      · exact first.symm.trans_le lower
      · exact below.trans_eq first
    have found : (rounded power.rank digits).rank = power.rank := by
      refine @rank_rounded_of_multiple power digits (10 ^ (max digits 1 - 1)) few ?_ ?_ ?_
      · rwa [same]
      · rwa [same]
      · rw [same]
        rfl
    rwa [same] at found

/-! ### The shortest decimal -/

/-- Whichever neighbour is taken reads as the rank. -/
theorem rank_of_atPlace? {tie : Tie} {place : Int} (found : atPlace? tie rank place = some d) : d.rank = rank := by
  unfold atPlace? at found
  rcases stepsAt rank place with ⟨n, b⟩
  simp only at found
  split at found
  · next lower =>
    split at found
    · next upper =>
      split_ifs at found <;> cases found
      · exact lower
      · exact upper
      · exact lower
      · exact upper
    · cases found
      exact lower
  · next =>
    split at found
    · next upper =>
      cases found
      exact upper
    · cases found

theorem value_fifths (n places : Nat) :
    value ⟨n * Nat.pow 5 places, -(places : Int)⟩ = (n : ℚ) / (Nat.pow 2 places : Nat) := by
  have ten : (10 : ℚ) ^ places = 5 ^ places * 2 ^ places := by
    rw [← mul_pow]
    norm_num
  rw [value, Nat.pow_eq, Nat.pow_eq, zpow_neg, zpow_natCast, ten]
  push_cast
  field_simp

theorem value_exact (rank : Nat) : (exact rank).value = magnitude rank := by
  have fifths := value_fifths (rankUnits rank) 1074
  rwa [← unitsPerOne] at fifths

/-- The shortest decimal of a finite rank reads as that rank. -/
theorem rank_shortest (tie : Tie) (finite : rank < infinityRank) : (shortest tie rank).rank = rank := by
  by_cases zero : rank = 0
  · have units : rankUnits 0 = 0 := rfl
    rw [zero] at finite ⊢
    rw [shortest, if_pos rfl]
    refine rank_eq finite ?_
    rw [magnitude, value, units, Nat.cast_zero, zero_div, zero_mul]
  · rw [shortest, if_neg zero]
    simp only
    generalize tried : (List.range 18).findSome? (fun i : Nat => atPlace? tie rank (leadingPlace rank + 1 - i)) = found
    cases found with
    | none => exact rank_eq finite (value_exact rank)
    | some d =>
      obtain ⟨i, _, hit⟩ := List.exists_of_findSome?_eq_some tried
      exact rank_of_atPlace? hit

end Decimal

end Calculator
