import Calculator.Proofs.ReadingInterval
import Calculator.Proofs.ResultRange

namespace Calculator

/-!
Rounding to significant digits leaves the decimal grid again when the decimal is read as a value. Rounding
that value once more cannot lead away from it, whichever of the two grids is the finer one there; and from
seventeen digits on the value itself comes back.
-/

/-- Halfway between the largest finite magnitude and where the next run would start. -/
def overflowBound : Nat :=
  (2 ^ 54 - 1) * 2 ^ 970

/-! ### Powers of ten beside powers of two -/

/-- How many binary places a power of ten has besides the first, for those that are finite. -/
def binaryPlaces (n : Nat) : Nat :=
  n * 217706 / 2 ^ 16

theorem power_bounds : ∀ n : Nat, n < 309 → 2 ^ binaryPlaces n ≤ 10 ^ n ∧
    10 ^ n * (2 ^ 53 + 1) < 2 ^ (binaryPlaces n + 1) * 2 ^ 53 ∧
    (n ≠ 0 → (2 ^ 53 + 1) * 2 ^ binaryPlaces n < 2 ^ 53 * 10 ^ n) := by
  decide +kernel

theorem two_pow_le_of_lt {a b : Int} (less : (2 : ℚ) ^ a < 2 ^ (b + 1)) : (2 : ℚ) ^ a ≤ 2 ^ b := by
  have two : (1 : ℚ) < 2 := by norm_num
  exact (zpow_le_zpow_iff_right₀ two).mpr (Int.lt_add_one_iff.mp ((zpow_lt_zpow_iff_right₀ two).mp less))

/-- A power of ten above a power of two is farther above it than 53 binary digits can tell. -/
theorem ten_pow_apart {n : Nat} {binary : Int} (positive : n ≠ 0) (small : n < 309) (above : (2 : ℚ) ^ binary < 10 ^ n) :
    (2 ^ 53 + 1) * (2 : ℚ) ^ binary < 2 ^ 53 * 10 ^ n := by
  obtain ⟨_, upper, gap⟩ := power_bounds n small
  have upper : (10 : ℚ) ^ n * (2 ^ 53 + 1) < 2 ^ (binaryPlaces n + 1) * 2 ^ 53 := by exact_mod_cast upper
  have gap : (2 ^ 53 + 1) * (2 : ℚ) ^ binaryPlaces n < 2 ^ 53 * 10 ^ n := by exact_mod_cast gap positive
  have ten : (0 : ℚ) < 10 ^ n := by positivity
  have bound : (2 : ℚ) ^ binary ≤ 2 ^ (binaryPlaces n : Int) := by
    refine two_pow_le_of_lt (above.trans ?_)
    rw [← Nat.cast_add_one, zpow_natCast]
    linarith only [upper, ten]
  rw [zpow_natCast] at bound
  linarith only [bound, gap]

theorem ten_pow_inv_apart {n : Nat} {binary : Int} (small : n < 309) (above : (2 : ℚ) ^ binary < (10 ^ n)⁻¹) :
    (2 ^ 53 + 1) * (2 : ℚ) ^ binary < 2 ^ 53 * (10 ^ n)⁻¹ := by
  obtain ⟨lower, upper, _⟩ := power_bounds n small
  have lower : (2 : ℚ) ^ binaryPlaces n ≤ 10 ^ n := by exact_mod_cast lower
  have upper : (10 : ℚ) ^ n * (2 ^ 53 + 1) < 2 ^ (binaryPlaces n + 1) * 2 ^ 53 := by exact_mod_cast upper
  have ten : (0 : ℚ) < 10 ^ n := by positivity
  have two : (0 : ℚ) < 2 ^ (binaryPlaces n + 1) := by positivity
  have bound : (2 : ℚ) ^ binary ≤ 2 ^ (-((binaryPlaces n + 1 : Nat) : Int)) := by
    refine two_pow_le_of_lt (above.trans_le ?_)
    rw [Nat.cast_add_one, neg_add, neg_add_cancel_right, zpow_neg, zpow_natCast]
    exact inv_anti₀ (by positivity) lower
  rw [zpow_neg, zpow_natCast] at bound
  calc
    (2 ^ 53 + 1) * (2 : ℚ) ^ binary ≤ (2 ^ 53 + 1) * (2 ^ (binaryPlaces n + 1))⁻¹ := by gcongr
    _ < 2 ^ 53 * (10 ^ n)⁻¹ := by
      rw [← div_eq_mul_inv, ← div_eq_mul_inv, div_lt_div_iff₀ two ten]
      linarith only [upper]

theorem power_of_ten_apart {place binary : Int} (least : -309 < place) (most : place < 309)
    (above : (2 : ℚ) ^ binary < 10 ^ place) : (2 ^ 53 + 1) * (2 : ℚ) ^ binary < 2 ^ 53 * 10 ^ place := by
  obtain ⟨n, rfl | rfl⟩ := Int.eq_nat_or_neg place
  · rcases Nat.eq_zero_or_pos n with rfl | positive
    · have apart := @ten_pow_inv_apart 0 binary (by decide) (by simpa using above)
      simpa using apart
    · rw [zpow_natCast] at above ⊢
      exact ten_pow_apart positive.ne' (by omega) above
  · rw [zpow_neg, zpow_natCast] at above ⊢
    exact ten_pow_inv_apart (by omega) above

/-! ### Finite magnitudes -/

/-- The start of a run is a power of two. -/
theorem magnitude_run_start {rank : Nat} (first : rank % 2 ^ 52 = 0) (large : 2 ^ 53 ≤ rank) :
    ∃ binary : Int, magnitude rank = 2 ^ binary := by
  have places : rank = (rank / 2 ^ 52 - 1) * 2 ^ 52 + 2 ^ 52 := by omega
  have units := @rankUnits_of_digits (rank / 2 ^ 52 - 1) (2 ^ 52) (by decide) fun _ => le_rfl
  obtain ⟨unit, one⟩ : ∃ unit : Nat, unitsPerOne = Nat.pow 2 unit := ⟨_, unitsPerOne.eq_1⟩
  rw [← places] at units
  refine ⟨((52 + (rank / 2 ^ 52 - 1) : Nat) : Int) - unit, ?_⟩
  rw [magnitude, units, one, Nat.pow_eq, zpow_sub₀ (by norm_num), zpow_natCast, zpow_natCast, pow_add]
  push_cast
  rfl

theorem magnitude_lt_of_units {rank n : Nat} (less : rankUnits rank < 10 ^ n * unitsPerOne) :
    magnitude rank < 10 ^ (n : Int) := by
  rw [magnitude, div_lt_iff₀ unitsPerOne_pos, zpow_natCast]
  exact_mod_cast less

theorem lt_magnitude_of_units {rank n : Nat} (less : unitsPerOne < rankUnits rank * 10 ^ n) :
    10 ^ (-(n : Int)) < magnitude rank := by
  have cast : (unitsPerOne : ℚ) < rankUnits rank * 10 ^ n := by exact_mod_cast less
  rw [magnitude, zpow_neg, zpow_natCast, inv_eq_one_div, div_lt_div_iff₀ (by positivity) unitsPerOne_pos, one_mul]
  exact cast

theorem largest_finite : infinityRank - 1 < infinityRank := by decide +kernel

/-- The powers of ten between normal magnitudes that are finite. -/
theorem power_of_ten_range {low high : Nat} {place : Int} (large : 2 ^ 53 ≤ low) (also : low < infinityRank)
    (finite : high < infinityRank) (above : magnitude low < 10 ^ place) (below : 10 ^ place ≤ magnitude high) :
    -309 < place ∧ place < 309 := by
  have least : 10 ^ (-((308 : Nat) : Int)) < magnitude (2 ^ 53) := lt_magnitude_of_units (by decide +kernel)
  have most : magnitude (infinityRank - 1) < 10 ^ ((309 : Nat) : Int) := magnitude_lt_of_units (by decide +kernel)
  have normal := magnitude_mono also large
  have largest := magnitude_mono largest_finite (Nat.le_pred_of_lt finite)
  have first := ten_pow_lt_iff.mp (least.trans (normal.trans_lt above))
  have last := ten_pow_lt_iff.mp (below.trans_lt (largest.trans_lt most))
  omega

namespace Decimal

variable {rank digits : Nat}

/-! ### The nearest decimal -/

/-- Of all multiples of its step the decimal that is half a step away at most is the nearest. -/
theorem nearest_multiple {q : ℚ} {e : Decimal} (close : |q - e.value| ≤ 10 ^ e.exponent / 2) (k : Nat) :
    |q - e.value| ≤ |q - k * 10 ^ e.exponent| := by
  rcases eq_or_ne k e.digits with same | different
  · rw [same, value]
  · have step := ten_pow_pos e.exponent
    have far : 10 ^ e.exponent ≤ |k * (10 : ℚ) ^ e.exponent - e.value| := by
      rw [value, ← sub_mul, abs_mul, abs_of_pos step]
      exact le_mul_of_one_le_left step.le (one_le_abs_sub different)
    have sum := abs_sub_le (k * (10 : ℚ) ^ e.exponent) q e.value
    rw [abs_sub_comm _ q] at sum
    linarith only [close, far, sum]

/-- No decimal of so many digits is nearer to a magnitude than the rounded one. -/
theorem rounded_nearest {e : Decimal} (positive : 0 < rank) (few : e.digits ≤ 10 ^ max digits 1) :
    |magnitude rank - (rounded rank digits).value| ≤ |magnitude rank - e.value| := by
  have close := (rounded_rounds positive digits).close
  rcases le_or_gt (rounded rank digits).exponent e.exponent with coarse | fine
  · rw [value_multiple coarse]
    exact nearest_multiple close _
  · -- all decimals with this exponent lie below the first digit of the magnitude
    obtain ⟨lower, _⟩ := leadingPlace_bounds positive
    obtain ⟨first, _⟩ := leading_digits rank digits
    have one := le_max_right digits 1
    have below : e.value ≤ 10 ^ leadingPlace rank := by
      calc
        e.value ≤ ((10 ^ max digits 1 : Nat) : ℚ) * 10 ^ e.exponent :=
          mul_le_mul_of_nonneg_right (Nat.cast_le.mpr few) (ten_pow_pos _).le
        _ = 10 ^ ((max digits 1 : Nat) + e.exponent) := by
          rw [ten_pow_add, Nat.cast_pow, Nat.cast_ofNat, zpow_natCast]
        _ ≤ 10 ^ leadingPlace rank := by
          rw [rounded_exponent] at fine
          exact ten_pow_le_iff.mpr (by omega)
    have nearest := nearest_multiple close (10 ^ (max digits 1 - 1))
    rw [← first, abs_of_nonneg (sub_nonneg.mpr lower)] at nearest
    rw [abs_of_nonneg (sub_nonneg.mpr (below.trans lower))]
    linarith only [nearest, below]

/-! ### Rounding again -/

/-- A decimal that is no farther from a rank than one that reads as this rank reads as it too, unless it
lies on the other side where the steps are shorter. -/
theorem rank_of_nearer {e f : Decimal} (positive : 0 < e.rank) (finite : e.rank < infinityRank)
    (nearer : |magnitude e.rank - f.value| ≤ |magnitude e.rank - e.value|)
    (next : magnitude e.rank < e.value → f.value < magnitude e.rank → e.rank + 1 < infinityRank) :
    f.rank = e.rank ∨ f.value < magnitude e.rank ∧ magnitude e.rank < e.value ∧ e.rank % 2 ^ 52 = 0 ∧ 2 ^ 53 ≤ e.rank ∧
      magnitude e.rank = 2 ^ 52 * (magnitude (e.rank + 1) - magnitude e.rank) := by
  obtain ⟨before, place⟩ : ∃ before, e.rank = before + 1 := ⟨e.rank - 1, by omega⟩
  have steps := magnitude_steps_le before
  have double := magnitude_steps before
  rw [← place, show before + 2 = e.rank + 1 by omega] at steps double
  rcases le_total e.value (magnitude e.rank) with low | high
  · rw [abs_of_nonneg (sub_nonneg.mpr low)] at nearer
    rcases le_or_gt f.value (magnitude e.rank) with same | other
    · rw [abs_of_nonneg (sub_nonneg.mpr same)] at nearer
      exact .inl (le_antisymm (rank_le finite same) (rank_mono (by linarith only [nearer])))
    · rw [abs_of_neg (sub_neg.mpr other)] at nearer
      obtain ⟨half, even⟩ := half_of_rank_below place (place ▸ finite) (place ▸ low)
      rw [← place] at half even
      exact .inl (rank_of_above finite other.le (by linarith only [nearer, half, steps])
        fun tie => even (by linarith only [nearer, half, steps, tie]))
  · rw [abs_of_nonpos (sub_nonpos.mpr high)] at nearer
    rcases lt_or_ge f.value (magnitude e.rank) with other | same
    · rw [abs_of_pos (sub_pos.mpr other)] at nearer
      have strict : magnitude e.rank < e.value := by linarith only [nearer, other]
      obtain ⟨half, even⟩ := half_of_rank_above rfl (next strict other) high
      rcases double with equal | ⟨_, first, large, start⟩
      · have read := @rank_of_below f before (place ▸ finite) (place ▸ other.le)
        rw [← place] at read
        exact .inl (read (by linarith only [nearer, half, equal]) fun tie => even (by linarith only [nearer, half, equal, tie]))
      · exact .inr ⟨other, strict, first, large, start⟩
    · rw [abs_of_nonpos (sub_nonpos.mpr same)] at nearer
      exact .inl (le_antisymm (rank_mono (by linarith only [nearer])) (le_rank finite same))

/-- Nor can it lie on the other side there, if both were rounded to as many digits. -/
theorem not_across_run_start {r s : Nat} (positive : 0 < s) (less : s < r) (finite : r < infinityRank)
    (read : (rounded r digits).rank = s) (below : (rounded s digits).value < magnitude s)
    (above : magnitude s < (rounded r digits).value)
    (nearer : |magnitude s - (rounded s digits).value| ≤ |magnitude s - (rounded r digits).value|)
    (first : s % 2 ^ 52 = 0) (large : 2 ^ 53 ≤ s) (start : magnitude s = 2 ^ 52 * (magnitude (s + 1) - magnitude s)) : False := by
  have also : 0 < r := positive.trans less
  obtain ⟨lower, upper⟩ := leadingPlace_bounds also
  obtain ⟨lowerBefore, upperBefore⟩ := leadingPlace_bounds positive
  obtain ⟨least, _⟩ := rounded_digits_bounds also digits
  obtain ⟨leading, _⟩ := leading_digits r digits
  obtain ⟨half, _⟩ := half_of_rank_above read (Nat.lt_of_le_of_lt less finite) above.le
  have close := (abs_le.mp (rounded_rounds also digits).close).2
  have grown : magnitude (s + 1) ≤ magnitude r := magnitude_mono finite less
  have before := magnitude_mono finite less.le
  rw [abs_of_pos (sub_pos.mpr below), abs_of_neg (sub_neg.mpr above)] at nearer
  have exponentBefore := rounded_exponent s digits
  have exponent := rounded_exponent r digits
  generalize rounded s digits = f at *
  generalize rounded r digits = e at *
  have step := ten_pow_pos e.exponent
  rcases lt_or_ge (leadingPlace s) (leadingPlace r) with carried | same
  · -- the first digit moved, so the power of ten between them would come close to the run's start
    have under : magnitude s < 10 ^ leadingPlace r := upperBefore.trans_le (ten_pow_le_iff.mpr carried)
    have reached : 10 ^ leadingPlace r ≤ e.value := by
      rw [leading, value]
      exact mul_le_mul_of_nonneg_right (Nat.cast_le.mpr least) step.le
    obtain ⟨tiny, huge⟩ := power_of_ten_range large (less.trans finite) finite under lower
    obtain ⟨binary, power⟩ := magnitude_run_start first large
    rw [power] at under
    have apart := power_of_ten_apart tiny huge under
    rw [← power] at apart
    linarith only [apart, reached, half, start]
  · -- both decimals have the same step, which is that of the ranks, and the rank lies midway between them
    have places : leadingPlace s = leadingPlace r :=
      le_antisymm (Int.lt_add_one_iff.mp (ten_pow_lt_iff.mp (lowerBefore.trans_lt (before.trans_lt upper)))) same
    have exponents : f.exponent = e.exponent := by rw [exponent, exponentBefore, places]
    have spread : (f.digits + 1 : ℚ) ≤ e.digits := by
      have values := below.trans above
      rw [value, value, exponents] at values
      exact_mod_cast Nat.succ_le_of_lt (Nat.cast_lt.mp (lt_of_mul_lt_mul_right values step.le))
    have scaled := mul_le_mul_of_nonneg_right spread step.le
    have valueBefore : f.value = f.digits * 10 ^ e.exponent := by rw [value, exponents]
    have valueHere : e.value = e.digits * 10 ^ e.exponent := rfl
    have unit : magnitude (s + 1) - magnitude s = 10 ^ e.exponent := by
      linarith only [close, grown, half, nearer, scaled, valueBefore, valueHere]
    rw [unit] at start half
    have midway : ((2 * f.digits + 1 : Nat) : ℚ) * 10 ^ e.exponent = (2 ^ 53 : Nat) * 10 ^ e.exponent := by
      push_cast
      linarith only [start, half, nearer, scaled, valueBefore, valueHere]
    have parity : 2 * f.digits + 1 = 2 ^ 53 := Nat.cast_injective (mul_right_cancel₀ step.ne' midway)
    omega

/-- The value to which a rounded magnitude is read is not moved by rounding it again. -/
theorem rank_rounded_again {rank : Nat} (positive : 0 < rank) (finite : rank < infinityRank)
    (some : 0 < (rounded rank digits).rank) (inside : (rounded rank digits).rank < infinityRank) :
    (rounded (rounded rank digits).rank digits).rank = (rounded rank digits).rank := by
  obtain ⟨_, few⟩ := rounded_digits_bounds positive digits
  have nearer := rounded_nearest some few
  have less : magnitude (rounded rank digits).rank < (rounded rank digits).value →
      (rounded (rounded rank digits).rank digits).value < magnitude (rounded rank digits).rank →
      (rounded rank digits).rank < rank := by
    intro above below
    by_contra le
    have values := rounded_mono positive inside (not_lt.mp le) digits
    exact absurd (below.trans above) values.not_gt
  rcases rank_of_nearer some inside nearer fun above below => Nat.lt_of_le_of_lt (less above below) finite with
    same | ⟨below, above, first, large, start⟩
  · exact same
  · exact (not_across_run_start some (less above below) finite rfl below above nearer first large start).elim

/-- A decimal so close to a rank that 54 binary digits tell them apart from all other ranks reads as it. -/
theorem rank_of_tight {d : Decimal} (positive : 0 < rank) (finite : rank < infinityRank)
    (tight : 2 ^ 54 * |magnitude rank - d.value| < magnitude rank) : d.rank = rank := by
  obtain ⟨before, rfl⟩ : ∃ before, rank = before + 1 := ⟨rank - 1, by omega⟩
  have below := magnitude_le_steps before
  have above := magnitude_le_steps (before + 1)
  have steps := magnitude_steps_le before
  rcases le_total d.value (magnitude (before + 1)) with low | high
  · rw [abs_of_nonneg (sub_nonneg.mpr low)] at tight
    exact rank_of_below finite low (by linarith only [tight, below]) fun tie => absurd tie (by linarith only [tight, below])
  · rw [abs_of_nonpos (sub_nonpos.mpr high)] at tight
    exact rank_of_above finite high (by linarith only [tight, below, steps])
      fun tie => absurd tie (by linarith only [tight, below, steps])

/-- Seventeen digits are enough to find every value again. -/
theorem rank_rounded_of_many (positive : 0 < rank) (finite : rank < infinityRank) (many : 17 ≤ digits) :
    (rounded rank digits).rank = rank := by
  obtain ⟨lower, _⟩ := leadingPlace_bounds positive
  obtain ⟨leading, _⟩ := leading_digits rank digits
  have close := (rounded_rounds positive digits).close
  have step := ten_pow_pos (rounded rank digits).exponent
  have enough : (10 ^ 16 : ℚ) ≤ (10 ^ (max digits 1 - 1) : Nat) := by
    have grown : 10 ^ 16 ≤ 10 ^ (max digits 1 - 1) := Nat.pow_le_pow_right (by decide) (by omega)
    exact_mod_cast grown
  have product := mul_le_mul_of_nonneg_right enough step.le
  rw [← leading] at product
  refine rank_of_tight positive finite ?_
  linarith only [close, product, lower, step]

theorem overflowBound_units : rankUnits (infinityRank - 1) + rankUnits (infinityRank - 1 + 1) = 2 * (overflowBound * unitsPerOne) := by
  decide +kernel

theorem overflowBound_rank : (⟨overflowBound, 0⟩ : Decimal).rank = infinityRank := by decide +kernel

/-- A decimal reads as a finite rank below half a step above the largest one. -/
theorem rank_finite_iff {d : Decimal} : d.rank < infinityRank ↔ d.value < overflowBound := by
  refine ⟨fun finite => ?_, fun less => ?_⟩
  · by_contra reached
    have bound : value ⟨overflowBound, 0⟩ ≤ d.value := by
      rw [value, zpow_zero, mul_one]
      exact not_lt.mp reached
    have read := rank_mono bound
    rw [overflowBound_rank] at read
    exact absurd finite read.not_gt
  · rcases le_total d.value (magnitude (infinityRank - 1)) with inside | beyond
    · exact (rank_le largest_finite inside).trans_lt largest_finite
    · have middle : magnitude (infinityRank - 1) + magnitude (infinityRank - 1 + 1) = 2 * overflowBound := by
        rw [magnitude, magnitude, ← add_div, div_eq_iff unitsPerOne_pos.ne', mul_assoc]
        exact_mod_cast overflowBound_units
      have read := rank_of_above largest_finite beyond (by linarith only [middle, less])
        fun tie => absurd tie (by linarith only [middle, less])
      exact read.trans_lt largest_finite

end Decimal

/-! ### Rounding a value -/

variable {x : Float} {digits : Nat}

theorem roundSignificant_self (none : floatRank x = 0 ∨ infinityRank ≤ floatRank x) (digits : Nat) :
    roundSignificant x digits = x :=
  if_pos none

theorem roundSignificant_of_rank (positive : 0 < floatRank x) (finite : floatRank x < infinityRank) (digits : Nat) :
    roundSignificant x digits = floatOfRank (isNegative x) (Decimal.rounded (floatRank x) digits).rank :=
  if_neg (not_or.mpr ⟨positive.ne', finite.not_ge⟩)

theorem rank_pos_iff (finite : x.isFinite = true) : 0 < floatRank x ↔ exactValue x ≠ 0 := by
  have zero : rankUnits 0 = 0 := rfl
  rw [← abs_ne_zero, abs_exactValue finite, magnitude, div_ne_zero_iff, Nat.cast_ne_zero]
  refine ⟨fun positive => ⟨(rankUnits_pos positive).ne', unitsPerOne_pos.ne'⟩, fun nonzero => Nat.pos_of_ne_zero ?_⟩
  rintro none
  rw [none] at nonzero
  exact nonzero.1 zero

theorem isInf_of_rank (infinite : floatRank x = infinityRank) : x.isInf = true := by
  have full := (exponent_full x).mpr infinite.ge
  have none := (mantissa_zero x).mpr (by rw [infinite]; rfl)
  change (Float.Model.UnpackedFloat.unpack .binary64 x.toBits.toBitVec).isInf = true
  unfold Float.Model.UnpackedFloat.unpack
  simp only
  rw [if_pos full, if_pos none]
  rfl

/-- The value `y` is what `x` becomes by rounding it to so many significant digits, at least one, and then
to the nearest value, halves to even in both steps. -/
structure RoundedTo (digits : Nat) (x y : Float) : Prop where
  kept : x.isFinite = false ∨ exactValue x = 0 → y = x
  signed : isNegative y = isNegative x
  rounded : x.isFinite = true → exactValue x ≠ 0 → ∃ d, Decimal.Rounds (max digits 1) |exactValue x| d ∧
    (d.value < overflowBound → NearestTo d.value y) ∧ (overflowBound ≤ d.value → y.isInf = true)

theorem roundSignificant_rounds (x : Float) (digits : Nat) : RoundedTo digits x (roundSignificant x digits) := by
  by_cases plain : 0 < floatRank x ∧ floatRank x < infinityRank
  · obtain ⟨positive, below⟩ := plain
    have finite := isFinite_iff.mpr below
    have bound := Decimal.rank_le_infinity (.rounded (floatRank x) digits)
    have rounds := Decimal.rounded_rounds positive digits
    rw [← abs_exactValue finite] at rounds
    rw [roundSignificant_of_rank positive below]
    refine ⟨?_, isNegative_floatOfRank bound, fun _ _ => ⟨_, rounds, fun less => ?_, fun reached => ?_⟩⟩
    · rintro (infinite | zero)
      · rw [finite] at infinite
        cases infinite
      · exact absurd zero ((rank_pos_iff finite).mp positive)
    · exact Decimal.nearestTo_floatOfRank (Decimal.rank_finite_iff.mpr less) _
    · have infinite := bound.antisymm (not_lt.mp (mt Decimal.rank_finite_iff.mp reached.not_gt))
      exact isInf_of_rank ((floatRank_floatOfRank bound).trans infinite)
  · have same := roundSignificant_self (by omega : floatRank x = 0 ∨ infinityRank ≤ floatRank x) digits
    rw [same]
    refine ⟨fun _ => rfl, rfl, fun finite nonzero => absurd ⟨?_, ?_⟩ plain⟩
    · exact (rank_pos_iff finite).mpr nonzero
    · exact isFinite_iff.mp finite

theorem roundSignificant_again (x : Float) (digits : Nat) :
    roundSignificant (roundSignificant x digits) digits = roundSignificant x digits := by
  by_cases plain : 0 < floatRank x ∧ floatRank x < infinityRank
  · obtain ⟨positive, below⟩ := plain
    have bound := Decimal.rank_le_infinity (.rounded (floatRank x) digits)
    rw [roundSignificant_of_rank positive below]
    have rank := @floatRank_floatOfRank (isNegative x) _ bound
    have sign := @isNegative_floatOfRank (isNegative x) _ bound
    by_cases inner : 0 < (Decimal.rounded (floatRank x) digits).rank ∧ (Decimal.rounded (floatRank x) digits).rank < infinityRank
    · rw [roundSignificant_of_rank (inner.1.trans_eq rank.symm) (rank.trans_lt inner.2), rank, sign,
        Decimal.rank_rounded_again positive below inner.1 inner.2]
    · refine roundSignificant_self ?_ digits
      rw [rank]
      omega
  · have same := roundSignificant_self (by omega : floatRank x = 0 ∨ infinityRank ≤ floatRank x) digits
    rw [same, same]

theorem roundSignificant_of_many (finite : x.isFinite = true) (many : 17 ≤ digits) : roundSignificant x digits = x := by
  have below := isFinite_iff.mp finite
  rcases Nat.eq_zero_or_pos (floatRank x) with zero | positive
  · exact roundSignificant_self (.inl zero) digits
  · rw [roundSignificant_of_rank positive below, Decimal.rank_rounded_of_many positive below many]
    exact floatOfRank_self x

/-- Rounding goes to the nearest decimal and from there to the nearest value, also where this is infinite.
Whatever was rounded once stays where it is, and seventeen digits change no finite value. -/
theorem roundSignificant_idempotent :
    (∀ x digits, RoundedTo digits x (roundSignificant x digits)) ∧
    (∀ x digits, roundSignificant (roundSignificant x digits) digits = roundSignificant x digits) ∧
    ∀ x digits, 17 ≤ digits → x.isFinite = true → roundSignificant x digits = x :=
  ⟨roundSignificant_rounds, roundSignificant_again, fun _ _ many finite => roundSignificant_of_many finite many⟩

/-- The smallest value to one digit and to seventeen, and one that leaves the finite values. -/
theorem roundSignificant_idempotent_at_ends :
    roundSignificant 5e-324 1 = 5e-324 ∧ roundSignificant 5e-324 17 = 5e-324 ∧
    roundSignificant 1.7976931348623157e308 1 = 1 / 0 ∧ roundSignificant (1 / 0) 1 = 1 / 0 := by
  have large : roundSignificant 1.7976931348623157e308 1 = 1 / 0 := by decide +kernel
  have again := roundSignificant_idempotent.2.1 1.7976931348623157e308 1
  rw [large] at again
  exact ⟨by decide +kernel, roundSignificant_idempotent.2.2 _ _ (by decide) (by decide +kernel), large, again⟩

end Calculator
