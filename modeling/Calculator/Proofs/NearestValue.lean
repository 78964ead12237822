import Mathlib
import Calculator.Proofs.DecimalRounding
import Calculator.Proofs.FloatRank

namespace Calculator

open Float.Model Float.Model.UnpackedFloat

/-!
Binary64 values as exact rational numbers. A decimal reads as the value that is nearest to it, and of
two values that are equally near as the one whose bits are even.
-/

def signFactor : Sign → ℚ
  | .positive => 1
  | .negative => -1

def unpackedValue : UnpackedFloat → ℚ
  | .finite sign mantissa exponent _ => signFactor sign * (mantissa * 2 ^ exponent)
  | .zero _ | .infinity _ | .notANumber => 0

/-- The number that a finite value is: its mantissa times a power of two, with its sign. -/
def exactValue (x : Float) : ℚ :=
  unpackedValue x.toModel.unpack

variable {x y : Float}

/-! ### The fields of a value -/

theorem exponent_rank (x : Float) :
    (@unpackExponent .binary64 x.toBits.toBitVec).toNat = floatRank x / 2 ^ 52 :=
  exponent_toNat x.toBits

theorem mantissa_rank (x : Float) :
    (@unpackMantissa .binary64 x.toBits.toBitVec).toNat = floatRank x % 2 ^ 52 :=
  mantissa_toNat x.toBits

theorem exponent_full (x : Float) :
    @unpackExponent .binary64 x.toBits.toBitVec = -1#(Format.binary64.exponentBits) ↔ infinityRank ≤ floatRank x := by
  have bound : floatRank x < 2 ^ 63 := Nat.mod_lt _ (by decide)
  have exponent := exponent_rank x
  have ones : (-1#(Format.binary64.exponentBits)).toNat = 2047 := rfl
  rw [← BitVec.toNat_inj, exponent, ones]
  unfold infinityRank
  omega

theorem exponent_zero (x : Float) :
    @unpackExponent .binary64 x.toBits.toBitVec = 0#(Format.binary64.exponentBits) ↔ floatRank x < 2 ^ 52 := by
  have exponent := exponent_rank x
  have zero : (0#(Format.binary64.exponentBits)).toNat = 0 := rfl
  rw [← BitVec.toNat_inj, exponent, zero]
  omega

theorem mantissa_zero (x : Float) :
    @unpackMantissa .binary64 x.toBits.toBitVec = 0#(Format.binary64.mantissaBitsWithoutImplicit) ↔
      floatRank x % 2 ^ 52 = 0 := by
  rw [← BitVec.toNat_inj, mantissa_rank x]
  rfl

theorem isFinite_iff : x.isFinite = true ↔ floatRank x < infinityRank := by
  rw [← not_le, ← exponent_full]
  change (UnpackedFloat.unpack .binary64 x.toBits.toBitVec).isFinite = true ↔ _
  unfold UnpackedFloat.unpack
  simp only
  split_ifs with full <;> simp only [UnpackedFloat.isFinite, full, not_true, not_false_iff, Bool.false_eq_true]

theorem abs_signFactor (sign : Sign) : |signFactor sign| = 1 := by
  cases sign with
  | positive => exact abs_one
  | negative => exact (abs_neg 1).trans abs_one

theorem abs_unpackedValue {rank mantissa shift places : Nat} {sign : Sign} {exponent : Int}
    {positive : 0 < mantissa}
    (one : unitsPerOne = Nat.pow 2 places) (place : exponent = shift - places)
    (units : rankUnits rank = mantissa * 2 ^ shift) :
    |unpackedValue (.finite sign mantissa exponent positive)| = magnitude rank := by
  have power : (2 : ℚ) ^ exponent = 2 ^ shift / 2 ^ places := by
    rw [place, zpow_sub₀ (by norm_num), zpow_natCast, zpow_natCast]
  rw [unpackedValue, abs_mul, abs_signFactor, one_mul, abs_of_nonneg (by positivity), power, magnitude, units,
    one, Nat.pow_eq]
  push_cast
  exact (mul_div_assoc _ _ _).symm

theorem abs_exactValue (finite : x.isFinite = true) : |exactValue x| = magnitude (floatRank x) := by
  have zero := exponent_zero x
  have rest := mantissa_zero x
  have exponent := exponent_rank x
  have mantissa := mantissa_rank x
  have one : unitsPerOne = Nat.pow 2 1074 := by rw [unitsPerOne]
  have bias : Format.binary64.exponentBias = 1023 := rfl
  have normal : (1#1 ++ @unpackMantissa .binary64 x.toBits.toBitVec).toNat = 2 ^ 52 + floatRank x % 2 ^ 52 := by
    rw [BitVec.toNat_append, ← mantissa, Nat.or_comm]
    exact (Nat.or_two_pow_eq_add_of_lt (BitVec.isLt _)).trans (Nat.add_comm _ _)
  rw [isFinite_iff, ← not_le, ← exponent_full] at finite
  change |unpackedValue (UnpackedFloat.unpack .binary64 x.toBits.toBitVec)| = _
  unfold UnpackedFloat.unpack
  simp only
  split_ifs with infinite none subnormal none
  · exact absurd infinite finite
  · exact absurd infinite finite
  · have small := zero.mp subnormal
    have even := rest.mp none
    have rank : floatRank x = 0 := by omega
    have units : rankUnits 0 = 0 := rfl
    rw [rank, magnitude, units, Nat.cast_zero, zero_div]
    exact abs_zero
  · have small := zero.mp subnormal
    have none := exponent.trans (Nat.div_eq_of_lt small)
    refine @abs_unpackedValue _ _ 0 _ _ _ _ one (by omega) ?_
    rw [mantissa, pow_zero, mul_one, Nat.mod_eq_of_lt small]
    exact if_pos small
  · have large : 2 ^ 52 ≤ floatRank x := not_lt.mp fun small => subnormal (zero.mpr small)
    refine @abs_unpackedValue _ _ (floatRank x / 2 ^ 52 - 1) _ _ _ _ one (by omega) ?_
    rw [normal]
    exact if_neg large.not_gt

/-! ### The nearest rank -/

/-- Where a whole number rounds to another half a divisor away, that one is even. -/
theorem divNearest_tie {n d : Nat} (positive : 0 < d)
    (tie : 2 * (divNearest n d * d) = 2 * n + d ∨ 2 * n = 2 * (divNearest n d * d) + d) :
    divNearest n d % 2 = 0 := by
  have whole : n / d * d + n % d = n := Nat.div_add_mod' n d
  have next : (n / d + 1) * d = n / d * d + d := Nat.succ_mul _ _
  have rest := Nat.mod_lt n positive
  have parity := Nat.mod_two_eq_zero_or_one (n / d)
  unfold divNearest at tie ⊢
  split_ifs at tie ⊢ with small large
  · omega
  · omega
  · omega

theorem divNearest_even {n d : Nat} (positive : 0 < d) (tie : |(divNearest n d : ℚ) - n / d| = 1 / 2) :
    divNearest n d % 2 = 0 := by
  have divisor : (0 : ℚ) < d := Nat.cast_pos.mpr positive
  rw [sub_div' divisor.ne', abs_div, abs_of_pos divisor, div_eq_iff divisor.ne', abs_eq (by positivity)] at tie
  refine divNearest_tie positive ?_
  rcases tie with above | below
  · have same : 2 * ((divNearest n d : ℚ) * d) = 2 * n + d := by linarith only [above]
    exact .inl (by exact_mod_cast same)
  · have same : 2 * (n : ℚ) = 2 * (divNearest n d * d) + d := by linarith only [below]
    exact .inr (by exact_mod_cast same)

theorem one_le_abs_sub {k m : Nat} (different : k ≠ m) : (1 : ℚ) ≤ |(k : ℚ) - m| := by
  have whole : (1 : ℤ) ≤ |(k : ℤ) - m| := Int.one_le_abs (sub_ne_zero.mpr (by exact_mod_cast different))
  exact_mod_cast whole

/-- Only one multiple of a step is half a step away at most, if it is even wherever it is exactly that far away. -/
theorem eq_of_half {q step : ℚ} (positive : 0 < step) {k m : Nat} (first : |q - k * step| ≤ step / 2)
    (second : |q - m * step| ≤ step / 2) (even : |q - k * step| = step / 2 → k % 2 = 0)
    (evenToo : |q - m * step| = step / 2 → m % 2 = 0) : k = m := by
  by_contra different
  -- each would be half a step away, and of two such neighbours only one is even
  have scaled := mul_le_mul_of_nonneg_right (one_le_abs_sub different) positive.le
  have sum := abs_sub_le (k * step) q (m * step)
  rw [← sub_mul, abs_mul, abs_of_pos positive, abs_sub_comm _ q] at sum
  have near : |(k : ℤ) - m| ≤ 1 := by
    have cast : |(k : ℚ) - m| ≤ 1 := le_of_mul_le_mul_right (by linarith only [sum, first, second]) positive
    exact_mod_cast cast
  have parity := even (by linarith only [sum, scaled, first, second])
  have parityToo := evenToo (by linarith only [sum, scaled, first, second])
  have bounds := abs_le.mp near
  omega

theorem rankUnits_lt {r s : Nat} (finite : s < infinityRank) (less : r < s) : rankUnits r < rankUnits s := by
  refine lt_of_le_of_ne (rankUnits_mono finite less.le) fun same => ?_
  have back := nearestRank_rankUnits (less.trans finite)
  rw [same, nearestRank_rankUnits finite] at back
  exact less.ne' back

/-- The nearest rank by its run and its digits, which are half a step away from the fraction at most. -/
theorem nearestRank_digits {n d : Nat} (positive : 0 < d) (finite : nearestRank n d < infinityRank) :
    ∃ shift digits, nearestRank n d = shift * 2 ^ 52 + digits ∧ digits ≤ 2 ^ 53 ∧
      (0 < shift → 2 ^ 52 ≤ digits ∧ (2 : ℚ) ^ 52 * 2 ^ shift ≤ n / d) ∧
      |(n : ℚ) / d - digits * 2 ^ shift| ≤ 2 ^ shift / 2 ∧
      (|(n : ℚ) / d - digits * 2 ^ shift| = 2 ^ shift / 2 → digits % 2 = 0) := by
  obtain ⟨few, many⟩ := divNearest_excess_bounds n positive
  have step : 0 < d * 2 ^ excess n d := Nat.mul_pos positive (Nat.two_pow_pos _)
  have close := divNearest_close n step
  have tie := @divNearest_even n _ step
  have places : nearestRank n d = excess n d * 2 ^ 52 + divNearest n (d * 2 ^ excess n d) := by
    rw [nearestRank_eq] at finite ⊢
    omega
  have inside := (excess_bounds n positive).2
  refine ⟨_, _, places, few, fun some => ⟨many some, ?_⟩, ?_⟩
  · have whole := inside some
    rw [le_div_iff₀ (Nat.cast_pos.mpr positive)]
    have cast : (2 : ℚ) ^ 52 * (d * 2 ^ excess n d) ≤ n := by exact_mod_cast whole
    linarith only [cast]
  · generalize divNearest n (d * 2 ^ excess n d) = digits at close tie ⊢
    generalize excess n d = shift at close tie ⊢
    have power : (0 : ℚ) < 2 ^ shift := by positivity
    have ratio : (n : ℚ) / (d * 2 ^ shift : Nat) = n / d / 2 ^ shift := by
      push_cast
      rw [div_div]
    have scaled : |(n : ℚ) / d - digits * 2 ^ shift| = |(digits : ℚ) - n / d / 2 ^ shift| * 2 ^ shift := by
      rw [← abs_of_pos power, ← abs_mul, abs_of_pos power, sub_mul, div_mul_cancel₀ _ power.ne', abs_sub_comm]
    rw [ratio] at close tie
    rw [scaled, le_div_iff₀ two_pos]
    refine ⟨?_, fun equal => tie ?_⟩
    · have product := mul_le_mul_of_nonneg_right close power.le
      linarith only [product]
    · exact mul_right_cancel₀ power.ne' (equal.trans (by ring))

section Neighbours

variable {shift digits other : Nat}

theorem rankUnits_above (few : digits ≤ 2 ^ 53) (many : 0 < shift → 2 ^ 52 ≤ digits)
    (finite : other < infinityRank)
    (above : shift * 2 ^ 52 + digits < other) : (digits + 1) * 2 ^ shift ≤ rankUnits other := by
  rcases few.lt_or_eq with less | full
  · have next := @rankUnits_of_digits shift (digits + 1) less fun some => (many some).trans (Nat.le_succ _)
    rw [← next]
    exact rankUnits_mono finite above
  · -- the rank starts a run, so the next one is two steps of the run before away
    have next := @rankUnits_of_digits (shift + 1) (2 ^ 52 + 1) (by decide) fun _ => Nat.le_succ _
    have above : (shift + 1) * 2 ^ 52 + (2 ^ 52 + 1) ≤ other := by omega
    have far := rankUnits_mono finite above
    rw [next, Nat.pow_succ] at far
    rw [full]
    have power := Nat.two_pow_pos shift
    omega

theorem rankUnits_below (few : digits ≤ 2 ^ 53) (many : 0 < shift → 2 ^ 52 < digits) (some : 0 < digits)
    (finite : shift * 2 ^ 52 + digits < infinityRank) (below : other < shift * 2 ^ 52 + digits) :
    rankUnits other + 2 ^ shift ≤ digits * 2 ^ shift := by
  have before := @rankUnits_of_digits shift (digits - 1) (by omega) fun some => by
    have enough := many some
    omega
  have near : rankUnits other ≤ rankUnits (shift * 2 ^ 52 + (digits - 1)) :=
    rankUnits_mono (by omega) (by omega)
  have step : (digits - 1) * 2 ^ shift + 2 ^ shift = digits * 2 ^ shift := by
    rw [← Nat.succ_mul, Nat.succ_eq_add_one, Nat.sub_add_cancel some]
  omega

/-- From a fraction within half a step of a rank every other rank is half a step away, unless it lies
below the start of the run, and then it is farther than that start. -/
theorem rankUnits_apart {q : ℚ} (few : digits ≤ 2 ^ 53)
    (many : 0 < shift → 2 ^ 52 ≤ digits ∧ (2 : ℚ) ^ 52 * 2 ^ shift ≤ q)
    (nonneg : 0 ≤ q) (close : |q - digits * 2 ^ shift| ≤ 2 ^ shift / 2)
    (finite : shift * 2 ^ 52 + digits < infinityRank) (also : other < infinityRank)
    (different : other ≠ shift * 2 ^ 52 + digits) :
    2 ^ shift / 2 ≤ |q - rankUnits other| ∨ |q - digits * 2 ^ shift| < |q - rankUnits other| := by
  obtain ⟨lower, upper⟩ := abs_le.mp close
  have power : (0 : ℚ) < 2 ^ shift := by positivity
  rcases Nat.lt_or_gt_of_ne different with below | above
  · rcases lt_or_ge q (digits * 2 ^ shift) with short | reached
    · left
      have some : 0 < digits := by
        rcases Nat.eq_zero_or_pos digits with zero | some
        · rw [zero, Nat.cast_zero, zero_mul] at short
          exact absurd nonneg short.not_ge
        · exact some
      have inner : 0 < shift → 2 ^ 52 < digits := by
        intro run
        obtain ⟨enough, start⟩ := many run
        refine lt_of_le_of_ne enough fun first => ?_
        rw [← first] at short
        push_cast at short
        exact absurd start short.not_ge
      have units := rankUnits_below few inner some finite below
      have cast : (rankUnits other : ℚ) + 2 ^ shift ≤ digits * 2 ^ shift := by exact_mod_cast units
      exact le_trans (by linarith only [cast, lower]) (le_abs_self _)
    · right
      have units := rankUnits_lt finite below
      rw [rankUnits_of_digits few fun run => (many run).1] at units
      have cast : (rankUnits other : ℚ) < digits * 2 ^ shift := by exact_mod_cast units
      rw [abs_of_nonneg (sub_nonneg.mpr reached)]
      exact lt_of_lt_of_le (by linarith only [cast]) (le_abs_self _)
  · left
    have units := rankUnits_above few (fun run => (many run).1) also above
    have cast : ((digits : ℚ) + 1) * 2 ^ shift ≤ rankUnits other := by exact_mod_cast units
    exact le_trans (by linarith only [cast, upper]) (neg_le_abs _)

end Neighbours

/-- No finite rank has a magnitude nearer to a fraction than its nearest rank, and where another one is
as near this one is even. -/
theorem nearestRank_nearest {n d other : Nat} (positive : 0 < d) (finite : nearestRank n d < infinityRank)
    (also : other < infinityRank) (different : other ≠ nearestRank n d) :
    |(n : ℚ) / d - rankUnits (nearestRank n d)| ≤ |(n : ℚ) / d - rankUnits other| ∧
      (|(n : ℚ) / d - rankUnits (nearestRank n d)| = |(n : ℚ) / d - rankUnits other| → nearestRank n d % 2 = 0) := by
  obtain ⟨shift, digits, places, few, many, close, tie⟩ := nearestRank_digits positive finite
  rw [places] at finite different ⊢
  have units : ((rankUnits (shift * 2 ^ 52 + digits) : Nat) : ℚ) = digits * 2 ^ shift := by
    rw [rankUnits_of_digits few fun run => (many run).1]
    push_cast
    rfl
  rw [units]
  rcases rankUnits_apart few many (by positivity) close finite also different with far | farther
  · refine ⟨close.trans far, fun equal => ?_⟩
    have even := tie (le_antisymm close (far.trans_eq equal.symm))
    omega
  · exact ⟨farther.le, fun equal => absurd equal farther.ne⟩

namespace Decimal

/-- A decimal reads as the finite value with the nearest magnitude. -/
theorem rank_nearest {d : Decimal} {other : Nat} (finite : d.rank < infinityRank) (also : other < infinityRank)
    (different : other ≠ d.rank) :
    |d.value - magnitude d.rank| ≤ |d.value - magnitude other| ∧
      (|d.value - magnitude d.rank| = |d.value - magnitude other| → d.rank % 2 = 0) := by
  have fraction := rank_fraction d
  have units := unitsPerOne_pos
  have scaled : ∀ rank, |d.value * unitsPerOne - rankUnits rank| = |d.value - magnitude rank| * unitsPerOne := by
    intro rank
    rw [magnitude, ← abs_of_pos units, ← abs_mul, abs_of_pos units, sub_mul, div_mul_cancel₀ _ units.ne']
  have positive : 0 < Nat.pow 10 (-d.exponent).toNat := Nat.pow_pos (by decide)
  have nearest := nearestRank_nearest positive finite also different
  rw [fraction, ← rank, scaled, scaled] at nearest
  obtain ⟨least, even⟩ := nearest
  exact ⟨le_of_mul_le_mul_right least units, fun equal => even (by rw [equal])⟩

end Decimal

theorem magnitude_le_iff {r s : Nat} (first : r < infinityRank) (second : s < infinityRank) :
    magnitude r ≤ magnitude s ↔ r ≤ s := by
  refine ⟨fun le => ?_, magnitude_mono second⟩
  by_contra greater
  have less := rankUnits_lt first (not_le.mp greater)
  rw [magnitude, magnitude, div_le_div_iff_of_pos_right unitsPerOne_pos, Nat.cast_le] at le
  exact absurd le less.not_ge

/-- Of all finite values `x` has a magnitude nearest to `q`, and an even pattern where another one is as
near. -/
structure NearestTo (q : ℚ) (x : Float) : Prop where
  finite : x.isFinite = true
  least : ∀ y : Float, y.isFinite = true → |q - abs (exactValue x)| ≤ |q - abs (exactValue y)|
  even : ∀ y : Float, y.isFinite = true → |exactValue y| ≠ |exactValue x| →
    |q - abs (exactValue x)| = |q - abs (exactValue y)| → x.toBits.toNat % 2 = 0

theorem Decimal.nearestTo_floatOfRank {d : Decimal} (finite : d.rank < infinityRank) (negative : Bool) :
    NearestTo d.value (floatOfRank negative d.rank) := by
  have rank : floatRank (floatOfRank negative d.rank) = d.rank := floatRank_floatOfRank finite.le
  have inside : (floatOfRank negative d.rank).isFinite = true := isFinite_iff.mpr (rank.trans_lt finite)
  have value := abs_exactValue inside
  rw [rank] at value
  refine ⟨inside, fun y also => ?_, fun y also different equal => ?_⟩
  · rw [value, abs_exactValue also]
    rcases eq_or_ne (floatRank y) d.rank with same | different
    · rw [same]
    · exact (rank_nearest finite (isFinite_iff.mp also) different).1
  · rw [value, abs_exactValue also] at different equal
    have apart : floatRank y ≠ d.rank := fun same => different (congrArg magnitude same)
    have even := (rank_nearest finite (isFinite_iff.mp also) apart).2 equal
    have parity : (floatOfRank negative d.rank).toBits.toNat % 2 ^ 63 = d.rank := rank
    omega

end Calculator
