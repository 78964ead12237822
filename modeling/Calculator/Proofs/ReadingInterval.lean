import Calculator.Proofs.NearestValue

namespace Calculator

/-!
Which decimals read as a rank: those that lie no farther from it than half of the way to its neighbours.
At the ends of this interval the rank has to be even.
-/

/-- The whole number half a divisor away at most is what a fraction rounds to, unless it is odd and exactly
half a divisor away. -/
theorem divNearest_of_half {n d k : Nat} (positive : 0 < d) (close : |(n : ℚ) / d - k| ≤ 1 / 2)
    (even : |(n : ℚ) / d - k| = 1 / 2 → k % 2 = 0) : divNearest n d = k := by
  have found := divNearest_close n positive
  have parity := @divNearest_even n d positive
  have unique := @eq_of_half (n / d) 1 one_pos (divNearest n d) k
  rw [abs_sub_comm] at found parity
  rw [mul_one, mul_one] at unique
  exact unique found close parity even

section Digits

variable {n d shift digits : Nat} (positive : 0 < d) (start : 0 < shift → (2 : ℚ) ^ 52 * 2 ^ shift ≤ n / d)
  (stop : (n : ℚ) / d < 2 ^ 53 * 2 ^ shift)
include positive start stop

theorem excess_eq : excess n d = shift := by
  have divisor : (0 : ℚ) < d := Nat.cast_pos.mpr positive
  have above : n / d < 2 ^ (53 + shift) := by
    rw [div_lt_iff₀ divisor] at stop
    rw [Nat.div_lt_iff_lt_mul positive, Nat.pow_add]
    exact_mod_cast stop
  rcases Nat.eq_zero_or_pos shift with none | some
  · subst none
    unfold excess
    by_cases zero : n / d = 0
    · rw [zero]
      rfl
    · have length := (Nat.log2_lt zero).mpr above
      omega
  · have below : 2 ^ (52 + shift) ≤ n / d := by
      have reached := start some
      rw [le_div_iff₀ divisor] at reached
      rw [Nat.le_div_iff_mul_le positive, Nat.pow_add]
      exact_mod_cast reached
    have nonzero : n / d ≠ 0 := Nat.ne_of_gt (Nat.lt_of_lt_of_le (Nat.two_pow_pos _) below)
    have least := (Nat.le_log2 nonzero).mpr below
    have most := (Nat.log2_lt nonzero).mpr above
    unfold excess
    omega

/-- A fraction within half a step of some digits in their run has these digits, if they are even or it is
nearer than that. -/
theorem nearestRank_of_digits (close : |(n : ℚ) / d - digits * 2 ^ shift| ≤ 2 ^ shift / 2)
    (even : |(n : ℚ) / d - digits * 2 ^ shift| = 2 ^ shift / 2 → digits % 2 = 0) :
    nearestRank n d = min infinityRank (shift * 2 ^ 52 + digits) := by
  have power : (0 : ℚ) < 2 ^ shift := by positivity
  have step : 0 < d * 2 ^ shift := Nat.mul_pos positive (Nat.two_pow_pos shift)
  have scaled : |(n : ℚ) / (d * 2 ^ shift : Nat) - digits| * 2 ^ shift = |(n : ℚ) / d - digits * 2 ^ shift| := by
    rw [← abs_of_pos power, ← abs_mul, abs_of_pos power]
    push_cast
    rw [sub_mul, ← div_div, div_mul_cancel₀ _ power.ne']
  rw [← scaled] at close even
  rw [nearestRank_eq, excess_eq positive start stop]
  refine congrArg (fun kept => min infinityRank (shift * 2 ^ 52 + kept)) (divNearest_of_half step ?_ fun half => even ?_)
  · exact le_of_mul_le_mul_right (close.trans_eq (by ring)) power
  · rw [half]
    ring

end Digits

/-- A rank by its run and its digits, with the rank after it. -/
theorem rank_digits (rank : Nat) : ∃ shift digits, rank = shift * 2 ^ 52 + digits ∧ digits < 2 ^ 53 ∧
    (0 < shift → 2 ^ 52 ≤ digits) ∧ rankUnits rank = digits * 2 ^ shift ∧
    rankUnits (rank + 1) = (digits + 1) * 2 ^ shift := by
  obtain ⟨shift, digits, rfl, few, many⟩ : ∃ shift digits, rank = shift * 2 ^ 52 + digits ∧ digits < 2 ^ 53 ∧
      (0 < shift → 2 ^ 52 ≤ digits) := by
    by_cases small : rank < 2 ^ 53
    · exact ⟨0, rank, by omega, small, by omega⟩
    · exact ⟨rank / 2 ^ 52 - 1, 2 ^ 52 + rank % 2 ^ 52, by omega, by omega, by omega⟩
  refine ⟨shift, digits, rfl, few, many, rankUnits_of_digits few.le many, ?_⟩
  rw [Nat.add_assoc]
  exact rankUnits_of_digits few fun some => (many some).trans (Nat.le_succ _)

theorem magnitude_lt {r s : Nat} (finite : s < infinityRank) (less : r < s) : magnitude r < magnitude s :=
  div_lt_div_of_pos_right (Nat.cast_lt.mpr (rankUnits_lt finite less)) unitsPerOne_pos

theorem magnitude_units (rank : Nat) : magnitude rank * unitsPerOne = rankUnits rank :=
  div_mul_cancel₀ _ unitsPerOne_pos.ne'

/-- The steps between ranks grow with them, and where they grow they double at the start of a run. -/
theorem rankUnits_steps (rank : Nat) : ∃ step, rankUnits (rank + 1) = rankUnits rank + step ∧
    (rankUnits (rank + 2) = rankUnits (rank + 1) + step ∨
      rankUnits (rank + 2) = rankUnits (rank + 1) + 2 * step ∧ (rank + 1) % 2 ^ 52 = 0 ∧ 2 ^ 53 ≤ rank + 1 ∧
        rankUnits (rank + 1) = 2 ^ 52 * (2 * step)) := by
  obtain ⟨shift, digits, rfl, few, many, here, next⟩ := rank_digits rank
  refine ⟨2 ^ shift, by rw [here, next, Nat.succ_mul], ?_⟩
  have later : 0 < shift → 2 ^ 52 ≤ digits + 2 := fun some => (many some).trans (Nat.le_add_right _ 2)
  rcases (Nat.succ_le_of_lt few).lt_or_eq with inside | last
  · left
    rw [Nat.add_assoc, rankUnits_of_digits inside later, next]
    exact Nat.succ_mul (digits + 1) (2 ^ shift)
  · right
    have double : 2 ^ (shift + 1) = 2 * 2 ^ shift := Nat.pow_succ'
    have full : digits + 1 = 2 ^ 53 := last
    have place : shift * 2 ^ 52 + digits + 2 = (shift + 1) * 2 ^ 52 + (2 ^ 52 + 1) := by omega
    have above := @rankUnits_of_digits (shift + 1) (2 ^ 52 + 1) (by decide) fun _ => Nat.le_succ _
    rw [place, above, next, double, full]
    refine ⟨?_, by omega, by omega, ?_⟩
    · rw [Nat.succ_mul]
      omega
    · omega

/-- In magnitudes: a step as long as the one before it, or twice as long. -/
theorem magnitude_steps (rank : Nat) :
    magnitude (rank + 2) - magnitude (rank + 1) = magnitude (rank + 1) - magnitude rank ∨
      magnitude (rank + 2) - magnitude (rank + 1) = 2 * (magnitude (rank + 1) - magnitude rank) ∧
        (rank + 1) % 2 ^ 52 = 0 ∧ 2 ^ 53 ≤ rank + 1 ∧
        magnitude (rank + 1) = 2 ^ 52 * (magnitude (rank + 2) - magnitude (rank + 1)) := by
  obtain ⟨step, next, after⟩ := rankUnits_steps rank
  simp only [magnitude, ← sub_div]
  rw [← mul_div_assoc, ← mul_div_assoc, div_left_inj' unitsPerOne_pos.ne', div_left_inj' unitsPerOne_pos.ne',
    div_left_inj' unitsPerOne_pos.ne']
  rcases after with same | ⟨double, first, large, start⟩
  · left
    rw [same, next]
    push_cast
    ring
  · refine .inr ⟨?_, first, large, ?_⟩
    · rw [double, next]
      push_cast
      ring
    · rw [double, start]
      push_cast
      ring

theorem magnitude_steps_le (rank : Nat) :
    magnitude (rank + 1) - magnitude rank ≤ magnitude (rank + 2) - magnitude (rank + 1) := by
  have apart : 0 ≤ magnitude (rank + 1) - magnitude rank := by
    obtain ⟨step, next, _⟩ := rankUnits_steps rank
    rw [magnitude, magnitude, ← sub_div, next, Nat.cast_add, add_sub_cancel_left]
    exact div_nonneg step.cast_nonneg unitsPerOne_pos.le
  rcases magnitude_steps rank with same | ⟨double, _⟩
  · exact same.ge
  · linarith only [double, apart]

/-- A step is not short against the magnitudes beside it. -/
theorem magnitude_le_steps (rank : Nat) : magnitude (rank + 1) ≤ 2 ^ 53 * (magnitude (rank + 1) - magnitude rank) := by
  obtain ⟨shift, digits, _, few, _, here, next⟩ := rank_digits rank
  have whole : rankUnits (rank + 1) + 2 ^ 53 * rankUnits rank ≤ 2 ^ 53 * rankUnits (rank + 1) := by
    rw [here, next]
    calc
      (digits + 1) * 2 ^ shift + 2 ^ 53 * (digits * 2 ^ shift)
          ≤ 2 ^ 53 * 2 ^ shift + 2 ^ 53 * (digits * 2 ^ shift) := by gcongr; exact few
      _ = 2 ^ 53 * ((digits + 1) * 2 ^ shift) := by ring
  have cast : (rankUnits (rank + 1) : ℚ) + 2 ^ 53 * rankUnits rank ≤ 2 ^ 53 * rankUnits (rank + 1) := by
    exact_mod_cast whole
  rw [magnitude, magnitude, ← sub_div, ← mul_div_assoc, div_le_div_iff_of_pos_right unitsPerOne_pos]
  linarith only [cast]

namespace Decimal

variable {d : Decimal} {rank : Nat}

theorem rank_of_digits {shift digits : Nat} (start : 0 < shift → (2 : ℚ) ^ 52 * 2 ^ shift ≤ d.value * unitsPerOne)
    (stop : d.value * unitsPerOne < 2 ^ 53 * 2 ^ shift)
    (close : |d.value * unitsPerOne - digits * 2 ^ shift| ≤ 2 ^ shift / 2)
    (even : |d.value * unitsPerOne - digits * 2 ^ shift| = 2 ^ shift / 2 → digits % 2 = 0) :
    d.rank = min infinityRank (shift * 2 ^ 52 + digits) := by
  have positive : 0 < Nat.pow 10 (-d.exponent).toNat := Nat.pow_pos (by decide)
  rw [← rank_fraction] at start stop close even
  exact nearestRank_of_digits positive start stop close even

/-- A decimal above a rank reads as this rank up to half of the way to the next one. -/
theorem rank_of_above (finite : rank < infinityRank) (above : magnitude rank ≤ d.value)
    (half : 2 * (d.value - magnitude rank) ≤ magnitude (rank + 1) - magnitude rank)
    (even : 2 * (d.value - magnitude rank) = magnitude (rank + 1) - magnitude rank → rank % 2 = 0) :
    d.rank = rank := by
  obtain ⟨shift, digits, place, few, many, here, next⟩ := rank_digits rank
  have units := unitsPerOne_pos
  have power : (0 : ℚ) < 2 ^ shift := by positivity
  have lower := mul_le_mul_of_nonneg_right above units.le
  have upper := mul_le_mul_of_nonneg_right half units.le
  have magnitudeHere := magnitude_units rank
  have magnitudeNext := magnitude_units (rank + 1)
  rw [here] at magnitudeHere
  rw [next] at magnitudeNext
  push_cast at magnitudeHere magnitudeNext
  have bound : (digits : ℚ) + 1 ≤ 2 ^ 53 := by exact_mod_cast few
  have far := mul_le_mul_of_nonneg_right bound power.le
  have nonneg : 0 ≤ d.value * unitsPerOne - digits * 2 ^ shift := by linarith only [lower, magnitudeHere]
  have read := @rank_of_digits d shift digits (fun some => ?_) ?_ ?_ fun tie => ?_
  · rw [read, ← place]
    exact Nat.min_eq_right finite.le
  · have enough : (2 : ℚ) ^ 52 ≤ digits := by exact_mod_cast many some
    have start := mul_le_mul_of_nonneg_right enough power.le
    linarith only [start, nonneg]
  · linarith only [upper, magnitudeHere, magnitudeNext, far, power]
  · rw [abs_of_nonneg nonneg]
    linarith only [upper, magnitudeHere, magnitudeNext]
  · rw [abs_of_nonneg nonneg] at tie
    have parity := even (mul_right_cancel₀ units.ne' (by linarith only [tie, magnitudeHere, magnitudeNext]))
    omega

/-- A decimal below a rank reads as this rank down to half of the way to the one before. -/
theorem rank_of_below (finite : rank + 1 < infinityRank) (below : d.value ≤ magnitude (rank + 1))
    (half : 2 * (magnitude (rank + 1) - d.value) ≤ magnitude (rank + 1) - magnitude rank)
    (even : 2 * (magnitude (rank + 1) - d.value) = magnitude (rank + 1) - magnitude rank → (rank + 1) % 2 = 0) :
    d.rank = rank + 1 := by
  rcases below.lt_or_eq with short | exact
  · -- the digits one more than those of the rank before, which may end its run
    obtain ⟨shift, digits, place, few, many, here, next⟩ := rank_digits rank
    have units := unitsPerOne_pos
    have power : (0 : ℚ) < 2 ^ shift := by positivity
    have lower := mul_le_mul_of_nonneg_right half units.le
    have upper := mul_lt_mul_of_pos_right short units
    have magnitudeHere := magnitude_units rank
    have magnitudeNext := magnitude_units (rank + 1)
    rw [here] at magnitudeHere
    rw [next] at magnitudeNext
    push_cast at magnitudeHere magnitudeNext
    have bound : (digits : ℚ) + 1 ≤ 2 ^ 53 := by exact_mod_cast few
    have far := mul_le_mul_of_nonneg_right bound power.le
    have nonpos : d.value * unitsPerOne - (digits + 1 : Nat) * 2 ^ shift ≤ 0 := by
      push_cast
      linarith only [upper, magnitudeNext]
    have read := @rank_of_digits d shift (digits + 1) (fun some => ?_) ?_ ?_ fun tie => ?_
    · rw [read, ← Nat.add_assoc, ← place]
      exact Nat.min_eq_right finite.le
    · have enough : (2 : ℚ) ^ 52 ≤ digits := by exact_mod_cast many some
      have start := mul_le_mul_of_nonneg_right enough power.le
      linarith only [start, lower, magnitudeHere, magnitudeNext, power]
    · linarith only [upper, magnitudeNext, far]
    · rw [abs_of_nonpos nonpos]
      push_cast
      linarith only [lower, magnitudeHere, magnitudeNext]
    · rw [abs_of_nonpos nonpos] at tie
      push_cast at tie
      have parity := even (mul_right_cancel₀ units.ne' (by linarith only [tie, magnitudeHere, magnitudeNext]))
      omega
  · exact rank_eq finite exact

/-- Conversely a decimal that reads as a rank is no farther from it than from its neighbours. -/
theorem half_of_rank_above (read : d.rank = rank) (finite : rank + 1 < infinityRank) (above : magnitude rank ≤ d.value) :
    2 * (d.value - magnitude rank) ≤ magnitude (rank + 1) - magnitude rank ∧
      (2 * (d.value - magnitude rank) = magnitude (rank + 1) - magnitude rank → rank % 2 = 0) := by
  subst read
  obtain ⟨least, even⟩ := rank_nearest (Nat.lt_of_succ_lt finite) finite (Nat.succ_ne_self d.rank)
  have apart := magnitude_lt finite (Nat.lt_succ_self d.rank)
  rw [abs_of_nonneg (sub_nonneg.mpr above)] at least even
  rcases le_total d.value (magnitude (d.rank + 1)) with inside | beyond
  · rw [abs_of_nonpos (sub_nonpos.mpr inside)] at least even
    exact ⟨by linarith only [least], fun tie => even (by linarith only [tie])⟩
  · rw [abs_of_nonneg (sub_nonneg.mpr beyond)] at least even
    exact absurd least (by linarith only [apart])

theorem half_of_rank_below (read : d.rank = rank + 1) (finite : rank + 1 < infinityRank)
    (below : d.value ≤ magnitude (rank + 1)) :
    2 * (magnitude (rank + 1) - d.value) ≤ magnitude (rank + 1) - magnitude rank ∧
      (2 * (magnitude (rank + 1) - d.value) = magnitude (rank + 1) - magnitude rank → (rank + 1) % 2 = 0) := by
  have different : rank ≠ d.rank := read ▸ Nat.ne_of_lt (Nat.lt_succ_self rank)
  obtain ⟨least, even⟩ := rank_nearest (read ▸ finite) (Nat.lt_of_succ_lt finite) different
  rw [read] at least even
  have apart := magnitude_lt finite (Nat.lt_succ_self rank)
  rw [abs_of_nonpos (sub_nonpos.mpr below)] at least even
  rcases le_total d.value (magnitude rank) with beyond | inside
  · rw [abs_of_nonpos (sub_nonpos.mpr beyond)] at least even
    exact absurd least (by linarith only [apart])
  · rw [abs_of_nonneg (sub_nonneg.mpr inside)] at least even
    exact ⟨by linarith only [least], fun tie => even (by linarith only [tie])⟩

end Decimal

end Calculator
