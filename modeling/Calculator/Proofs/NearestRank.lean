import Mathlib.Algebra.Order.Group.Nat
import Mathlib.Tactic.SplitIfs
import Calculator.Number.Binary64

namespace Calculator

/-- The rounded quotient is at most half a divisor away. -/
theorem divNearest_bounds (n : Nat) {d : Nat} (positive : 0 < d) :
    2 * (divNearest n d * d) ≤ 2 * n + d ∧ 2 * n ≤ 2 * (divNearest n d * d) + d := by
  have whole : n / d * d + n % d = n := Nat.div_add_mod' n d
  have rest := Nat.mod_lt n positive
  have parity := Nat.mod_two_eq_zero_or_one (n / d)
  have next : (n / d + 1) * d = n / d * d + d := Nat.succ_mul _ _
  unfold divNearest
  split
  · omega
  · split
    · omega
    · rcases parity with even | odd
      · rw [even, Nat.add_zero]
        omega
      · rw [odd, next]
        omega

theorem divNearest_near (n d : Nat) : n / d ≤ divNearest n d ∧ divNearest n d ≤ n / d + 1 := by
  have parity := Nat.mod_two_eq_zero_or_one (n / d)
  unfold divNearest
  split
  · omega
  · split
    · omega
    · omega

/-- Only one whole number is nearer than half a divisor. -/
theorem divNearest_eq_of_close {n d k : Nat} (below : 2 * (k * d) < 2 * n + d) (above : 2 * n < 2 * (k * d) + d) :
    divNearest n d = k := by
  have positive : 0 < d := by omega
  obtain ⟨lower, upper⟩ := divNearest_bounds n positive
  have atMost : divNearest n d * d < (k + 1) * d := by
    rw [Nat.succ_mul]
    omega
  have atLeast : k * d < (divNearest n d + 1) * d := by
    rw [Nat.succ_mul]
    omega
  have notAbove := Nat.lt_of_mul_lt_mul_right atMost
  have notBelow := Nat.lt_of_mul_lt_mul_right atLeast
  omega

theorem divNearest_mul (k : Nat) {d : Nat} (positive : 0 < d) : divNearest (k * d) d = k :=
  divNearest_eq_of_close (by omega) (by omega)

theorem divNearest_mono {n m : Nat} (d : Nat) (le : n ≤ m) : divNearest n d ≤ divNearest m d := by
  have quotients : n / d ≤ m / d := Nat.div_le_div_right le
  rcases Nat.lt_or_eq_of_le quotients with less | same
  · have first := divNearest_near n d
    have second := divNearest_near m d
    omega
  · have whole := Nat.div_add_mod' n d
    have other := Nat.div_add_mod' m d
    have rests : n % d ≤ m % d := by
      rw [← same] at other
      omega
    have parity := Nat.mod_two_eq_zero_or_one (m / d)
    unfold divNearest
    rw [same]
    split_ifs <;> omega

theorem divNearest_scale (n d : Nat) {k : Nat} (positive : 0 < k) : divNearest (n * k) (d * k) = divNearest n d := by
  have scaled : 2 * (n * k % (d * k)) = 2 * (n % d) * k := by
    rw [Nat.mul_mod_mul_right, Nat.mul_assoc]
  simp only [divNearest, scaled, Nat.mul_div_mul_right _ _ positive, Nat.mul_lt_mul_right positive]

/-- By how many binary places a magnitude of `n / d` units exceeds 53 of them. -/
def excess (n d : Nat) : Nat :=
  Nat.log2 (n / d) - 52

theorem nearestRank_eq (n d : Nat) :
    nearestRank n d = min infinityRank (excess n d * 2 ^ 52 + divNearest n (d * 2 ^ excess n d)) :=
  rfl

/-- What is left after the excess has 53 places, or fewer where nothing was in excess. -/
theorem excess_bounds (n : Nat) {d : Nat} (positive : 0 < d) :
    n < 2 ^ 53 * (d * 2 ^ excess n d) ∧ (0 < excess n d → 2 ^ 52 * (d * 2 ^ excess n d) ≤ n) := by
  have quotient : n < (n / d + 1) * d := by
    rw [Nat.succ_mul]
    exact Nat.lt_div_mul_add positive
  have above : n / d < 2 ^ 53 * 2 ^ excess n d := by
    calc
      n / d < 2 ^ ((n / d).log2 + 1) := Nat.lt_log2_self
      _ ≤ 2 ^ (53 + excess n d) := Nat.pow_le_pow_right (by decide) (by unfold excess; omega)
      _ = 2 ^ 53 * 2 ^ excess n d := Nat.pow_add ..
  refine ⟨?_, fun some => ?_⟩
  · calc
      n < (n / d + 1) * d := quotient
      _ ≤ 2 ^ 53 * 2 ^ excess n d * d := Nat.mul_le_mul_right d above
      _ = 2 ^ 53 * (d * 2 ^ excess n d) := by rw [Nat.mul_assoc, Nat.mul_comm d]
  · have nonzero : n / d ≠ 0 := by
      intro zero
      rw [excess, zero] at some
      exact absurd some (by decide)
    have exponent : 52 + excess n d = (n / d).log2 := by
      unfold excess at some ⊢
      omega
    calc
      2 ^ 52 * (d * 2 ^ excess n d) = 2 ^ (52 + excess n d) * d := by rw [Nat.pow_add, Nat.mul_assoc, Nat.mul_comm d]
      _ ≤ n / d * d := Nat.mul_le_mul_right d (exponent ▸ Nat.log2_self_le nonzero)
      _ ≤ n := Nat.div_mul_le_self n d

/-- The digits that a rank keeps of a magnitude. -/
theorem divNearest_excess_bounds (n : Nat) {d : Nat} (positive : 0 < d) :
    divNearest n (d * 2 ^ excess n d) ≤ 2 ^ 53 ∧
      (0 < excess n d → 2 ^ 52 ≤ divNearest n (d * 2 ^ excess n d)) := by
  have step : 0 < d * 2 ^ excess n d := Nat.mul_pos positive (Nat.two_pow_pos _)
  obtain ⟨above, below⟩ := excess_bounds n positive
  refine ⟨?_, fun some => ?_⟩
  · have mono := divNearest_mono (d * 2 ^ excess n d) (Nat.le_of_lt above)
    rwa [divNearest_mul _ step] at mono
  · have mono := divNearest_mono (d * 2 ^ excess n d) (below some)
    rwa [divNearest_mul _ step] at mono

/-- Ranks count the digits that are kept, and a whole run of them for each place of excess. -/
theorem rankUnits_of_digits {shift digits : Nat} (few : digits ≤ 2 ^ 53) (many : 0 < shift → 2 ^ 52 ≤ digits) :
    rankUnits (shift * 2 ^ 52 + digits) = digits * 2 ^ shift := by
  unfold rankUnits
  simp only [Nat.pow_eq]
  by_cases small : digits < 2 ^ 52
  · have none : shift = 0 := by
      by_contra some
      have enough := many (Nat.pos_of_ne_zero some)
      omega
    subst none
    rw [if_pos (by omega)]
    omega
  · rw [if_neg (by omega)]
    rcases Nat.lt_or_eq_of_le few with less | full
    · have run : (shift * 2 ^ 52 + digits) / 2 ^ 52 = shift + 1 := by omega
      have rest : 2 ^ 52 + (shift * 2 ^ 52 + digits) % 2 ^ 52 = digits := by omega
      rw [run, rest, Nat.add_sub_cancel]
    · subst full
      have run : (shift * 2 ^ 52 + 2 ^ 53) / 2 ^ 52 = shift + 2 := by omega
      have rest : 2 ^ 52 + (shift * 2 ^ 52 + 2 ^ 53) % 2 ^ 52 = 2 ^ 52 := by omega
      have double : 2 ^ (shift + 2 - 1) = 2 * 2 ^ shift := by
        rw [show shift + 2 - 1 = shift + 1 from rfl, Nat.pow_succ, Nat.mul_comm]
      rw [run, rest, double]
      omega

/-- The magnitude of the nearest rank, unless that is infinity. -/
theorem rankUnits_nearestRank {n d : Nat} (positive : 0 < d) (finite : nearestRank n d < infinityRank) :
    rankUnits (nearestRank n d) = divNearest n (d * 2 ^ excess n d) * 2 ^ excess n d := by
  obtain ⟨few, many⟩ := divNearest_excess_bounds n positive
  have same : nearestRank n d = excess n d * 2 ^ 52 + divNearest n (d * 2 ^ excess n d) := by
    rw [nearestRank_eq] at finite ⊢
    omega
  rw [same, rankUnits_of_digits few many]

theorem excess_mono {n m : Nat} (d : Nat) (le : n ≤ m) : excess n d ≤ excess m d := by
  have quotients : n / d ≤ m / d := Nat.div_le_div_right le
  by_cases zero : n / d = 0
  · rw [excess, zero]
    exact Nat.zero_le _
  · have nonzero : m / d ≠ 0 := Nat.ne_of_gt (Nat.lt_of_lt_of_le (Nat.pos_of_ne_zero zero) quotients)
    have logs : (n / d).log2 ≤ (m / d).log2 :=
      (Nat.le_log2 nonzero).mpr (Nat.le_trans (Nat.log2_self_le zero) quotients)
    unfold excess
    omega

theorem nearestRank_mono {n m d : Nat} (positive : 0 < d) (le : n ≤ m) : nearestRank n d ≤ nearestRank m d := by
  obtain ⟨few, _⟩ := divNearest_excess_bounds n positive
  obtain ⟨_, many⟩ := divNearest_excess_bounds m positive
  have shifts := excess_mono d le
  rw [nearestRank_eq, nearestRank_eq]
  refine min_le_min_left _ ?_
  rcases Nat.lt_or_eq_of_le shifts with less | same
  · have enough := many (by omega)
    omega
  · rw [same]
    exact Nat.add_le_add_left (divNearest_mono _ le) _

theorem nearestRank_scale (n d : Nat) {k : Nat} (positive : 0 < k) :
    nearestRank (n * k) (d * k) = nearestRank n d := by
  have same : excess (n * k) (d * k) = excess n d := by
    rw [excess, Nat.mul_div_mul_right _ _ positive, excess]
  rw [nearestRank_eq, nearestRank_eq, same, Nat.mul_right_comm, divNearest_scale _ _ positive]

/-- The nearest rank does not depend on how a fraction is written, and it grows with the fraction. -/
theorem nearestRank_le_of_le {n d m e : Nat} (first : 0 < d) (second : 0 < e) (le : n * e ≤ m * d) :
    nearestRank n d ≤ nearestRank m e := by
  rw [← nearestRank_scale n d second, ← nearestRank_scale m e first, Nat.mul_comm e d]
  exact nearestRank_mono (Nat.mul_pos first second) le

/-- The magnitude of a rank reads back as the rank. -/
theorem nearestRank_rankUnits {rank : Nat} (finite : rank < infinityRank) : nearestRank (rankUnits rank) 1 = rank := by
  rw [nearestRank_eq]
  by_cases small : rank < 2 ^ 52
  · have units : rankUnits rank = rank := by
      unfold rankUnits
      exact if_pos small
    have none : excess rank 1 = 0 := by
      have places : rank.log2 ≤ 52 := by
        by_cases zero : rank = 0
        · rw [zero]
          decide
        · exact Nat.le_of_lt ((Nat.log2_lt zero).mpr small)
      rw [excess, Nat.div_one]
      omega
    have whole := divNearest_mul rank Nat.one_pos
    rw [Nat.mul_one] at whole
    rw [units, none, Nat.pow_zero, Nat.one_mul, whole]
    omega
  · obtain ⟨run, digits, rfl, few, many⟩ : ∃ run digits, rank = run * 2 ^ 52 + digits ∧ digits < 2 ^ 53 ∧ 2 ^ 52 ≤ digits :=
      ⟨rank / 2 ^ 52 - 1, 2 ^ 52 + rank % 2 ^ 52, by omega, by omega, by omega⟩
    have units := @rankUnits_of_digits run digits (Nat.le_of_lt few) fun _ => many
    have places : excess (digits * 2 ^ run) 1 = run := by
      have nonzero : digits * 2 ^ run ≠ 0 := by
        have positive := Nat.two_pow_pos run
        exact Nat.mul_ne_zero (by omega) (by omega)
      have length : (digits * 2 ^ run).log2 = 52 + run := by
        rw [Nat.log2_eq_iff nonzero, Nat.add_right_comm, Nat.pow_add, Nat.pow_add]
        exact ⟨Nat.mul_le_mul_right _ many, Nat.mul_lt_mul_of_pos_right few (Nat.two_pow_pos run)⟩
      rw [excess, Nat.div_one, length]
      omega
    rw [units, places, Nat.one_mul, divNearest_mul _ (Nat.two_pow_pos run)]
    omega

end Calculator
