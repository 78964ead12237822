import Calculator.Proofs.NearestValue

namespace Calculator

open Float.Model Float.Model.UnpackedFloat

/-!
Comparing two values compares two whole numbers: their ranks, each with the sign of its value. Both zeros
are at zero, and what is no number is not compared with anything.
-/

/-- A rank with a sign. -/
def signed (negative : Bool) (rank : Nat) : Int :=
  if negative then -rank else rank

/-- The place of a value among all values. -/
def signedRank (x : Float) : Int :=
  signed (isNegative x) (floatRank x)

def signOf (negative : Bool) : Sign :=
  if negative then .negative else .positive

/-- What the bits of a sign and a rank are unpacked to. The exponent counts the runs of ranks, and the
mantissa the ranks from the start of a run on. -/
inductive Unpacks (negative : Bool) : Nat → UnpackedFloat → Prop
  | zero : Unpacks negative 0 (.zero (signOf negative))
  | finite {rank run mantissa : Nat} {exponent positive} : rank = run * 2 ^ 52 + mantissa → mantissa < 2 ^ 53 →
      (0 < run → 2 ^ 52 ≤ mantissa) → rank < infinityRank → exponent = (run : Int) - 1074 →
      Unpacks negative rank (.finite (signOf negative) mantissa exponent positive)
  | infinity : Unpacks negative infinityRank (.infinity (signOf negative))

variable {x y : Float}

theorem sign_isNegative (x : Float) :
    Sign.ofBitVec (@unpackSign .binary64 x.toBits.toBitVec) = signOf (isNegative x) := by
  have bit := sign_toNat x.toBits
  have bound := x.toBits.toNat_lt
  cases negative : isNegative x with
  | true =>
    have large : 2 ^ 63 ≤ x.toBits.toNat := of_decide_eq_true negative
    have one : x.toBits.toNat / 2 ^ 63 = 1 := by omega
    have set : @unpackSign .binary64 x.toBits.toBitVec = 1#1 := BitVec.eq_of_toNat_eq (bit.trans one)
    rw [set]
    rfl
  | false =>
    have small : ¬2 ^ 63 ≤ x.toBits.toNat := of_decide_eq_false negative
    have zero : x.toBits.toNat / 2 ^ 63 = 0 := by omega
    have unset : @unpackSign .binary64 x.toBits.toBitVec = 0#1 := BitVec.eq_of_toNat_eq (bit.trans zero)
    rw [unset]
    rfl

/-- Every number is unpacked into the fields of its rank. -/
theorem unpacks (number : floatRank x ≤ infinityRank) : Unpacks (isNegative x) (floatRank x) x.toModel.unpack := by
  have full := exponent_full x
  have zero := exponent_zero x
  have rest := mantissa_zero x
  have exponent := exponent_rank x
  have mantissa := mantissa_rank x
  have normal : (1#1 ++ @unpackMantissa .binary64 x.toBits.toBitVec).toNat = 2 ^ 52 + floatRank x % 2 ^ 52 := by
    rw [BitVec.toNat_append, ← mantissa, Nat.or_comm]
    exact (Nat.or_two_pow_eq_add_of_lt (BitVec.isLt _)).trans (Nat.add_comm _ _)
  have bias : Format.binary64.exponentBias = 1023 := rfl
  change Unpacks _ _ (UnpackedFloat.unpack .binary64 x.toBits.toBitVec)
  unfold UnpackedFloat.unpack
  simp only [sign_isNegative]
  split_ifs with infinite none subnormal none
  · have rank : floatRank x = infinityRank := number.antisymm (full.mp infinite)
    rw [rank]
    exact .infinity
  · have rank : floatRank x = infinityRank := number.antisymm (full.mp infinite)
    rw [rank] at rest
    exact absurd (rest.mpr (by decide)) none
  · have small := zero.mp subnormal
    have even := rest.mp none
    have rank : floatRank x = 0 := by omega
    rw [rank]
    exact .zero
  · have small := zero.mp subnormal
    have none := exponent.trans (Nat.div_eq_of_lt small)
    have units : floatRank x = 0 * 2 ^ 52 + (@unpackMantissa .binary64 x.toBits.toBitVec).toNat := by omega
    refine .finite units ?_ ?_ ?_ ?_
    · omega
    · omega
    · unfold infinityRank
      omega
    · rw [none]
      rfl
  · have large : 2 ^ 52 ≤ floatRank x := not_lt.mp fun small => subnormal (zero.mpr small)
    have finite : floatRank x < infinityRank := not_le.mp fun reached => infinite (full.mpr reached)
    have units : floatRank x =
        (floatRank x / 2 ^ 52 - 1) * 2 ^ 52 + (1#1 ++ @unpackMantissa .binary64 x.toBits.toBitVec).toNat := by omega
    refine .finite units ?_ ?_ finite ?_
    · omega
    · omega
    · rw [exponent, bias]
      change (_ : Int) - (1023 + 52) = _
      omega

variable {r s : Nat} {a b : UnpackedFloat}

/-- Fields compare as the ranks do that are made of them. -/
theorem compare_fields {run mantissa other another : Nat} (units : r = run * 2 ^ 52 + mantissa)
    (unitsToo : s = other * 2 ^ 52 + another) (few : mantissa < 2 ^ 53) (fewToo : another < 2 ^ 53)
    (many : 0 < run → 2 ^ 52 ≤ mantissa) (manyToo : 0 < other → 2 ^ 52 ≤ another) :
    (compare ((run : Int) - 1074) ((other : Int) - 1074)).then (compare mantissa another) = compare (r : Int) s := by
  rcases Nat.lt_trichotomy run other with less | rfl | greater
  · have before : (run : Int) - 1074 < (other : Int) - 1074 := by omega
    have below : (r : Int) < s := by omega
    rw [compare_lt_iff_lt.mpr before, compare_lt_iff_lt.mpr below]
    rfl
  · have runs : compare ((run : Int) - 1074) ((run : Int) - 1074) = .eq := compare_eq_iff_eq.mpr rfl
    rw [runs]
    change compare mantissa another = _
    rcases Nat.lt_trichotomy mantissa another with less | same | greater
    · have below : (r : Int) < s := by omega
      rw [compare_lt_iff_lt.mpr less, compare_lt_iff_lt.mpr below]
    · have equal : (r : Int) = s := by omega
      rw [compare_eq_iff_eq.mpr same, compare_eq_iff_eq.mpr equal]
    · have above : (s : Int) < r := by omega
      rw [compare_gt_iff_gt.mpr greater, compare_gt_iff_gt.mpr above]
  · have after : (other : Int) - 1074 < (run : Int) - 1074 := by omega
    have above : (s : Int) < r := by omega
    rw [compare_gt_iff_gt.mpr after, compare_gt_iff_gt.mpr above]
    rfl

theorem Unpacks.neg {negative : Bool} (fields : Unpacks negative r a) : Unpacks (!negative) r a.neg := by
  have opposite : -signOf negative = signOf (!negative) := by cases negative <;> rfl
  cases fields with
  | zero =>
    have fields := @Unpacks.zero (!negative)
    rwa [← opposite] at fields
  | finite units few many bound exponent =>
    have fields := @Unpacks.finite (!negative)
    rw [← opposite] at fields
    exact fields units few many bound exponent
  | infinity =>
    have fields := @Unpacks.infinity (!negative)
    rwa [← opposite] at fields

theorem compare_neg (a b : UnpackedFloat) : a.neg.compare b.neg = (a.compare b).map Ordering.swap := by
  cases a with
  | notANumber => rfl
  | zero s =>
    cases b with
    | notANumber | zero => rfl
    | infinity t | finite t => cases t <;> rfl
  | infinity s =>
    cases b with
    | notANumber | zero | finite => cases s <;> rfl
    | infinity t => cases s <;> cases t <;> rfl
  | finite s =>
    cases b with
    | notANumber => rfl
    | zero => cases s <;> rfl
    | infinity t => cases s <;> cases t <;> rfl
    | finite t => cases s <;> cases t <;> simp [UnpackedFloat.compare, UnpackedFloat.neg, Neg.neg]

theorem Unpacks.compare_positive (first : Unpacks false r a) (second : Unpacks false s b) :
    a.compare b = some (compare (r : Int) s) := by
  cases first with
  | zero =>
    cases second with
    | zero => rfl
    | @finite _ _ _ _ positive units =>
      have less : ((0 : Nat) : Int) < s := by omega
      rw [compare_lt_iff_lt.mpr less]
      rfl
    | infinity => rfl
  | @finite _ run mantissa exponent positive units few many bound place =>
    cases second with
    | zero =>
      have greater : ((0 : Nat) : Int) < r := by omega
      rw [compare_gt_iff_gt.mpr greater]
      rfl
    | finite unitsToo fewToo manyToo _ placeToo =>
      rw [← compare_fields units unitsToo few fewToo many manyToo, place, placeToo]
      rfl
    | infinity =>
      rw [compare_lt_iff_lt.mpr (Int.ofNat_lt.mpr bound)]
      rfl
  | infinity =>
    cases second with
    | zero => rfl
    | finite _ _ _ bound =>
      rw [compare_gt_iff_gt.mpr (Int.ofNat_lt.mpr bound)]
      rfl
    | infinity => rfl

/-- A negative number lies below a positive one, unless both are zero. -/
theorem Unpacks.compare_opposite (first : Unpacks true r a) (second : Unpacks false s b) :
    a.compare b = some (compare (-r : Int) s) := by
  have below : 0 < r ∨ 0 < s → compare (-r : Int) s = .lt := by
    intro apart
    rw [compare_lt_iff_lt]
    omega
  cases first with
  | zero =>
    cases second with
    | zero => rfl
    | @finite _ _ _ _ positive units =>
      rw [below (.inr (by omega))]
      rfl
    | infinity => rfl
  | @finite _ _ _ _ positive units =>
    rw [below (.inl (by omega))]
    cases second with
    | zero | finite | infinity => rfl
  | infinity =>
    rw [below (.inl (by decide))]
    cases second with
    | zero | finite | infinity => rfl

theorem signed_not (negative : Bool) (rank : Nat) : signed (!negative) rank = -signed negative rank := by
  cases negative with
  | true => exact (neg_neg _).symm
  | false => rfl

theorem signed_zero (negative : Bool) : signed negative 0 = 0 := by
  cases negative with
  | true | false => rfl

theorem compare_mirrored (m n : Int) : (compare (-m) (-n)).swap = compare m n := by
  rw [Int.compare_swap]
  rcases Int.lt_trichotomy m n with less | rfl | greater
  · rw [compare_lt_iff_lt.mpr less, compare_lt_iff_lt.mpr (neg_lt_neg less)]
  · rw [compare_eq_iff_eq.mpr rfl, compare_eq_iff_eq.mpr rfl]
  · rw [compare_gt_iff_gt.mpr greater, compare_gt_iff_gt.mpr (neg_lt_neg greater)]

/-- Numbers compare as their signed ranks. -/
theorem Unpacks.compare {negative opposite : Bool} (first : Unpacks negative r a) (second : Unpacks opposite s b) :
    a.compare b = some (Ord.compare (signed negative r) (signed opposite s)) := by
  have mirrored : a.neg.compare b.neg = some (Ord.compare (-signed negative r) (-signed opposite s)) →
      a.compare b = some (Ord.compare (signed negative r) (signed opposite s)) := by
    intro compared
    rw [compare_neg, Option.map_eq_some_iff] at compared
    obtain ⟨order, same, swapped⟩ := compared
    rw [same, ← compare_mirrored, ← swapped, Ordering.swap_swap]
  cases negative with
  | false =>
    cases opposite with
    | false => exact first.compare_positive second
    | true =>
      refine mirrored ?_
      rw [← signed_not, ← signed_not]
      exact first.neg.compare_opposite second.neg
  | true =>
    cases opposite with
    | false => exact first.compare_opposite second
    | true =>
      refine mirrored ?_
      rw [← signed_not, ← signed_not]
      exact first.neg.compare_positive second.neg

/-- Of two numbers the one with the smaller signed rank is the smaller. -/
theorem le_iff_signedRank (first : floatRank x ≤ infinityRank) (second : floatRank y ≤ infinityRank) :
    x ≤ y ↔ signedRank x ≤ signedRank y := by
  have compared := (unpacks first).compare (unpacks second)
  change (decide ((x.toModel.unpack.compare y.toModel.unpack).any (·.isLE) = true)) = true ↔ _
  rw [compared, decide_eq_true_eq]
  exact Int.isLE_compare

/-! ### Values by their signed rank -/

variable {negative opposite : Bool}

theorem floatOfRank_le_iff (first : r ≤ infinityRank) (second : s ≤ infinityRank) :
    floatOfRank negative r ≤ floatOfRank opposite s ↔ signed negative r ≤ signed opposite s := by
  have rank := @floatRank_floatOfRank negative r first
  have rankToo := @floatRank_floatOfRank opposite s second
  rw [le_iff_signedRank (rank.trans_le first) (rankToo.trans_le second), signedRank, signedRank, rank, rankToo,
    isNegative_floatOfRank first, isNegative_floatOfRank second]

theorem isNegative_neg (number : floatRank x ≤ infinityRank) : isNegative (-x) = !isNegative x := by
  conv => lhs; rw [← floatOfRank_self x, neg_floatOfRank number]
  exact isNegative_floatOfRank number

theorem floatRank_neg (number : floatRank x ≤ infinityRank) : floatRank (-x) = floatRank x := by
  conv => lhs; rw [← floatOfRank_self x, neg_floatOfRank number]
  exact floatRank_floatOfRank number

/-- What keeps the order of ranks and the zero keeps the order of signed ranks. -/
theorem signed_mono {f : Nat → Nat} (zero : f 0 = 0) (mono : ∀ r s, r ≤ s → s < infinityRank → f r ≤ f s)
    (first : r < infinityRank) (second : s < infinityRank) (le : signed negative r ≤ signed opposite s) :
    signed negative (f r) ≤ signed opposite (f s) := by
  cases negative with
  | false =>
    cases opposite with
    | false => exact Int.ofNat_le.mpr (mono r s (Int.ofNat_le.mp le) second)
    | true =>
      obtain ⟨rfl, rfl⟩ : r = 0 ∧ s = 0 := by
        simp only [signed, Bool.false_eq_true, if_false, if_true] at le
        omega
      rw [zero]
      decide
  | true =>
    cases opposite with
    | false =>
      simp only [signed, Bool.false_eq_true, if_false, if_true]
      omega
    | true =>
      simp only [signed, if_true, neg_le_neg_iff, Int.ofNat_le] at le ⊢
      exact mono s r le first

end Calculator
