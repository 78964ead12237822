import Mathlib
import Calculator.Number.Binary64

namespace Calculator

open Float.Model Float.Model.UnpackedFloat

/-!
A sign and a rank are the two parts of a value's bits, so a value made of them gives them back, and
negation changes the sign alone. The exponent and the mantissa of the bits both lie in the rank.
-/

/-- The bits of a sign and a rank. -/
def rankBits (negative : Bool) (rank : Nat) : UInt64 :=
  .ofNat (if negative then Nat.pow 2 63 + rank else rank)

variable {negative : Bool} {rank : Nat}

theorem rankBits_toNat (bound : rank ≤ infinityRank) :
    (rankBits negative rank).toNat = (if negative then 2 ^ 63 else 0) + rank := by
  unfold infinityRank at bound
  cases negative with
  | true =>
    simp only [rankBits, Nat.pow_eq, if_true, UInt64.toNat_ofNat']
    omega
  | false =>
    simp only [rankBits, Bool.false_eq_true, if_false, UInt64.toNat_ofNat']
    omega

theorem rankBits_rank (bound : rank ≤ infinityRank) : (rankBits negative rank).toNat % 2 ^ 63 = rank := by
  rw [rankBits_toNat bound]
  unfold infinityRank at bound
  split <;> omega

theorem rankBits_sign (bound : rank ≤ infinityRank) :
    (rankBits negative rank).toNat / 2 ^ 63 = if negative then 1 else 0 := by
  rw [rankBits_toNat bound]
  unfold infinityRank at bound
  split <;> omega

/-- The exponent stands in the upper bits of the rank. -/
theorem exponent_toNat (bits : UInt64) :
    (@unpackExponent .binary64 bits.toBitVec).toNat = bits.toNat % 2 ^ 63 / 2 ^ 52 := by
  have field : (@unpackExponent .binary64 bits.toBitVec).toNat = bits.toNat / 2 ^ 52 % 2 ^ 11 := by
    rw [unpackExponent_def, BitVec.extractLsb'_toNat, Nat.shiftRight_eq_div_pow]
    rfl
  omega

/-- The mantissa stands in the lower ones. -/
theorem mantissa_toNat (bits : UInt64) :
    (@unpackMantissa .binary64 bits.toBitVec).toNat = bits.toNat % 2 ^ 63 % 2 ^ 52 := by
  have field : (@unpackMantissa .binary64 bits.toBitVec).toNat = bits.toNat % 2 ^ 52 := by
    rw [unpackMantissa_def, BitVec.extractLsb'_toNat, Nat.shiftRight_eq_div_pow, Nat.pow_zero, Nat.div_one]
    rfl
  omega

theorem sign_toNat (bits : UInt64) : (@unpackSign .binary64 bits.toBitVec).toNat = bits.toNat / 2 ^ 63 := by
  have field : (@unpackSign .binary64 bits.toBitVec).toNat = bits.toNat / 2 ^ 63 % 2 := by
    rw [unpackSign_def, BitVec.extractLsb'_toNat, Nat.shiftRight_eq_div_pow]
    rfl
  have bound := bits.toNat_lt
  omega

theorem unpackSign_rankBits (bound : rank ≤ infinityRank) :
    @unpackSign .binary64 (rankBits negative rank).toBitVec = .ofBool negative := by
  refine BitVec.eq_of_toNat_eq ?_
  rw [sign_toNat, rankBits_sign bound]
  cases negative <;> rfl

/-- Up to infinity the bits stand for a number. -/
theorem isNaNBits_rankBits (bound : rank ≤ infinityRank) :
    @isNaNBits .binary64 (rankBits negative rank).toBitVec = false := by
  refine decide_eq_false ?_
  rintro ⟨full, some⟩
  have exponent := exponent_toNat (rankBits negative rank)
  have mantissa := mantissa_toNat (rankBits negative rank)
  have ones : (@unpackExponent .binary64 (rankBits negative rank).toBitVec).toNat = 2 ^ 11 - 1 := congrArg BitVec.toNat full
  rw [rankBits_rank bound] at exponent mantissa
  unfold infinityRank at bound
  have zero : rank % 2 ^ 52 = 0 := by omega
  exact some (BitVec.eq_of_toNat_eq (mantissa.trans zero))

theorem toBits_floatOfRank (bound : rank ≤ infinityRank) : (floatOfRank negative rank).toBits = rankBits negative rank := by
  refine UInt64.toBitVec_inj.mp ((@pack_unpack .binary64 (rankBits negative rank).toBitVec (by decide)).trans ?_)
  rw [isNaNBits_rankBits bound]
  rfl

theorem floatRank_floatOfRank (bound : rank ≤ infinityRank) : floatRank (floatOfRank negative rank) = rank := by
  rw [floatRank, toBits_floatOfRank bound]
  exact rankBits_rank bound

theorem isNegative_floatOfRank (bound : rank ≤ infinityRank) : isNegative (floatOfRank negative rank) = negative := by
  rw [isNegative, toBits_floatOfRank bound, rankBits_toNat bound]
  unfold infinityRank at bound
  cases negative with
  | true => exact decide_eq_true (Nat.le_add_right _ _)
  | false => exact decide_eq_false (by simp only [Nat.pow_eq, Bool.false_eq_true, if_false]; omega)

/-- Every value consists of its sign and its rank. -/
theorem floatOfRank_self (x : Float) : floatOfRank (isNegative x) (floatRank x) = x := by
  have bits : rankBits (isNegative x) (floatRank x) = x.toBits := by
    have bound := x.toBits.toNat_lt
    refine UInt64.toNat_inj.mp ?_
    rw [rankBits, UInt64.toNat_ofNat', isNegative, floatRank]
    simp only [Nat.pow_eq, decide_eq_true_eq]
    split <;> omega
  exact (congrArg Float.ofBits bits).trans (Float.ofBits_toBits x)

/-- Bits that differ in the sign stand for opposite values. -/
theorem unpack_neg {a b : BitVec Format.binary64.numBits} (exponents : unpackExponent a = unpackExponent b)
    (mantissas : unpackMantissa a = unpackMantissa b)
    (signs : Sign.ofBitVec (unpackSign a) = -Sign.ofBitVec (unpackSign b)) :
    UnpackedFloat.unpack .binary64 a = (UnpackedFloat.unpack .binary64 b).neg := by
  unfold UnpackedFloat.unpack
  simp only [exponents, mantissas, signs]
  split_ifs <;> rfl

theorem neg_floatOfRank (bound : rank ≤ infinityRank) : -floatOfRank negative rank = floatOfRank (!negative) rank := by
  have opposite : UnpackedFloat.unpack .binary64 (rankBits (!negative) rank).toBitVec
      = (UnpackedFloat.unpack .binary64 (rankBits negative rank).toBitVec).neg := by
    refine unpack_neg (BitVec.eq_of_toNat_eq ?_) (BitVec.eq_of_toNat_eq ?_) ?_
    · rw [exponent_toNat, exponent_toNat, rankBits_rank bound, rankBits_rank bound]
    · rw [mantissa_toNat, mantissa_toNat, rankBits_rank bound, rankBits_rank bound]
    · rw [unpackSign_rankBits bound, unpackSign_rankBits bound]
      cases negative <;> rfl
  calc
    -floatOfRank negative rank
        = ⟨Float.Model.pack (UnpackedFloat.unpack .binary64 (floatOfRank negative rank).toBits.toBitVec).neg⟩ := rfl
    _ = ⟨Float.Model.pack (UnpackedFloat.unpack .binary64 (rankBits (!negative) rank).toBitVec)⟩ := by
      rw [toBits_floatOfRank bound, opposite]
    _ = floatOfRank (!negative) rank := rfl

end Calculator
