import Calculator.Proofs.ResultRange

namespace Calculator

/-!
The text of a result is the rounded decimal itself. A result is only the value nearest to that decimal,
but up to fifteen digits no other decimal as short reads as the same value, so that the shortest digits of
the value are those of the decimal.
-/

namespace Decimal

variable {d e : Decimal} {rank : Nat}

/-! ### Short decimals and their ranks -/

/-- Whatever reads as the rank of a short decimal lies next to this rank, measured in the last digit of
that decimal. -/
theorem near_rank (few : d.digits ≤ 10 ^ 15) (normal : 2 ^ 52 ≤ d.rank) (finite : d.rank < infinityRank)
    (same : e.rank = d.rank) : |magnitude d.rank - e.value| * 4 < 10 ^ d.exponent := by
  have here := rank_close normal finite
  have there := rank_close (normal.trans_eq same.symm) (same.trans_lt finite)
  rw [same] at there
  have step := ten_pow_pos d.exponent
  have bound : (d.digits : ℚ) ≤ 10 ^ 15 := by exact_mod_cast few
  have short : d.value ≤ 10 ^ 15 * 10 ^ d.exponent := mul_le_mul_of_nonneg_right bound step.le
  have above := le_abs_self (magnitude d.rank - d.value)
  linarith only [here, there, short, above, step]

/-- A multiple of the last digit that reads alike is the same number. -/
theorem value_eq_of_rank (few : d.digits ≤ 10 ^ 15) (normal : 2 ^ 52 ≤ d.rank) (finite : d.rank < infinityRank)
    (coarse : d.exponent ≤ e.exponent) (same : e.rank = d.rank) : e.value = d.value := by
  have here := near_rank few normal finite rfl
  have there := near_rank few normal finite same
  have step := ten_pow_pos d.exponent
  have multiple := value_multiple coarse
  generalize e.digits * 10 ^ (e.exponent - d.exponent).toNat = k at multiple
  have sum := abs_sub_le e.value (magnitude d.rank) d.value
  rw [abs_sub_comm e.value (magnitude d.rank)] at sum
  have near : |(k : ℚ) - d.digits| * 10 ^ d.exponent < 1 * 10 ^ d.exponent := by
    rw [← abs_of_pos step, ← abs_mul, abs_of_pos step, sub_mul, ← multiple, one_mul]
    exact sum.trans_lt (by linarith only [here, there, step])
  have whole : |(k : ℤ) - d.digits| < 1 := by
    have cast := lt_of_mul_lt_mul_right near step.le
    exact_mod_cast cast
  have equal : k = d.digits := by
    have zero := Int.abs_lt_one_iff.mp whole
    omega
  rw [multiple, equal, value]

/-! ### The search for the shortest digits -/

/-- At the place of its last digit a decimal next to its rank is found, or its neighbour that reads alike. -/
theorem atPlace?_some (tie : Tie) (read : d.rank = rank) (near : |magnitude rank - d.value| * 4 < 10 ^ d.exponent) :
    (atPlace? tie rank d.exponent).isSome = true := by
  have kept := @divNearest_stepsAt rank d.digits d.exponent (by
    rw [value] at near
    linarith only [near, abs_nonneg (magnitude rank - d.digits * 10 ^ d.exponent)])
  have around := divNearest_near (stepsAt rank d.exponent).1 (stepsAt rank d.exponent).2
  rw [kept] at around
  unfold atPlace?
  generalize stepsAt rank d.exponent = steps at around ⊢
  obtain ⟨n, b⟩ := steps
  simp only at around ⊢
  have neighbour : n / b = d.digits ∨ n / b + 1 = d.digits := by omega
  rcases neighbour with lower | upper
  · rw [lower, if_pos read]
    split_ifs <;> rfl
  · rw [upper, if_pos read]
    split_ifs <;> rfl

theorem atPlace?_exponent {tie : Tie} {place : Int} (found : atPlace? tie rank place = some d) : d.exponent = place := by
  unfold atPlace? at found
  rcases stepsAt rank place with ⟨n, b⟩
  simp only at found
  split_ifs at found <;> cases found <;> rfl

theorem digits_pos (normal : 2 ^ 52 ≤ d.rank) : 0 < d.digits := by
  by_contra none
  have zero : d.value = magnitude 0 := by
    have units : rankUnits 0 = 0 := rfl
    rw [value, magnitude, units, Nat.eq_zero_of_not_pos none, Nat.cast_zero, zero_mul, zero_div]
  have read := rank_eq (by decide +kernel) zero
  omega

/-- The last of so few digits stands at one of the places that are tried. -/
theorem exponent_range (few : d.digits ≤ 10 ^ 15) (normal : 2 ^ 52 ≤ d.rank)
    (finite : d.rank < infinityRank) : d.exponent ≤ leadingPlace d.rank + 1 ∧ leadingPlace d.rank ≤ d.exponent + 15 := by
  obtain ⟨lower, upper⟩ := leadingPlace_bounds (Nat.lt_of_lt_of_le (by decide) normal)
  obtain ⟨below, above⟩ := abs_lt.mp (lt_div_iff₀ four_pos |>.mpr (near_rank few normal finite rfl))
  have step := ten_pow_pos d.exponent
  have one : (1 : ℚ) ≤ d.digits := by exact_mod_cast digits_pos normal
  have most : (d.digits : ℚ) ≤ 10 ^ 15 := by exact_mod_cast few
  have least : 1 * 10 ^ d.exponent ≤ d.value := mul_le_mul_of_nonneg_right one step.le
  have short : d.value ≤ 10 ^ 15 * 10 ^ d.exponent := mul_le_mul_of_nonneg_right most step.le
  have tenth : (10 : ℚ) ^ d.exponent = 10 * 10 ^ (d.exponent - 1) := by
    rw [← zpow_one_add₀ (by norm_num), add_sub_cancel]
  have wide : (10 : ℚ) ^ (d.exponent + 16) = 10 ^ 16 * 10 ^ d.exponent := by
    rw [ten_pow_add, mul_comm]
    rfl
  have first : d.exponent - 1 < leadingPlace d.rank + 1 := by
    refine ten_pow_lt_iff.mp (lt_trans ?_ upper)
    linarith only [least, below, above, tenth, step]
  have last : leadingPlace d.rank < d.exponent + 16 := by
    refine ten_pow_lt_iff.mp (lower.trans_lt ?_)
    linarith only [short, below, above, wide, step]
  omega

/-- The shortest digits of the value that a short decimal reads as are those of the decimal. -/
theorem shortest_value (tie : Tie) (few : d.digits ≤ 10 ^ 15) (normal : 2 ^ 52 ≤ d.rank) (finite : d.rank < infinityRank) :
    (shortest tie d.rank).value = d.value := by
  obtain ⟨first, last⟩ := exponent_range few normal finite
  have hit := atPlace?_some tie rfl (near_rank few normal finite rfl)
  have tried : (leadingPlace d.rank + 1 - d.exponent).toNat ∈ List.range 18 := List.mem_range.mpr (by omega)
  have place : leadingPlace d.rank + 1 - ((leadingPlace d.rank + 1 - d.exponent).toNat : Int) = d.exponent := by omega
  rw [← place] at hit
  have ordered := @List.pairwise_lt_range 18
  rw [shortest, if_neg (Nat.ne_of_gt (Nat.lt_of_lt_of_le (by decide) normal))]
  simp only
  generalize (leadingPlace d.rank + 1 - d.exponent).toNat = index at tried place hit
  generalize List.range 18 = places at tried ordered ⊢
  cases found : places.findSome? (fun i : Nat => atPlace? tie d.rank (leadingPlace d.rank + 1 - i)) with
  | none =>
    rw [List.findSome?_eq_none_iff.mp found index tried] at hit
    cases hit
  | some e =>
    obtain ⟨before, i, after, rfl, here, skipped⟩ := List.findSome?_eq_some_iff.mp found
    have early : i ≤ index := by
      rw [List.pairwise_append, List.pairwise_cons] at ordered
      rcases List.mem_append.mp tried with passed | tried
      · rw [skipped index passed] at hit
        cases hit
      · rcases List.mem_cons.mp tried with same | later
        · exact same.ge
        · exact (ordered.2.1.1 index later).le
    have exponent := atPlace?_exponent here
    rw [Option.getD_some]
    exact value_eq_of_rank few normal finite (by omega) (rank_of_atPlace? here)

/-! ### The rounded decimal -/

/-- There is only one decimal to which a number is rounded. -/
theorem Rounds.unique {digits : Nat} {q : ℚ} (first : Rounds digits q d) (second : Rounds digits q e) : d = e := by
  have least := ten_pow_lt_iff.mp (first.leading.trans_lt second.next)
  have most := ten_pow_lt_iff.mp (second.leading.trans_lt first.next)
  have exponents : e.exponent = d.exponent := by omega
  obtain ⟨_, _, closeHere, evenHere⟩ := first
  obtain ⟨_, _, closeThere, evenThere⟩ := second
  obtain ⟨k, place⟩ := d
  obtain ⟨j, also⟩ := e
  cases exponents
  cases eq_of_half (ten_pow_pos place) closeHere closeThere evenHere evenThere
  rfl

/-- A carry into a new digit leaves no more digits than before. -/
theorem rounded_significant (positive : 0 < rank) (digits : Nat) :
    ∃ (k : Nat) (place : Int), k < 10 ^ max digits 1 ∧ (rounded rank digits).value = k * 10 ^ place := by
  obtain ⟨_, most⟩ := rounded_digits_bounds positive digits
  obtain ⟨_, next⟩ := leading_digits rank digits
  rcases most.lt_or_eq with less | full
  · exact ⟨_, _, less, rfl⟩
  · have one := le_max_right digits 1
    refine ⟨1, leadingPlace rank + 1, Nat.one_lt_pow (by omega) (by decide), ?_⟩
    rw [next, value, full, Nat.cast_one, one_mul]

end Decimal

/-! ### What a text denotes -/

/-- The number that digits and at most one point denote. -/
def numeralValue? (text : List Char) : Option ℚ :=
  if text.all isNumeralChar then (Decimal.ofNumeral? text).map Decimal.value else none

/-- The same with a minus before them or without. -/
def writtenValue? : List Char → Option ℚ
  | '-' :: text => (numeralValue? text).map fun number => -number
  | text => numeralValue? text

variable {x : Float}

theorem numeralValue?_decimalText (d : Decimal) : numeralValue? (plainStyle.decimalText d) = some d.value := by
  obtain ⟨e, spelled, same⟩ := Decimal.ofNumeral?_positionalText plainStyle d
  rw [numeralValue?, if_pos (List.all_eq_true.mpr fun c member => isNumeralChar_decimalText member),
    plainStyle_decimalText, spelled, Option.map_some, same]

theorem writtenValue?_numeral {text : List Char} {number : ℚ} (found : numeralValue? text = some number) :
    writtenValue? text = some number := by
  unfold writtenValue?
  split
  · rename_i rest
    have plain : isNumeralChar '-' = false := by decide
    rw [numeralValue?, List.all_cons, plain, Bool.false_and, if_neg Bool.false_ne_true] at found
    cases found
  · exact found

/-- The text of a finite value denotes its shortest decimal, with its sign. -/
theorem writtenValue?_text (finite : floatRank x < infinityRank) : writtenValue? (plainStyle.text x).toList =
    some (if isNegative x then -(Decimal.shortest .up (floatRank x)).value else (Decimal.shortest .up (floatRank x)).value) := by
  have text : plainStyle.text x = .ofList ((if isNegative x then ['-'] else []) ++ plainStyle.decimalText (.shortest .up (floatRank x))) :=
    if_pos finite
  have number := numeralValue?_decimalText (.shortest .up (floatRank x))
  rw [text, String.toList_ofList]
  cases isNegative x with
  | true => exact congrArg (Option.map fun number => -number) number
  | false => exact writtenValue?_numeral number

/-! ### The sign of a value -/

section Sign

open Float.Model Float.Model.UnpackedFloat

/-- The sign bit and the magnitude make the value. -/
theorem signFactor_mul_abs (bits : BitVec Format.binary64.numBits) :
    signFactor (Sign.ofBitVec (unpackSign bits)) * |unpackedValue (UnpackedFloat.unpack .binary64 bits)|
      = unpackedValue (UnpackedFloat.unpack .binary64 bits) := by
  have positive : ∀ (sign : Sign) (mantissa : Nat) (exponent : Int) (some : 0 < mantissa),
      signFactor sign * |unpackedValue (.finite sign mantissa exponent some)| = unpackedValue (.finite sign mantissa exponent some) := by
    intro sign mantissa exponent some
    rw [unpackedValue, abs_mul, abs_signFactor, one_mul, abs_of_nonneg (by positivity)]
  have zero : ∀ sign : Sign, signFactor sign * |(0 : ℚ)| = 0 := fun sign => by rw [abs_zero, mul_zero]
  unfold UnpackedFloat.unpack
  simp only
  split_ifs
  · exact zero _
  · exact zero _
  · exact zero _
  · exact positive _ _ _ _
  · exact positive _ _ _ _

theorem signFactor_toBits (x : Float) :
    signFactor (Sign.ofBitVec (@unpackSign .binary64 x.toBits.toBitVec)) = if isNegative x then -1 else 1 := by
  have field := sign_toNat x.toBits
  have bound := x.toBits.toNat_lt
  cases negative : isNegative x with
  | true =>
    have reached : 2 ^ 63 ≤ x.toBits.toNat := of_decide_eq_true negative
    have bit : x.toBits.toNat / 2 ^ 63 = 1 := by omega
    have one : @unpackSign .binary64 x.toBits.toBitVec = 1#1 := BitVec.eq_of_toNat_eq (field.trans bit)
    rw [one]
    rfl
  | false =>
    have below : ¬2 ^ 63 ≤ x.toBits.toNat := of_decide_eq_false negative
    have bit : x.toBits.toNat / 2 ^ 63 = 0 := by omega
    have zero : @unpackSign .binary64 x.toBits.toBitVec = 0#1 := BitVec.eq_of_toNat_eq (field.trans bit)
    rw [zero]
    rfl

theorem sign_exactValue (finite : x.isFinite = true) (positive : 0 < floatRank x) :
    (SignType.sign (exactValue x) : ℚ) = if isNegative x then -1 else 1 := by
  have whole := signFactor_mul_abs x.toBits.toBitVec
  rw [signFactor_toBits] at whole
  change (if isNegative x then (-1 : ℚ) else 1) * |exactValue x| = exactValue x at whole
  have some : 0 < |exactValue x| := by
    rw [abs_exactValue finite]
    exact div_pos (Nat.cast_pos.mpr (rankUnits_pos positive)) unitsPerOne_pos
  have both := sign_mul_abs (exactValue x)
  exact mul_right_cancel₀ some.ne' (both.trans whole.symm)

end Sign

/-- The text of a result denotes the twelve digits to which the value was rounded, and nothing else. -/
theorem normalize_text_exact (finite : x.isFinite = true) (large : exactValue 1e-12 ≤ |exactValue x|) :
    ∃ r d, normalize x = .ok r ∧ Decimal.Rounds 12 |exactValue x| d ∧
      (∀ e, Decimal.Rounds 12 |exactValue x| e → e = d) ∧
      writtenValue? (plainStyle.text r).toList = some (SignType.sign (exactValue x) * d.value) ∧
      (∃ (k : Nat) (place : Int), k < 10 ^ 12 ∧ d.value = k * 10 ^ place) ∧
      |exactValue x - SignType.sign (exactValue x) * d.value| ≤ 10 ^ d.exponent / 2 := by
  have below := isFinite_iff.mp finite
  have reached := (threshold_le_iff finite).mp large
  have positive : 0 < floatRank x := Nat.lt_of_lt_of_le (Nat.lt_of_lt_of_le (by decide) threshold_normal) reached
  obtain ⟨least, most⟩ := rounded_bounds reached below
  obtain ⟨_, few⟩ := Decimal.rounded_digits_bounds positive resultDigits
  have rounds := Decimal.rounded_rounds positive resultDigits
  have shortest := Decimal.shortest_value .up (few.trans (by decide)) (threshold_normal.trans least) most
  have rank := @floatRank_floatOfRank (isNegative x) _ most.le
  have written := @writtenValue?_text (floatOfRank (isNegative x) (Decimal.rounded (floatRank x) resultDigits).rank)
    (rank.trans_lt most)
  have sign := sign_exactValue finite positive
  rw [rank, shortest, isNegative_floatOfRank most.le] at written
  rw [← abs_exactValue finite] at rounds
  refine ⟨_, _, normalize_eq reached below, rounds, fun e other => other.unique rounds, ?_,
    Decimal.rounded_significant positive resultDigits, ?_⟩
  · rw [written, sign]
    cases isNegative x with
    | true => rw [if_pos rfl, if_pos rfl, neg_one_mul]
    | false => rw [if_neg Bool.false_ne_true, if_neg Bool.false_ne_true, one_mul]
  · have unit : |(SignType.sign (exactValue x) : ℚ)| = 1 := by
      rw [sign]
      cases isNegative x with
      | true => exact (abs_neg 1).trans abs_one
      | false => exact abs_one
    have whole := sign_mul_abs (exactValue x)
    calc
      |exactValue x - SignType.sign (exactValue x) * (Decimal.rounded (floatRank x) resultDigits).value|
          = |SignType.sign (exactValue x) * (abs (exactValue x) - (Decimal.rounded (floatRank x) resultDigits).value)| := by
        rw [mul_sub, whole]
      _ = |abs (exactValue x) - (Decimal.rounded (floatRank x) resultDigits).value| := by rw [abs_mul, unit, one_mul]
      _ ≤ 10 ^ (Decimal.rounded (floatRank x) resultDigits).exponent / 2 := rounds.close

/-- A tie between two decimals, with a carry into a new digit. -/
theorem normalize_text_exact_carry : normalize (-9999999999995) = .ok (-10000000000000) ∧
    plainStyle.text (-10000000000000) = "-10000000000000" ∧
    ∃ d, Decimal.Rounds 12 |exactValue (-9999999999995)| d ∧
      writtenValue? "-10000000000000".toList = some (SignType.sign (exactValue (-9999999999995)) * d.value) := by
  have finite : (-9999999999995 : Float).isFinite = true := by decide +kernel
  have large := (threshold_le_iff finite).mpr (by decide +kernel)
  have run : normalize (-9999999999995) = .ok (-10000000000000) := by decide +kernel
  have text : plainStyle.text (-10000000000000) = "-10000000000000" := by decide +kernel
  obtain ⟨r, d, given, rounds, _, written, _⟩ := normalize_text_exact finite large
  rw [run] at given
  cases given
  rw [text] at written
  exact ⟨run, text, d, rounds, written⟩

end Calculator
