import Calculator.Json.Writer
import Calculator.Proofs.NearestValue
import Calculator.Proofs.PrintedResults

namespace Calculator

/-!
A JSON number denotes the shortest decimal of its value, be it laid out with an exponent or without, and that decimal
reads back to the value alone. So different finite values have different texts, those of the two zeros included.
-/

/-- The power of ten that an exponent denotes. -/
def exponentValue : List Char → Int
  | '-' :: digits => -(Nat.ofDigitChars 10 digits 0 : Int)
  | '+' :: digits => Nat.ofDigitChars 10 digits 0
  | digits => Nat.ofDigitChars 10 digits 0

/-- The number that a numeral with an exponent or without denotes. -/
def scientificValue? (text : List Char) : Option ℚ :=
  (Decimal.ofNumeral? (text.takeWhile (· ≠ 'e'))).map fun d =>
    d.value * 10 ^ exponentValue ((text.dropWhile (· ≠ 'e')).drop 1)

/-- The characters of numbers and of the word for what is none. -/
def isJsonNumberChar (c : Char) : Bool :=
  isNumeralChar c || ['-', '+', 'e', 'n', 'u', 'l'].contains c

variable {d : Decimal}

/-! ### Reading a layout -/

theorem no_exponent {text : List Char} (numeral : ∀ c ∈ text, isNumeralChar c = true) :
    ∀ c ∈ text, decide (c ≠ 'e') = true := by
  intro c member
  refine decide_eq_true fun same => ?_
  have letter := numeral c member
  rw [same] at letter
  exact absurd letter (by decide)

theorem scientificValue?_plain {text : List Char} (numeral : ∀ c ∈ text, isNumeralChar c = true) :
    scientificValue? text = (Decimal.ofNumeral? text).map Decimal.value := by
  have plain := no_exponent numeral
  have none : exponentValue [] = 0 := rfl
  rw [scientificValue?, List.takeWhile_eq_self_iff.mpr plain, List.dropWhile_eq_nil_iff.mpr plain, List.drop_nil, none]
  simp only [zpow_zero, mul_one]

theorem scientificValue?_exponent {text exponent : List Char} (numeral : ∀ c ∈ text, isNumeralChar c = true) :
    scientificValue? (text ++ 'e' :: exponent) =
      (Decimal.ofNumeral? text).map fun d => d.value * 10 ^ exponentValue exponent := by
  obtain ⟨before, behind⟩ := @takeWhile_run (· ≠ 'e') text ('e' :: exponent) (no_exponent numeral) (by simp)
  rw [scientificValue?, before, behind, List.drop_one, List.tail_cons]

theorem exponentValue_written (place : Int) :
    exponentValue ((if place < 0 then ['-'] else jsonStyle.exponentSign) ++ Nat.toDigits 10 place.natAbs) = place := by
  have number : Nat.ofDigitChars 10 (Nat.toDigits 10 place.natAbs) 0 = place.natAbs :=
    Nat.ofDigitChars_toDigits (by decide) (by decide)
  have sign : jsonStyle.exponentSign = ['+'] := rfl
  split
  · next negative =>
    rw [List.singleton_append, exponentValue, number]
    omega
  · next positive =>
    rw [sign, List.singleton_append, exponentValue, number]
    omega

/-- The digits before an exponent, with the point after the first of them. -/
def pointedDigits (digits : List Char) : List Char :=
  digits.take 1 ++ (if digits.length ≤ 1 then [] else '.' :: digits.drop 1)

theorem isNumeralChar_pointedDigits {digits : List Char} (numeral : ∀ c ∈ digits, isNumeralChar c = true) :
    ∀ c ∈ pointedDigits digits, isNumeralChar c = true := by
  intro c member
  rcases List.mem_append.mp member with first | others
  · exact numeral c (List.mem_of_mem_take first)
  · split at others
    · exact absurd others List.not_mem_nil
    · rcases List.mem_cons.mp others with rfl | behind
      · decide
      · exact numeral c (List.mem_of_mem_drop behind)

theorem ofNumeral?_pointedDigits (n : Nat) : ∃ m : Decimal, Decimal.ofNumeral? (pointedDigits (Nat.toDigits 10 n)) = some m ∧
    m.digits = n ∧ m.exponent = 1 - ((Nat.toDigits 10 n).length : Int) := by
  have plain := Decimal.digits_no_point n
  have nonempty := Decimal.digits_nonempty n
  have number : Nat.ofDigitChars 10 (Nat.toDigits 10 n) 0 = n := Nat.ofDigitChars_toDigits (by decide) (by decide)
  generalize Nat.toDigits 10 n = digits at plain nonempty number ⊢
  have positive := List.length_pos_iff.mpr nonempty
  unfold pointedDigits
  split
  · next single =>
    rw [List.take_of_length_le single, List.append_nil]
    refine ⟨_, Decimal.ofNumeral?_whole plain nonempty, number, ?_⟩
    dsimp only
    omega
  · next several =>
    have whole : digits.take 1 ++ digits.drop 1 = digits := List.take_append_drop 1 digits
    refine ⟨_, Decimal.ofNumeral?_point (fun member => plain (List.mem_of_mem_take member))
      (fun member => plain (List.mem_of_mem_drop member)) (whole.trans_ne nonempty),
      (congrArg (Nat.ofDigitChars 10 · 0) whole).trans number, ?_⟩
    dsimp only
    rw [List.length_drop]
    omega

theorem scientificValue?_exponentText (d : Decimal) : scientificValue? (jsonStyle.exponentText (Nat.toDigits 10 d.digits)
    (d.exponent + (Nat.toDigits 10 d.digits).length - 1)) = some d.value := by
  obtain ⟨m, read, digits, exponent⟩ := ofNumeral?_pointedDigits d.digits
  have numeral := isNumeralChar_pointedDigits (isNumeralChar_digits d.digits)
  have place : m.exponent + (d.exponent + (Nat.toDigits 10 d.digits).length - 1) = d.exponent := by omega
  rw [NumberStyle.exponentText, ← pointedDigits, scientificValue?_exponent numeral, read, Option.map_some,
    exponentValue_written, Decimal.value, digits, mul_assoc, ← ten_pow_add, place, Decimal.value]

theorem scientificValue?_positionalText (d : Decimal) : scientificValue? (jsonStyle.positionalText
    (Nat.toDigits 10 d.digits) (d.exponent + (Nat.toDigits 10 d.digits).length)) = some d.value := by
  obtain ⟨e, spelled, same⟩ := Decimal.ofNumeral?_positionalText jsonStyle d
  have numeral := fun c => @isNumeralChar_positionalText jsonStyle _ (d.exponent + (Nat.toDigits 10 d.digits).length)
    (isNumeralChar_digits d.digits) c
  rw [scientificValue?_plain numeral, spelled, Option.map_some, same]

/-- In either layout the text of a decimal denotes it. -/
theorem scientificValue?_decimalText (d : Decimal) : scientificValue? (jsonStyle.decimalText d) = some d.value := by
  rw [NumberStyle.decimalText]
  split
  · exact scientificValue?_positionalText d
  · exact scientificValue?_exponentText d

/-! ### Numbers in a document -/

theorem decimalText_injective {first second : Decimal} (same : jsonStyle.decimalText first = jsonStyle.decimalText second) :
    first.rank = second.rank := by
  have number := scientificValue?_decimalText first
  rw [same, scientificValue?_decimalText] at number
  exact (Decimal.rank_congr (Option.some.inj number)).symm

/-- In either layout a decimal starts with a digit. -/
theorem decimalText_starts (d : Decimal) : ∀ c ∈ (jsonStyle.decimalText d).head?, isNumeralChar c = true := by
  intro c first
  rw [NumberStyle.decimalText] at first
  split at first
  · exact isNumeralChar_positionalText jsonStyle _ (isNumeralChar_digits d.digits) (List.mem_of_mem_head? first)
  · cases written : Nat.toDigits 10 d.digits with
    | nil => exact absurd written (Decimal.digits_nonempty d.digits)
    | cons digit digits =>
      rw [NumberStyle.exponentText, written] at first
      cases first
      exact isNumeralChar_digits d.digits _ (written ▸ List.mem_cons_self)

theorem decimalText_unsigned {d : Decimal} {rest : List Char} : jsonStyle.decimalText d ≠ '-' :: rest := by
  intro minus
  have first := decimalText_starts d
  rw [minus] at first
  exact absurd (first '-' rfl) (by decide)

/-- The sign and the digits of a number are told apart. -/
theorem signed_injective {negative other : Bool} {first second : Decimal}
    (same : (if negative then ['-'] else []) ++ jsonStyle.decimalText first =
      (if other then ['-'] else []) ++ jsonStyle.decimalText second) :
    negative = other ∧ jsonStyle.decimalText first = jsonStyle.decimalText second := by
  cases negative with
  | false =>
    cases other with
    | false => exact ⟨rfl, same⟩
    | true => exact absurd same decimalText_unsigned
  | true =>
    cases other with
    | false => exact absurd same.symm decimalText_unsigned
    | true => exact ⟨rfl, List.tail_eq_of_cons_eq same⟩

variable {x y : Float}

/-- The text of a finite number tells the number, bit for bit. -/
theorem finiteText_injective (finite : floatRank x < infinityRank) (also : floatRank y < infinityRank)
    (same : jsonStyle.finiteText x = jsonStyle.finiteText y) : x = y := by
  obtain ⟨signs, texts⟩ := signed_injective same
  have ranks := decimalText_injective texts
  rw [Decimal.rank_shortest _ finite, Decimal.rank_shortest _ also] at ranks
  rw [← floatOfRank_self x, ← floatOfRank_self y, signs, ranks]

theorem jsonNumber_injective (finite : floatRank x < infinityRank) (also : floatRank y < infinityRank)
    (same : jsonNumber x = jsonNumber y) : x = y := by
  rw [jsonNumber, jsonNumber, if_pos finite, if_pos also] at same
  exact finiteText_injective finite also same

/-! ### The characters of a number -/

theorem isJsonNumberChar_of_numeral {c : Char} (numeral : isNumeralChar c = true) : isJsonNumberChar c = true := by
  rw [isJsonNumberChar, numeral, Bool.true_or]

theorem isJsonNumberChar_exponentText {digits : List Char} (numeral : ∀ c ∈ digits, isNumeralChar c = true) (place : Int) :
    ∀ c ∈ jsonStyle.exponentText digits place, isJsonNumberChar c = true := by
  intro c member
  rw [NumberStyle.exponentText, ← pointedDigits] at member
  rcases List.mem_append.mp member with before | member
  · exact isJsonNumberChar_of_numeral (isNumeralChar_pointedDigits numeral c before)
  · rcases List.mem_cons.mp member with rfl | member
    · decide
    · rcases List.mem_append.mp member with sign | exponent
      · have signs : c ∈ (if place < 0 then ['-'] else ['+']) := sign
        split at signs
        · rw [List.mem_singleton.mp signs]
          decide
        · rw [List.mem_singleton.mp signs]
          decide
      · exact isJsonNumberChar_of_numeral (isNumeralChar_digits _ c exponent)

/-- A number, or the word for what is none, holds only characters of numbers. -/
theorem isJsonNumberChar_jsonNumber (x : Float) : ∀ c ∈ jsonNumber x, isJsonNumberChar c = true := by
  intro c member
  rw [jsonNumber] at member
  split at member
  · rcases List.mem_append.mp member with sign | member
    · split at sign
      · rw [List.mem_singleton.mp sign]
        decide
      · exact absurd sign List.not_mem_nil
    · rw [NumberStyle.decimalText] at member
      split at member
      · exact isJsonNumberChar_of_numeral
          (isNumeralChar_positionalText jsonStyle _ (isNumeralChar_digits _) member)
      · exact isJsonNumberChar_exponentText (isNumeralChar_digits _) _ c member
  · have word : ['n', 'u', 'l', 'l'].all isJsonNumberChar = true := by decide
    exact List.all_eq_true.mp word c member

end Calculator
