import Mathlib.Data.List.TakeWhile
import Calculator.Json.Document
import Calculator.Proofs.JsonStrings

namespace Calculator

/-!
The grammar of JSON documents over bytes, and the reader against it: it accepts the documents of the grammar and
finds the value that each of them writes. Strings are taken as they are written, whatever they stand for.
-/

/-- The next byte, if there is one, is not of a kind. -/
def NotAhead (kind : UInt8 → Bool) (rest : List UInt8) : Prop :=
  ∀ b ∈ rest.head?, kind b = false

theorem notAhead_nil (kind : UInt8 → Bool) : NotAhead kind [] := by
  intro b member
  cases member

theorem notAhead_cons {kind : UInt8 → Bool} {b : UInt8} {rest : List UInt8} (other : kind b = false) :
    NotAhead kind (b :: rest) := by
  intro c member
  cases member
  exact other

theorem NotAhead.dropWhile {kind : UInt8 → Bool} {run rest : List UInt8} (stop : NotAhead kind rest)
    (inside : ∀ b ∈ run, kind b = true) : (run ++ rest).dropWhile kind = rest := by
  rw [List.dropWhile_append_of_pos inside]
  cases rest with
  | nil => rfl
  | cons b rest => rw [List.dropWhile_cons_of_neg (by simp [stop b rfl])]

/-! ### Numbers -/

/-- One or more digits. -/
def IsDigits (text : List UInt8) : Prop :=
  text ≠ [] ∧ ∀ b ∈ text, isDigitByte b = true

/-- A zero, or digits that start with another one. -/
def WholeText (text : List UInt8) : Prop :=
  text = [0x30] ∨ IsDigits text ∧ text.head? ≠ some 0x30

/-- Nothing, or a point and digits. -/
def FractionText (text : List UInt8) : Prop :=
  text = [] ∨ ∃ digits, IsDigits digits ∧ text = 0x2e :: digits

/-- Nothing, or an `e`, a sign if there is one, and digits. -/
def ExponentText (text : List UInt8) : Prop :=
  text = [] ∨ ∃ mark sign digits, (mark = 0x65 ∨ mark = 0x45) ∧ (sign = [] ∨ sign = [0x2b] ∨ sign = [0x2d]) ∧
    IsDigits digits ∧ text = mark :: (sign ++ digits)

/-- A minus if there is one, the whole part, the fraction and the exponent. -/
def NumberText (text : List UInt8) : Prop :=
  ∃ sign whole fraction exponent, (sign = [] ∨ sign = [0x2d]) ∧ WholeText whole ∧ FractionText fraction ∧
    ExponentText exponent ∧ text = sign ++ (whole ++ (fraction ++ exponent))

theorem digit_ne {b c : UInt8} (digit : isDigitByte b = true) (other : isDigitByte c = false) : b ≠ c := by
  rintro rfl
  rw [other] at digit
  cases digit

theorem isDigits_of_digitsRest? {text rest : List UInt8} (read : digitsRest? text = some rest) :
    ∃ digits, IsDigits digits ∧ text = digits ++ rest := by
  cases text with
  | nil => cases read
  | cons b text =>
    rw [digitsRest?] at read
    split at read
    · next digit =>
      cases read
      refine ⟨b :: text.takeWhile isDigitByte, ⟨by simp, fun c member => ?_⟩, by simp⟩
      rcases List.mem_cons.mp member with rfl | member
      · exact digit
      · exact List.mem_takeWhile_imp member
    · cases read

theorem IsDigits.digitsRest? {digits rest : List UInt8} (written : IsDigits digits) (stop : NotAhead isDigitByte rest) :
    digitsRest? (digits ++ rest) = some rest := by
  obtain ⟨nonempty, inside⟩ := written
  cases digits with
  | nil => exact absurd rfl nonempty
  | cons b digits =>
    rw [List.cons_append, Calculator.digitsRest?, if_pos (inside b (List.mem_cons_self ..)),
      stop.dropWhile fun c member => inside c (List.mem_cons_of_mem _ member)]

theorem wholeText_of_wholeRest? {text rest : List UInt8} (read : wholeRest? text = some rest) :
    ∃ whole, WholeText whole ∧ text = whole ++ rest := by
  unfold wholeRest? at read
  split at read
  · split at read
    · cases read
    · cases read
      exact ⟨[0x30], .inl rfl, rfl⟩
  · next text alone =>
    obtain ⟨digits, written, rfl⟩ := isDigits_of_digitsRest? read
    by_cases zero : digits.head? = some 0x30
    · obtain ⟨more, rfl⟩ := List.head?_eq_some_iff.mp zero
      cases more with
      | nil => exact ⟨[0x30], .inl rfl, rfl⟩
      | cons b more => exact absurd rfl (alone b (more ++ rest))
    · exact ⟨digits, .inr ⟨written, zero⟩, rfl⟩

theorem WholeText.wholeRest? {whole rest : List UInt8} (written : WholeText whole) (stop : NotAhead isDigitByte rest) :
    wholeRest? (whole ++ rest) = some rest := by
  rcases written with rfl | ⟨digits, other⟩
  · cases rest with
    | nil => rfl
    | cons b rest =>
      rw [List.singleton_append, Calculator.wholeRest?, if_neg (by simp [stop b rfl])]
  · rw [Calculator.wholeRest?.eq_2, digits.digitsRest? stop]
    intro b more same
    cases whole with
    | nil => exact digits.1 rfl
    | cons first whole =>
      obtain ⟨rfl, _⟩ := List.cons.inj same
      exact other rfl

theorem fractionText_of_fractionRest? {text rest : List UInt8} (read : fractionRest? text = some rest) :
    ∃ fraction, FractionText fraction ∧ text = fraction ++ rest := by
  unfold fractionRest? at read
  split at read
  · obtain ⟨digits, written, rfl⟩ := isDigits_of_digitsRest? read
    exact ⟨0x2e :: digits, .inr ⟨digits, written, rfl⟩, rfl⟩
  · cases read
    exact ⟨[], .inl rfl, rfl⟩

theorem FractionText.fractionRest? {fraction rest : List UInt8} (written : FractionText fraction)
    (stop : NotAhead isDigitByte rest) (point : NotAhead (· == 0x2e) rest) :
    fractionRest? (fraction ++ rest) = some rest := by
  rcases written with rfl | ⟨digits, written, rfl⟩
  · rw [List.nil_append, Calculator.fractionRest?.eq_2]
    rintro more rfl
    cases point 0x2e rfl
  · exact written.digitsRest? stop

theorem exponentText_of_exponentRest? {text rest : List UInt8} (read : exponentRest? text = some rest) :
    ∃ exponent, ExponentText exponent ∧ text = exponent ++ rest := by
  unfold exponentRest? at read
  split at read
  · next e sign text =>
    split at read
    · next mark =>
      have mark : e = 0x65 ∨ e = 0x45 := by simpa using mark
      split at read
      · next signed =>
        have signed : sign = 0x2b ∨ sign = 0x2d := by simpa using signed
        obtain ⟨digits, written, rfl⟩ := isDigits_of_digitsRest? read
        refine ⟨e :: ([sign] ++ digits), .inr ⟨e, [sign], digits, mark, ?_, written, rfl⟩, rfl⟩
        rcases signed with rfl | rfl
        · exact .inr (.inl rfl)
        · exact .inr (.inr rfl)
      · obtain ⟨digits, written, same⟩ := isDigits_of_digitsRest? read
        exact ⟨e :: ([] ++ digits), .inr ⟨e, [], digits, mark, .inl rfl, written, rfl⟩, by rw [same]; rfl⟩
    · cases read
      exact ⟨[], .inl rfl, rfl⟩
  · split at read
    · cases read
    · cases read
      exact ⟨[], .inl rfl, rfl⟩
  · cases read
    exact ⟨[], .inl rfl, rfl⟩

/-- The marks of an exponent. -/
def isExponentMark (b : UInt8) : Bool :=
  b == 0x65 || b == 0x45

theorem ExponentText.exponentRest? {exponent rest : List UInt8} (written : ExponentText exponent)
    (stop : NotAhead isDigitByte rest) (mark : NotAhead isExponentMark rest) :
    exponentRest? (exponent ++ rest) = some rest := by
  rcases written with rfl | ⟨e, sign, digits, marked, signed, written, rfl⟩
  · cases rest with
    | nil => rfl
    | cons b rest =>
      have other : ¬ (b == 0x65 || b == 0x45) = true := by simpa [isExponentMark] using mark b rfl
      cases rest with
      | nil => rw [List.nil_append, Calculator.exponentRest?, if_neg other]
      | cons c rest => rw [List.nil_append, Calculator.exponentRest?, if_neg other]
  · have marked : (e == 0x65 || e == 0x45) = true := by simpa using marked
    rcases signed with rfl | rfl | rfl
    · cases digits with
      | nil => exact absurd rfl written.1
      | cons b digits =>
        have digit := written.2 b (List.mem_cons_self ..)
        have unsigned : ¬ (b == 0x2b || b == 0x2d) = true := by
          simp [digit_ne digit (c := 0x2b) (by decide), digit_ne digit (c := 0x2d) (by decide)]
        have read := written.digitsRest? stop
        rw [List.cons_append] at read
        rw [List.nil_append, List.cons_append, List.cons_append, Calculator.exponentRest?, if_pos marked,
          if_neg unsigned, read]
    · exact (if_pos marked).trans (written.digitsRest? stop)
    · exact (if_pos marked).trans (written.digitsRest? stop)

theorem ExponentText.notAhead {kind : UInt8 → Bool} {exponent rest : List UInt8} (written : ExponentText exponent)
    (stop : NotAhead kind rest) (small : kind 0x65 = false) (capital : kind 0x45 = false) :
    NotAhead kind (exponent ++ rest) := by
  rcases written with rfl | ⟨mark, sign, digits, rfl | rfl, _, _, rfl⟩
  · exact stop
  · exact notAhead_cons small
  · exact notAhead_cons capital

theorem FractionText.notAhead {kind : UInt8 → Bool} {fraction rest : List UInt8} (written : FractionText fraction)
    (stop : NotAhead kind rest) (point : kind 0x2e = false) : NotAhead kind (fraction ++ rest) := by
  rcases written with rfl | ⟨digits, _, rfl⟩
  · exact stop
  · exact notAhead_cons point

theorem WholeText.starts {whole : List UInt8} (written : WholeText whole) :
    ∃ b more, whole = b :: more ∧ isDigitByte b = true := by
  rcases written with rfl | ⟨⟨nonempty, inside⟩, _⟩
  · exact ⟨0x30, [], rfl, rfl⟩
  · cases whole with
    | nil => exact absurd rfl nonempty
    | cons b more => exact ⟨b, more, rfl, inside b (List.mem_cons_self ..)⟩

/-- The bytes that could go on with a number. -/
def continuesNumber (b : UInt8) : Bool :=
  isDigitByte b || b == 0x2e || isExponentMark b

theorem NotAhead.mono {kind narrow : UInt8 → Bool} {rest : List UInt8} (stop : NotAhead kind rest)
    (implies : ∀ b, kind b = false → narrow b = false) : NotAhead narrow rest :=
  fun b member => implies b (stop b member)

theorem numberText_of_numberRest? {text rest : List UInt8} (read : numberRest? text = some rest) :
    ∃ written, NumberText written ∧ text = written ++ rest := by
  obtain ⟨afterWhole, readWhole, read⟩ := Option.bind_eq_some_iff.mp read
  obtain ⟨afterFraction, readFraction, readExponent⟩ := Option.bind_eq_some_iff.mp read
  obtain ⟨whole, wholeText, unsigned⟩ := wholeText_of_wholeRest? readWhole
  obtain ⟨fraction, fractionText, rfl⟩ := fractionText_of_fractionRest? readFraction
  obtain ⟨exponent, exponentText, rfl⟩ := exponentText_of_exponentRest? readExponent
  split at unsigned
  · subst unsigned
    exact ⟨_, ⟨[0x2d], whole, fraction, exponent, .inr rfl, wholeText, fractionText, exponentText, rfl⟩, by simp⟩
  · subst unsigned
    exact ⟨_, ⟨[], whole, fraction, exponent, .inl rfl, wholeText, fractionText, exponentText, rfl⟩, by simp⟩

/-- A number is read to its end if nothing follows that could go on with it. -/
theorem NumberText.numberRest? {text rest : List UInt8} (written : NumberText text)
    (stop : NotAhead continuesNumber rest) : numberRest? (text ++ rest) = some rest := by
  obtain ⟨sign, whole, fraction, exponent, signed, wholeText, fractionText, exponentText, rfl⟩ := written
  have noDigit : NotAhead isDigitByte rest := stop.mono fun b other => by
    simp only [continuesNumber, Bool.or_eq_false_iff] at other
    exact other.1.1
  have noPoint : NotAhead (· == 0x2e) rest := stop.mono fun b other => by
    simp only [continuesNumber, Bool.or_eq_false_iff] at other
    exact other.1.2
  have noMark : NotAhead isExponentMark rest := stop.mono fun b other => by
    simp only [continuesNumber, Bool.or_eq_false_iff] at other
    exact other.2
  have afterFraction : NotAhead isDigitByte (exponent ++ rest) ∧ NotAhead (· == 0x2e) (exponent ++ rest) :=
    ⟨exponentText.notAhead noDigit (by decide) (by decide), exponentText.notAhead noPoint (by decide) (by decide)⟩
  have afterWhole : NotAhead isDigitByte (fraction ++ (exponent ++ rest)) :=
    fractionText.notAhead afterFraction.1 (by decide)
  have unsigned : (do exponentRest? (← fractionRest? (← wholeRest? (whole ++ (fraction ++ (exponent ++ rest)))))) =
      some rest := by
    simp only [wholeText.wholeRest? afterWhole, fractionText.fractionRest? afterFraction.1 afterFraction.2,
      exponentText.exponentRest? noDigit noMark, Option.bind_eq_bind, Option.bind_some]
  simp only [List.append_assoc]
  rcases signed with rfl | rfl
  · obtain ⟨b, more, rfl, digit⟩ := wholeText.starts
    have other := digit_ne digit (c := 0x2d) (by decide)
    rw [Calculator.numberRest?]
    · exact unsigned
    · rintro following same
      exact other (List.cons.inj same).1
  · exact unsigned

/-! ### Blanks -/

def Blanks (text : List UInt8) : Prop :=
  ∀ b ∈ text, isJsonBlank b = true

theorem blanks_before (text : List UInt8) : ∃ gap, Blanks gap ∧ text = gap ++ skipJsonBlanks text :=
  ⟨text.takeWhile isJsonBlank, fun _ member => List.mem_takeWhile_imp member,
    List.takeWhile_append_dropWhile.symm⟩

theorem Blanks.skip {gap rest : List UInt8} (blanks : Blanks gap) (stop : NotAhead isJsonBlank rest) :
    skipJsonBlanks (gap ++ rest) = rest :=
  stop.dropWhile blanks

/-! ### Values -/

/-- Parts in a row, each but the last with a comma after it and blanks around the comma. -/
inductive Listed {α : Type} (Part : α → List UInt8 → Prop) : List α → List UInt8 → Prop
  | last {part text gap} : Part part text → Blanks gap → Listed Part [part] (text ++ gap)
  | more {part parts text rest gap after} : Part part text → Blanks gap → Blanks after → Listed Part parts rest →
      Listed Part (part :: parts) (text ++ (gap ++ 0x2c :: (after ++ rest)))

mutual

/-- How a value is written, from its first byte to its last. -/
inductive ValueText : JsonValue → List UInt8 → Prop
  | null : ValueText .null [0x6e, 0x75, 0x6c, 0x6c]
  | isTrue : ValueText (.bool true) [0x74, 0x72, 0x75, 0x65]
  | isFalse : ValueText (.bool false) [0x66, 0x61, 0x6c, 0x73, 0x65]
  | number {text} : NumberText text → ValueText .number text
  | string {content text} : ContentText content text → ValueText (.string content) (0x22 :: (text ++ [0x22]))
  | emptyArray {gap} : Blanks gap → ValueText (.array []) (0x5b :: (gap ++ [0x5d]))
  | array {gap items text} : Blanks gap → Listed ValueText items text →
      ValueText (.array items) (0x5b :: (gap ++ (text ++ [0x5d])))
  | emptyObject {gap} : Blanks gap → ValueText (.object []) (0x7b :: (gap ++ [0x7d]))
  | object {gap members text} : Blanks gap → Listed MemberText members text →
      ValueText (.object members) (0x7b :: (gap ++ (text ++ [0x7d])))

/-- How a named value is written: the name between quotes, a colon with blanks around it, and the value. -/
inductive MemberText : List StringUnit × JsonValue → List UInt8 → Prop
  | named {name value written before after text} : ContentText name written → Blanks before → Blanks after →
      ValueText value text →
      MemberText (name, value) (0x22 :: (written ++ 0x22 :: (before ++ 0x3a :: (after ++ text))))

end

/-- A document: a value with blanks around it. -/
def DocumentText (value : JsonValue) (text : List UInt8) : Prop :=
  ∃ before written after, Blanks before ∧ ValueText value written ∧ Blanks after ∧ text = before ++ (written ++ after)

/-! ### What is read is in the grammar -/

/-- Whatever a reader of parts accepts is such a part, with the closing mark after it. -/
def ReadsOnly {α : Type} (read : List UInt8 → Option (α × List UInt8)) (Part : α → List UInt8 → Prop)
    (mark : List UInt8) : Prop :=
  ∀ text part rest, read text = some (part, rest) → ∃ written, Part part written ∧ text = written ++ (mark ++ rest)

theorem scalarRest?_only : ReadsOnly scalarRest? ValueText [] := by
  intro text value rest read
  unfold scalarRest? at read
  split at read
  · cases read
    exact ⟨_, .null, rfl⟩
  · cases read
    exact ⟨_, .isTrue, rfl⟩
  · cases read
    exact ⟨_, .isFalse, rfl⟩
  · obtain ⟨⟨content, rest⟩, inside, same⟩ := Option.map_eq_some_iff.mp read
    cases same
    obtain ⟨written, spelled, rfl⟩ := stringRest?_eq_some_iff.mp inside
    exact ⟨_, .string spelled, by simp⟩
  · obtain ⟨rest, inside, same⟩ := Option.map_eq_some_iff.mp read
    cases same
    obtain ⟨written, number, rfl⟩ := numberText_of_numberRest? inside
    exact ⟨written, .number number, rfl⟩

section

variable {fuel : Nat}

theorem itemsRest?_only (value : ReadsOnly (valueRest? fuel) ValueText [])
    (others : ReadsOnly (itemsRest? fuel) (Listed ValueText) [0x5d]) :
    ReadsOnly (itemsRest? (fuel + 1)) (Listed ValueText) [0x5d] := by
  intro text items rest read
  rw [itemsRest?] at read
  obtain ⟨⟨item, behind⟩, first, ended⟩ := Option.bind_eq_some_iff.mp read
  obtain ⟨written, itemText, rfl⟩ := value _ _ _ first
  obtain ⟨gap, blanks, split⟩ := blanks_before behind
  simp only at ended
  split at ended
  · next following mark =>
    cases ended
    exact ⟨written ++ gap, .last itemText blanks, by rw [split, mark]; simp⟩
  · next following mark =>
    obtain ⟨⟨items, last⟩, later, same⟩ := Option.bind_eq_some_iff.mp ended
    cases same
    obtain ⟨after, blanksAfter, splitAfter⟩ := blanks_before following
    obtain ⟨more, listed, closing⟩ := others _ _ _ later
    refine ⟨_, .more itemText blanks blanksAfter listed, ?_⟩
    rw [split, mark, splitAfter, closing]
    simp
  · cases ended

theorem membersRest?_only (value : ReadsOnly (valueRest? fuel) ValueText [])
    (others : ReadsOnly (membersRest? fuel) (Listed MemberText) [0x7d]) :
    ReadsOnly (membersRest? (fuel + 1)) (Listed MemberText) [0x7d] := by
  intro text members rest read
  rw [membersRest?.eq_def] at read
  simp only at read
  split at read
  · next following =>
    obtain ⟨⟨name, afterName⟩, quoted, colon⟩ := Option.bind_eq_some_iff.mp read
    obtain ⟨written, spelled, rfl⟩ := stringRest?_eq_some_iff.mp quoted
    obtain ⟨before, blanksBefore, splitBefore⟩ := blanks_before afterName
    simp only at colon
    split at colon
    · next afterColon markColon =>
      obtain ⟨⟨member, behind⟩, first, ended⟩ := Option.bind_eq_some_iff.mp colon
      obtain ⟨between, blanksBetween, splitBetween⟩ := blanks_before afterColon
      obtain ⟨valueWritten, valueText, splitValue⟩ := value _ _ _ first
      obtain ⟨gap, blanks, split⟩ := blanks_before behind
      have named := MemberText.named spelled blanksBefore blanksBetween valueText
      simp only at ended
      split at ended
      · next last mark =>
        cases ended
        refine ⟨_, .last named blanks, ?_⟩
        rw [splitBefore, markColon, splitBetween, splitValue, split, mark]
        simp
      · next afterComma mark =>
        obtain ⟨⟨members, last⟩, later, same⟩ := Option.bind_eq_some_iff.mp ended
        cases same
        obtain ⟨after, blanksAfter, splitAfter⟩ := blanks_before afterComma
        obtain ⟨more, listed, closing⟩ := others _ _ _ later
        refine ⟨_, .more named blanks blanksAfter listed, ?_⟩
        rw [splitBefore, markColon, splitBetween, splitValue, split, mark, splitAfter, closing]
        simp
      · cases ended
    · cases colon
  · cases read

theorem valueRest?_only (items : ReadsOnly (itemsRest? fuel) (Listed ValueText) [0x5d])
    (members : ReadsOnly (membersRest? fuel) (Listed MemberText) [0x7d]) :
    ReadsOnly (valueRest? (fuel + 1)) ValueText [] := by
  intro text value rest read
  rw [valueRest?.eq_def] at read
  simp only at read
  split at read
  · next following =>
    obtain ⟨gap, blanks, split⟩ := blanks_before following
    split at read
    · next last mark =>
      cases read
      exact ⟨_, .emptyArray blanks, by rw [split, mark]; simp⟩
    · obtain ⟨⟨parts, last⟩, inside, same⟩ := Option.map_eq_some_iff.mp read
      cases same
      obtain ⟨written, listed, closing⟩ := items _ _ _ inside
      exact ⟨_, .array blanks listed, by rw [split, closing]; simp⟩
  · next following =>
    obtain ⟨gap, blanks, split⟩ := blanks_before following
    split at read
    · next last mark =>
      cases read
      exact ⟨_, .emptyObject blanks, by rw [split, mark]; simp⟩
    · obtain ⟨⟨parts, last⟩, inside, same⟩ := Option.map_eq_some_iff.mp read
      cases same
      obtain ⟨written, listed, closing⟩ := members _ _ _ inside
      exact ⟨_, .object blanks listed, by rw [split, closing]; simp⟩
  · exact scalarRest?_only _ _ _ read

end

theorem readers_only (fuel : Nat) :
    ReadsOnly (valueRest? fuel) ValueText [] ∧ ReadsOnly (itemsRest? fuel) (Listed ValueText) [0x5d] ∧
      ReadsOnly (membersRest? fuel) (Listed MemberText) [0x7d] := by
  induction fuel with
  | zero =>
    refine ⟨fun text part rest read => ?_, fun text part rest read => ?_, fun text part rest read => ?_⟩
    · cases read
    · cases read
    · cases read
  | succ fuel ih =>
    obtain ⟨value, items, members⟩ := ih
    exact ⟨valueRest?_only items members, itemsRest?_only value items, membersRest?_only value members⟩

/-! ### What is in the grammar is read -/

theorem Blanks.notAhead {kind : UInt8 → Bool} {gap rest : List UInt8} (blanks : Blanks gap)
    (stop : NotAhead kind rest) (other : ∀ b, isJsonBlank b = true → kind b = false) : NotAhead kind (gap ++ rest) := by
  cases gap with
  | nil => exact stop
  | cons b gap => exact notAhead_cons (other b (blanks b (List.mem_cons_self ..)))

theorem isJsonBlank_other {b : UInt8} (blank : isJsonBlank b = true) : continuesNumber b = false := by
  simp only [isJsonBlank, Bool.or_eq_true, beq_iff_eq] at blank
  rcases blank with ((rfl | rfl) | rfl) | rfl
  all_goals rfl

/-- The first byte of a value or of a member is no blank and closes nothing. -/
def StartsPart (text : List UInt8) : Prop :=
  ∃ b more, text = b :: more ∧ isJsonBlank b = false ∧ b ≠ 0x5d ∧ b ≠ 0x7d

theorem NumberText.starts {text : List UInt8} (written : NumberText text) :
    ∃ b more, text = b :: more ∧ (b = 0x2d ∨ isDigitByte b = true) := by
  obtain ⟨sign, whole, fraction, exponent, signed, wholeText, _, _, rfl⟩ := written
  rcases signed with rfl | rfl
  · obtain ⟨b, more, rfl, digit⟩ := wholeText.starts
    exact ⟨b, _, rfl, .inr digit⟩
  · exact ⟨0x2d, _, rfl, .inl rfl⟩

/-- The first byte of a number starts nothing else. -/
theorem number_ne {b c : UInt8} (starts : b = 0x2d ∨ isDigitByte b = true) (minus : c ≠ 0x2d)
    (digit : isDigitByte c = false) : b ≠ c := by
  rcases starts with rfl | starts
  · exact minus.symm
  · exact digit_ne starts digit

theorem NumberText.not_starts {text rest following : List UInt8} {c : UInt8} (written : NumberText text)
    (minus : c ≠ 0x2d) (digit : isDigitByte c = false) : text ++ rest ≠ c :: following := by
  obtain ⟨b, more, rfl, starts⟩ := written.starts
  exact fun same => number_ne starts minus digit (List.cons.inj same).1

theorem ValueText.starts {value : JsonValue} {text : List UInt8} (written : ValueText value text) : StartsPart text := by
  cases written with
  | null | isTrue | isFalse | string | emptyArray | array | emptyObject | object =>
    exact ⟨_, _, rfl, rfl, by decide, by decide⟩
  | number written =>
    obtain ⟨b, more, rfl, starts⟩ := written.starts
    have blank : isJsonBlank b = false := by
      have apart : ∀ c, c ≠ 0x2d → isDigitByte c = false → (b == c) = false := fun c minus digit =>
        beq_eq_false_iff_ne.mpr (number_ne starts minus digit)
      simp only [isJsonBlank, apart 0x20 (by decide) (by decide), apart 0x0a (by decide) (by decide),
        apart 0x0d (by decide) (by decide), apart 0x09 (by decide) (by decide), Bool.or_self]
    exact ⟨b, more, rfl, blank, number_ne starts (by decide) (by decide), number_ne starts (by decide) (by decide)⟩

theorem MemberText.starts {member : List StringUnit × JsonValue} {text : List UInt8} (written : MemberText member text) :
    StartsPart text := by
  cases written with
  | named => exact ⟨_, _, rfl, rfl, by decide, by decide⟩

theorem Listed.starts {α : Type} {Part : α → List UInt8 → Prop} (start : ∀ part text, Part part text → StartsPart text)
    {parts : List α} {text : List UInt8} (listed : Listed Part parts text) : StartsPart text := by
  cases listed with
  | last written =>
    obtain ⟨b, more, rfl, other⟩ := start _ _ written
    exact ⟨b, _, rfl, other⟩
  | more written =>
    obtain ⟨b, more, rfl, other⟩ := start _ _ written
    exact ⟨b, _, rfl, other⟩

theorem StartsPart.skip {text gap : List UInt8} (starts : StartsPart text) (blanks : Blanks gap) (rest : List UInt8) :
    skipJsonBlanks (gap ++ (text ++ rest)) = text ++ rest := by
  obtain ⟨b, more, rfl, other, _⟩ := starts
  exact blanks.skip (notAhead_cons other)

theorem Blanks.mark {gap : List UInt8} (blanks : Blanks gap) (mark : UInt8) (other : isJsonBlank mark = false)
    (rest : List UInt8) : skipJsonBlanks (gap ++ mark :: rest) = mark :: rest :=
  blanks.skip (notAhead_cons other)

/-- A value is read to its end, whatever does not go on with it follows. -/
def ReadsValues (fuel : Nat) : Prop :=
  ∀ value text rest, ValueText value text → 2 * text.length ≤ fuel → NotAhead continuesNumber rest →
    valueRest? fuel (text ++ rest) = some (value, rest)

/-- A row of parts is read up to its closing mark. -/
def ReadsLists {α : Type} (read : Nat → List UInt8 → Option (List α × List UInt8)) (Part : α → List UInt8 → Prop)
    (mark : UInt8) (fuel : Nat) : Prop :=
  ∀ parts text rest, Listed Part parts text → 2 * text.length + 1 ≤ fuel →
    read fuel (text ++ mark :: rest) = some (parts, rest)

theorem scalarRest?_number {text : List UInt8} (written : NumberText text) {rest : List UInt8}
    (stop : NotAhead continuesNumber rest) : scalarRest? (text ++ rest) = some (.number, rest) := by
  rw [scalarRest?.eq_5, written.numberRest? stop]
  · rfl
  · exact fun following => written.not_starts (by decide) (by decide)
  · exact fun following => written.not_starts (by decide) (by decide)
  · exact fun following => written.not_starts (by decide) (by decide)
  · exact fun following => written.not_starts (by decide) (by decide)

section

variable {fuel : Nat}

theorem itemsRest?_all (values : ReadsValues fuel) (items : ReadsLists itemsRest? ValueText 0x5d fuel) :
    ReadsLists itemsRest? ValueText 0x5d (fuel + 1) := by
  intro parts text rest listed enough
  cases listed with
  | @last item text gap written blanks =>
    have read : valueRest? fuel (text ++ (gap ++ 0x5d :: rest)) = some (item, gap ++ 0x5d :: rest) := by
      refine values _ _ _ written ?_ (blanks.notAhead (notAhead_cons rfl) fun b => isJsonBlank_other)
      simp only [List.length_append] at enough
      omega
    rw [List.append_assoc, itemsRest?, read]
    simp only [Option.bind_eq_bind, Option.bind_some, blanks.mark 0x5d rfl]
    rfl
  | @more item parts text others gap after written blanks blanksAfter listed =>
    simp only [List.length_append, List.length_cons] at enough
    have read : valueRest? fuel (text ++ (gap ++ 0x2c :: (after ++ (others ++ 0x5d :: rest)))) =
        some (item, gap ++ 0x2c :: (after ++ (others ++ 0x5d :: rest))) :=
      values _ _ _ written (by omega) (blanks.notAhead (notAhead_cons rfl) fun b => isJsonBlank_other)
    have later := items _ _ rest listed (by omega)
    simp only [List.append_assoc, List.cons_append]
    rw [itemsRest?, read]
    simp only [Option.bind_eq_bind, Option.bind_some, blanks.mark 0x2c rfl,
      (listed.starts fun _ _ => ValueText.starts).skip blanksAfter, later]
    rfl

/-- A member is read up to what follows it, which decides how it goes on. -/
theorem membersRest?_member (values : ReadsValues fuel) {member : List StringUnit × JsonValue} {text : List UInt8}
    (written : MemberText member text) (enough : 2 * text.length ≤ fuel) {rest : List UInt8}
    (stop : NotAhead continuesNumber rest) :
    membersRest? (fuel + 1) (text ++ rest) =
      match skipJsonBlanks rest with
      | 0x7d :: rest => some ([member], rest)
      | 0x2c :: rest => do
        let (members, rest) ← membersRest? fuel (skipJsonBlanks rest)
        return (member :: members, rest)
      | _ => none := by
  cases written with
  | @named name value written before after text spelled blanksBefore blanksAfter valueText =>
    simp only [List.length_cons, List.length_append] at enough
    have read := values _ _ rest valueText (by omega) stop
    have quoted := spelled.stringRest? (before ++ 0x3a :: (after ++ (text ++ rest)))
    simp only [List.cons_append, List.append_assoc]
    rw [membersRest?.eq_2, quoted]
    simp only [Option.bind_eq_bind, Option.bind_some, blanksBefore.mark 0x3a rfl,
      valueText.starts.skip blanksAfter, read]
    rfl

theorem membersRest?_all (values : ReadsValues fuel) (members : ReadsLists membersRest? MemberText 0x7d fuel) :
    ReadsLists membersRest? MemberText 0x7d (fuel + 1) := by
  intro parts text rest listed enough
  cases listed with
  | @last member text gap written blanks =>
    simp only [List.length_append] at enough
    have stop : NotAhead continuesNumber (gap ++ 0x7d :: rest) :=
      blanks.notAhead (notAhead_cons rfl) fun b => isJsonBlank_other
    rw [List.append_assoc, membersRest?_member values written (by omega) stop, blanks.mark 0x7d rfl]
    rfl
  | @more member parts text others gap after written blanks blanksAfter listed =>
    simp only [List.length_append, List.length_cons] at enough
    have stop : NotAhead continuesNumber (gap ++ 0x2c :: (after ++ (others ++ 0x7d :: rest))) :=
      blanks.notAhead (notAhead_cons rfl) fun b => isJsonBlank_other
    have later := members _ _ rest listed (by omega)
    simp only [List.append_assoc, List.cons_append]
    rw [membersRest?_member values written (by omega) stop, blanks.mark 0x2c rfl]
    simp only [(listed.starts fun _ _ => MemberText.starts).skip blanksAfter, later]
    rfl

theorem valueRest?_all (items : ReadsLists itemsRest? ValueText 0x5d fuel)
    (members : ReadsLists membersRest? MemberText 0x7d fuel) : ReadsValues (fuel + 1) := by
  intro value text rest written enough stop
  cases written with
  | null | isTrue | isFalse => rfl
  | number written =>
    rw [valueRest?.eq_4, scalarRest?_number written stop]
    · exact fun following => written.not_starts (by decide) (by decide)
    · exact fun following => written.not_starts (by decide) (by decide)
  | @string content text spelled =>
    have quoted := spelled.stringRest? rest
    have whole : 0x22 :: (text ++ [0x22]) ++ rest = 0x22 :: (text ++ 0x22 :: rest) := by simp
    rw [whole]
    change (stringRest? (text ++ 0x22 :: rest)).map _ = _
    rw [quoted]
    rfl
  | @emptyArray gap blanks =>
    have whole : 0x5b :: (gap ++ [0x5d]) ++ rest = 0x5b :: (gap ++ 0x5d :: rest) := by simp
    rw [whole, valueRest?, blanks.mark 0x5d rfl]
    rfl
  | @array gap parts text blanks listed =>
    simp only [List.length_append, List.length_cons, List.length_nil] at enough
    have whole : 0x5b :: (gap ++ (text ++ [0x5d])) ++ rest = 0x5b :: (gap ++ (text ++ 0x5d :: rest)) := by simp
    have read := items _ _ rest listed (by omega)
    have starts := listed.starts fun _ _ => ValueText.starts
    rw [whole, valueRest?, starts.skip blanks]
    obtain ⟨b, more, rfl, _, bracket, _⟩ := starts
    split
    · next same => exact absurd (List.cons.inj same).1 bracket
    · rw [read]
      rfl
  | @emptyObject gap blanks =>
    have whole : 0x7b :: (gap ++ [0x7d]) ++ rest = 0x7b :: (gap ++ 0x7d :: rest) := by simp
    rw [whole, valueRest?, blanks.mark 0x7d rfl]
    rfl
  | @object gap parts text blanks listed =>
    simp only [List.length_append, List.length_cons, List.length_nil] at enough
    have whole : 0x7b :: (gap ++ (text ++ [0x7d])) ++ rest = 0x7b :: (gap ++ (text ++ 0x7d :: rest)) := by simp
    have read := members _ _ rest listed (by omega)
    have starts := listed.starts fun _ _ => MemberText.starts
    rw [whole, valueRest?, starts.skip blanks]
    obtain ⟨b, more, rfl, _, _, brace⟩ := starts
    split
    · next same => exact absurd (List.cons.inj same).1 brace
    · rw [read]
      rfl

end

theorem readers_all (fuel : Nat) :
    ReadsValues fuel ∧ ReadsLists itemsRest? ValueText 0x5d fuel ∧ ReadsLists membersRest? MemberText 0x7d fuel := by
  induction fuel with
  | zero =>
    refine ⟨fun value text rest written enough stop => ?_, fun parts text rest listed enough => ?_,
      fun parts text rest listed enough => ?_⟩
    · obtain ⟨b, more, rfl, _⟩ := written.starts
      cases enough
    · cases enough
    · cases enough
  | succ fuel ih =>
    obtain ⟨values, items, members⟩ := ih
    exact ⟨valueRest?_all items members, itemsRest?_all values items, membersRest?_all values members⟩

/-- The reader accepts exactly the documents of the grammar, and finds the value that is written there. -/
theorem ofBytes?_eq_some_iff {text : List UInt8} {value : JsonValue} :
    JsonValue.ofBytes? text = some value ↔ DocumentText value text := by
  constructor
  · intro read
    obtain ⟨⟨found, rest⟩, inside, ended⟩ := Option.bind_eq_some_iff.mp read
    obtain ⟨before, blanksBefore, splitBefore⟩ := blanks_before text
    obtain ⟨written, valueText, split⟩ := (readers_only _).1 _ _ _ inside
    obtain ⟨after, blanksAfter, splitAfter⟩ := blanks_before rest
    simp only at ended
    split at ended
    · next empty =>
      cases ended
      rw [List.isEmpty_iff.mp empty, List.append_nil] at splitAfter
      refine ⟨before, written, after, blanksBefore, valueText, blanksAfter, ?_⟩
      rw [splitBefore, split, splitAfter]
      rfl
    · cases ended
  · rintro ⟨before, written, after, blanksBefore, valueText, blanksAfter, rfl⟩
    have stop : NotAhead continuesNumber after := by
      have ended := blanksAfter.notAhead (notAhead_nil continuesNumber) fun b => isJsonBlank_other
      rwa [List.append_nil] at ended
    have nothing : skipJsonBlanks after = [] := by
      have skipped := blanksAfter.skip (notAhead_nil isJsonBlank)
      rwa [List.append_nil] at skipped
    have read : valueRest? (2 * (before ++ (written ++ after)).length + 1) (written ++ after) = some (value, after) := by
      refine (readers_all _).1 _ _ _ valueText ?_ stop
      simp only [List.length_append]
      omega
    rw [JsonValue.ofBytes?, valueText.starts.skip blanksBefore, read]
    simp only [Option.bind_eq_bind, Option.bind_some, nothing, List.isEmpty_nil, if_true]
    rfl

end Calculator
