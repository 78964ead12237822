import Mathlib.Data.UInt
import Calculator.Json.Content
import Calculator.Proofs.Outcome

namespace Calculator

/-!
How the content of a JSON string is written, byte by byte, and which text it stands for. Both are stated as
relations, and the reader is shown to follow them.
-/

/-! ### Spelling -/

/-- A hexadecimal digit, small or capital, and its value. -/
def HexDigit (b : UInt8) (value : Nat) : Prop :=
  value < 10 ∧ b.toNat = '0'.toNat + value ∨
    10 ≤ value ∧ value < 16 ∧ (b.toNat + 10 = 'a'.toNat + value ∨ b.toNat + 10 = 'A'.toNat + value)

/-- The code that four hexadecimal digits spell. -/
def HexCode (a b c d : UInt8) (code : Nat) : Prop :=
  ∃ w x y z, HexDigit a w ∧ HexDigit b x ∧ HexDigit c y ∧ HexDigit d z ∧
    code = 16 ^ 3 * w + 16 ^ 2 * x + 16 * y + z

/-- The letters that may follow a backslash, each with the byte that it stands for. -/
def escapeLetters : List (UInt8 × UInt8) :=
  [(0x22, 0x22), (0x5c, 0x5c), (0x2f, 0x2f), (0x62, 0x08), (0x66, 0x0c), (0x6e, 0x0a), (0x72, 0x0d), (0x74, 0x09)]

/-- How the content of a string is written between its quotes. -/
inductive ContentText : List StringUnit → List UInt8 → Prop
  | nil : ContentText [] []
  | plain {b content text} : 0x20 ≤ b → b ≠ 0x22 → b ≠ 0x5c → ContentText content text →
      ContentText (.byte b :: content) (b :: text)
  | escape {letter b content text} : (letter, b) ∈ escapeLetters → ContentText content text →
      ContentText (.byte b :: content) (0x5c :: letter :: text)
  | code {a b c d code content text} : HexCode a b c d code → ContentText content text →
      ContentText (.code code :: content) (0x5c :: 0x75 :: a :: b :: c :: d :: text)

theorem hexDigit?_eq_some_iff {b : UInt8} {value : Nat} : hexDigit? b = some value ↔ HexDigit b value := by
  have zero : '0'.toNat = 48 := rfl
  have small : 'a'.toNat = 97 := rfl
  have capital : 'A'.toNat = 65 := rfl
  simp only [hexDigit?, HexDigit, Bool.and_eq_true, decide_eq_true_eq, UInt8.le_iff_toNat_le, UInt8.toNat_ofNat,
    zero, small, capital]
  split
  · simp only [Option.some.injEq]; omega
  · split
    · simp only [Option.some.injEq]; omega
    · split
      · simp only [Option.some.injEq]; omega
      · simp only [reduceCtorEq, false_iff]; omega

theorem hexCode?_eq_some_iff {a b c d : UInt8} {code : Nat} : hexCode? a b c d = some code ↔ HexCode a b c d code := by
  simp only [hexCode?, Option.bind_eq_bind, Option.bind_eq_some_iff, hexDigit?_eq_some_iff, HexCode]
  constructor
  · rintro ⟨w, first, x, second, y, third, z, fourth, same⟩
    exact ⟨w, x, y, z, first, second, third, fourth, (Option.some.inj same).symm⟩
  · rintro ⟨w, x, y, z, first, second, third, fourth, rfl⟩
    exact ⟨w, first, x, second, y, third, z, fourth, rfl⟩

theorem HexDigit.lt {b : UInt8} {value : Nat} (digit : HexDigit b value) : value < 16 := by
  rcases digit with ⟨low, _⟩ | ⟨_, high, _⟩
  · omega
  · exact high

theorem HexCode.lt {a b c d : UInt8} {code : Nat} (spelled : HexCode a b c d code) : code < 0x10000 := by
  obtain ⟨w, x, y, z, first, second, third, fourth, rfl⟩ := spelled
  have := first.lt
  have := second.lt
  have := third.lt
  have := fourth.lt
  omega

theorem ContentText.code_lt {content : List StringUnit} {text : List UInt8} (written : ContentText content text) :
    ∀ code, .code code ∈ content → code < 0x10000 := by
  intro code member
  induction written with
  | nil => cases member
  | plain _ _ _ _ ih | escape _ _ ih =>
    rcases List.mem_cons.mp member with same | member
    · cases same
    · exact ih member
  | code spelled _ ih =>
    rcases List.mem_cons.mp member with same | member
    · cases same
      exact spelled.lt
    · exact ih member

theorem escaped?_eq_some_iff {letter b : UInt8} : escaped? letter = some b ↔ (letter, b) ∈ escapeLetters := by
  simp only [escapeLetters, List.mem_cons, List.not_mem_nil, Prod.mk.injEq, or_false]
  constructor
  · intro escaped
    simp only [escaped?, beq_iff_eq, Bool.or_eq_true] at escaped
    repeat' split at escaped
    all_goals grind
  · rintro (⟨rfl, rfl⟩ | ⟨rfl, rfl⟩ | ⟨rfl, rfl⟩ | ⟨rfl, rfl⟩ | ⟨rfl, rfl⟩ | ⟨rfl, rfl⟩ | ⟨rfl, rfl⟩ | ⟨rfl, rfl⟩)
    all_goals rfl

/-! ### Reading -/

theorem ContentText.stringRest? {content : List StringUnit} {text : List UInt8} (written : ContentText content text)
    (rest : List UInt8) : stringRest? (text ++ 0x22 :: rest) = some (content, rest) := by
  induction written with
  | nil => rfl
  | @plain b content text visible quote slash _ ih =>
    have low : ¬ (b < 0x20 ∨ b = 0x5c) := not_or.mpr ⟨UInt8.not_lt.mpr visible, slash⟩
    rw [List.cons_append, Calculator.stringRest?.eq_5 _ _ quote (by grind) (by grind), if_neg low, ih]
    rfl
  | @escape letter b content text listed _ ih =>
    have escaped := escaped?_eq_some_iff.mpr listed
    have other : letter ≠ 0x75 := by
      rintro rfl
      simp [escapeLetters] at listed
    rw [List.cons_append, List.cons_append, Calculator.stringRest?.eq_4 _ _ (by grind), escaped, ih]
    rfl
  | code spelled _ ih =>
    simp only [List.cons_append]
    rw [Calculator.stringRest?.eq_3, hexCode?_eq_some_iff.mpr spelled, ih]
    rfl

theorem contentText_of_stringRest? {text rest : List UInt8} {content : List StringUnit}
    (read : stringRest? text = some (content, rest)) :
    ∃ written, ContentText content written ∧ text = written ++ 0x22 :: rest := by
  fun_induction Calculator.stringRest? text generalizing content rest with
  | case1 => cases read
  | case2 =>
    cases read
    exact ⟨[], .nil, rfl⟩
  | case3 a b c d following ih =>
    obtain ⟨code, spelled, read⟩ := Option.bind_eq_some_iff.mp read
    obtain ⟨⟨content, rest⟩, later, read⟩ := Option.bind_eq_some_iff.mp read
    cases read
    obtain ⟨written, inside, rfl⟩ := ih later
    exact ⟨_, .code (hexCode?_eq_some_iff.mp spelled) inside, rfl⟩
  | case4 letter following _ ih =>
    obtain ⟨b, escaped, read⟩ := Option.bind_eq_some_iff.mp read
    obtain ⟨⟨content, rest⟩, later, read⟩ := Option.bind_eq_some_iff.mp read
    cases read
    obtain ⟨written, inside, rfl⟩ := ih later
    exact ⟨_, .escape (escaped?_eq_some_iff.mp escaped) inside, rfl⟩
  | case5 => cases read
  | case6 b following quote _ _ visible ih =>
    obtain ⟨⟨content, rest⟩, later, read⟩ := Option.bind_eq_some_iff.mp read
    cases read
    obtain ⟨written, inside, rfl⟩ := ih later
    obtain ⟨high, slash⟩ := not_or.mp visible
    exact ⟨_, .plain (UInt8.not_lt.mp high) quote slash inside, rfl⟩

/-- Reading takes the content up to the first quote that is not escaped. -/
theorem stringRest?_eq_some_iff {text rest : List UInt8} {content : List StringUnit} :
    stringRest? text = some (content, rest) ↔
      ∃ written, ContentText content written ∧ text = written ++ 0x22 :: rest := by
  constructor
  · exact contentText_of_stringRest?
  · rintro ⟨written, inside, rfl⟩
    exact inside.stringRest? rest

/-! ### What a content stands for -/

/-- The characters that a content stands for. Each one is there as its bytes, as its code, or as the two
surrogates of a code that is too large for four digits. -/
inductive SpellsChars : List StringUnit → List Char → Prop
  | nil : SpellsChars [] []
  | bytes (c) {content chars} : SpellsChars content chars →
      SpellsChars ((String.utf8EncodeChar c).map .byte ++ content) (c :: chars)
  | code (c : Char) {content chars} : SpellsChars content chars →
      SpellsChars (.code c.toNat :: content) (c :: chars)
  | pair {c : Char} {high low content chars} : 0xd800 ≤ high → high < 0xdc00 → 0xdc00 ≤ low → low < 0xe000 →
      c.toNat = 0x10000 + (high - 0xd800) * 0x400 + (low - 0xdc00) → SpellsChars content chars →
      SpellsChars (.code high :: .code low :: content) (c :: chars)

/-- The text that a content stands for. -/
def Denotes (content : List StringUnit) (text : String) : Prop :=
  SpellsChars content text.toList

/-- The bytes of a text. -/
def encoded (chars : List Char) : List UInt8 :=
  chars.flatMap String.utf8EncodeChar

theorem stringBytes?_bytes (bytes : List UInt8) (content : List StringUnit) :
    stringBytes? (bytes.map .byte ++ content) = (stringBytes? content).map (bytes ++ ·) := by
  induction bytes with
  | nil => simp
  | cons b bytes ih =>
    rw [List.map_cons, List.cons_append, stringBytes?, ih, Option.map_map]
    rfl

/-- A code outside the surrogates stands alone, whatever follows it. -/
theorem stringBytes?_code {code : Nat} (plain : ¬ (0xd800 ≤ code ∧ code < 0xe000)) (content : List StringUnit) :
    stringBytes? (.code code :: content) =
      (stringBytes? content).map (String.utf8EncodeChar (.ofNat code) ++ ·) := by
  cases content with
  | nil => simp only [stringBytes?, if_neg plain]
  | cons unit content =>
    cases unit with
    | byte b => simp only [stringBytes?, if_neg plain]
    | code low =>
      have notHigh : ¬ (0xd800 ≤ code ∧ code < 0xdc00) := by omega
      have notLow : ¬ (0xdc00 ≤ code ∧ code < 0xe000) := by omega
      rw [stringBytes?, if_neg notHigh, if_neg notLow]

theorem not_surrogate (c : Char) : ¬ (0xd800 ≤ c.toNat ∧ c.toNat < 0xe000) := by
  have valid : c.toNat < 0xd800 ∨ 0xdfff < c.toNat ∧ c.toNat < 0x110000 := c.valid
  omega

theorem SpellsChars.stringBytes? {content : List StringUnit} {chars : List Char}
    (spells : SpellsChars content chars) : stringBytes? content = some (encoded chars) := by
  induction spells with
  | nil => rfl
  | bytes c _ ih =>
    rw [stringBytes?_bytes, ih]
    rfl
  | code c _ ih =>
    rw [stringBytes?_code (not_surrogate c), ih, Char.ofNat_toNat]
    rfl
  | @pair c high low content chars lower upper lowLower lowUpper same _ ih =>
    rw [Calculator.stringBytes?, if_pos ⟨lower, upper⟩, if_pos ⟨lowLower, lowUpper⟩, ih]
    simp only [← same, Char.ofNat_toNat]
    rfl

/-- The bytes of a character tell where it ends. -/
theorem utf8EncodeChar_prefixFree {c d : Char} {after rest : List UInt8}
    (same : String.utf8EncodeChar c ++ after = String.utf8EncodeChar d ++ rest) : c = d ∧ after = rest := by
  have first := ByteArray.utf8DecodeChar?_utf8EncodeChar_append (b := after.toByteArray) (c := c)
  rw [← List.toByteArray_append, same, List.toByteArray_append,
    ByteArray.utf8DecodeChar?_utf8EncodeChar_append] at first
  cases first
  exact ⟨rfl, List.append_cancel_left same⟩

theorem toNat_ofNat_of_valid {n : Nat} (valid : n.isValidChar) : (Char.ofNat n).toNat = n := by
  rw [Char.ofNat, dif_pos valid]
  rfl

/-- Escaped codes stand for a character: a code outside the surrogates alone, a first surrogate together with the
second one after it. -/
theorem stringBytes?_code_char {code : Nat} {content : List StringUnit} {bytes : List UInt8}
    (small : code < 0x10000) (read : stringBytes? (.code code :: content) = some bytes) :
    ∃ c rest after, bytes = String.utf8EncodeChar c ++ after ∧ stringBytes? rest = some after ∧
      rest <:+ content ∧ ∀ chars, SpellsChars rest chars → SpellsChars (.code code :: content) (c :: chars) := by
  by_cases surrogate : 0xd800 ≤ code ∧ code < 0xe000
  · cases content with
    | nil => simp only [stringBytes?, if_pos surrogate, reduceCtorEq] at read
    | cons unit content =>
      cases unit with
      | byte b => simp only [stringBytes?, if_pos surrogate, reduceCtorEq] at read
      | code low =>
        rw [stringBytes?] at read
        split at read
        · next high =>
          split at read
          · next second =>
            obtain ⟨after, others, rfl⟩ := Option.map_eq_some_iff.mp read
            have valid : (0x10000 + (code - 0xd800) * 0x400 + (low - 0xdc00)).isValidChar := .inr (by omega)
            exact ⟨_, content, after, rfl, others, List.suffix_cons _ _, fun chars spells =>
              .pair high.1 high.2 second.1 second.2 (toNat_ofNat_of_valid valid) spells⟩
          · cases read
        · next low =>
          have lone : 0xdc00 ≤ code ∧ code < 0xe000 := by omega
          rw [if_pos lone] at read
          cases read
  · rw [stringBytes?_code surrogate] at read
    obtain ⟨after, others, rfl⟩ := Option.map_eq_some_iff.mp read
    have valid : code.isValidChar := by
      unfold Nat.isValidChar
      omega
    refine ⟨.ofNat code, content, after, rfl, others, List.suffix_refl _, fun chars spells => ?_⟩
    have spelled := SpellsChars.code (.ofNat code) spells
    rwa [toNat_ofNat_of_valid valid] at spelled

/-- The first byte of a character, and bytes that are no first byte. -/
theorem utf8EncodeChar_split (c : Char) :
    ∃ first more, String.utf8EncodeChar c = first :: more ∧ first.IsUTF8FirstByte ∧
      ∀ b ∈ more, ¬ b.IsUTF8FirstByte := by
  cases bytes : String.utf8EncodeChar c with
  | nil => exact absurd bytes String.utf8EncodeChar_ne_nil
  | cons first more =>
    have place : ∀ i (inside : i < (first :: more).length), (first :: more)[i].IsUTF8FirstByte ↔ i = 0 := by
      intro i inside
      have here : i < (String.utf8EncodeChar c).length := by rwa [bytes]
      simpa only [bytes] using @UInt8.isUTF8FirstByte_getElem_utf8EncodeChar c i here
    refine ⟨first, more, rfl, (place 0 (by simp)).mpr rfl, fun b member starts => ?_⟩
    obtain ⟨i, inside, rfl⟩ := List.mem_iff_getElem.mp member
    have zero := (place (i + 1) (by simpa using inside)).mp starts
    cases zero

/-- Bytes after the first of a character never start one, so they cannot come from a code. -/
theorem bytes_of_rest {more after : List UInt8} {content : List StringUnit}
    (small : ∀ code, .code code ∈ content → code < 0x10000)
    (tail : ∀ b ∈ more, ¬ b.IsUTF8FirstByte) (read : stringBytes? content = some (more ++ after)) :
    ∃ rest, content = more.map .byte ++ rest ∧ stringBytes? rest = some after := by
  induction more generalizing content with
  | nil => exact ⟨content, rfl, read⟩
  | cons b more ih =>
    cases content with
    | nil => cases read
    | cons unit content =>
      cases unit with
      | byte other =>
        rw [stringBytes?] at read
        obtain ⟨bytes, others, same⟩ := Option.map_eq_some_iff.mp read
        obtain ⟨rfl, rfl⟩ := List.cons.inj same
        obtain ⟨rest, rfl, last⟩ := ih (fun code member => small code (List.mem_cons_of_mem _ member))
          (fun b member => tail b (List.mem_cons_of_mem _ member)) others
        exact ⟨rest, rfl, last⟩
      | code code =>
        obtain ⟨c, rest, bytes, same, _⟩ := stringBytes?_code_char (small code (List.mem_cons_self ..)) read
        obtain ⟨first, last, split, starts, _⟩ := utf8EncodeChar_split c
        rw [split] at same
        obtain ⟨rfl, _⟩ := List.cons.inj same
        exact absurd starts (tail b (List.mem_cons_self ..))

/-- The bytes of a content are read character by character. -/
theorem spellsChars_of_stringBytes? {chars : List Char} {content : List StringUnit}
    (small : ∀ code, .code code ∈ content → code < 0x10000) (read : stringBytes? content = some (encoded chars)) :
    SpellsChars content chars := by
  induction chars generalizing content with
  | nil =>
    cases content with
    | nil => exact .nil
    | cons unit content =>
      cases unit with
      | byte b =>
        rw [stringBytes?] at read
        obtain ⟨bytes, _, same⟩ := Option.map_eq_some_iff.mp read
        cases same
      | code code =>
        obtain ⟨c, _, _, same, _⟩ := stringBytes?_code_char (small code (List.mem_cons_self ..)) read
        obtain ⟨first, more, split, _⟩ := utf8EncodeChar_split c
        rw [split] at same
        cases same
  | cons c chars ih =>
    obtain ⟨first, more, split, _, tail⟩ := utf8EncodeChar_split c
    have whole : encoded (c :: chars) = String.utf8EncodeChar c ++ encoded chars := rfl
    cases content with
    | nil =>
      rw [whole, split] at read
      cases read
    | cons unit content =>
      have later : ∀ rest, rest <:+ content → ∀ code, .code code ∈ rest → code < 0x10000 :=
        fun rest suffix code member => small code (List.mem_cons_of_mem _ (suffix.subset member))
      cases unit with
      | byte b =>
        rw [stringBytes?] at read
        obtain ⟨bytes, others, same⟩ := Option.map_eq_some_iff.mp read
        rw [whole, split] at same
        obtain ⟨rfl, rfl⟩ := List.cons.inj same
        obtain ⟨rest, rfl, last⟩ := bytes_of_rest (later content (List.suffix_refl _)) tail others
        have spelled := SpellsChars.bytes c (ih (later rest (List.suffix_append _ _)) last)
        rwa [split] at spelled
      | code code =>
        obtain ⟨d, rest, after, same, others, suffix, spells⟩ :=
          stringBytes?_code_char (small code (List.mem_cons_self ..)) read
        obtain ⟨rfl, rfl⟩ := utf8EncodeChar_prefixFree (whole.symm.trans same)
        exact spells chars (ih (later rest suffix) others)

theorem fromUTF8?_eq_some_iff {bytes : List UInt8} {text : String} :
    String.fromUTF8? (.mk bytes.toArray) = some text ↔ bytes = encoded text.toList := by
  have whole : text.toByteArray = (encoded text.toList).toByteArray := String.utf8Encode_toList.symm
  have array : ByteArray.mk bytes.toArray = bytes.toByteArray := by
    rw [ByteArray.ext_iff, List.data_toByteArray]
  constructor
  · intro read
    simp only [String.fromUTF8?, Option.dite_none_right_eq_some, Option.some.injEq] at read
    obtain ⟨valid, rfl⟩ := read
    rw [← List.toByteArray_inj, ← whole, ← array]
    rfl
  · rintro rfl
    have valid : (ByteArray.mk (encoded text.toList).toArray).IsValidUTF8 := by
      rw [array, ← whole]
      exact text.isValidUTF8
    rw [String.fromUTF8?, dif_pos valid, Option.some.injEq, ← String.toByteArray_inj, whole, ← array]
    rfl

theorem Denotes.stringText? {content : List StringUnit} {text : String} (denotes : Denotes content text) :
    stringText? content = some text := by
  have read := SpellsChars.stringBytes? denotes
  simp only [Calculator.stringText?, Option.bind_eq_bind, read, Option.bind_some, fromUTF8?_eq_some_iff]

/-- The reader finds the text that a content stands for, and finds none where it stands for none. -/
theorem stringText?_eq_some_iff {content : List StringUnit} {written : List UInt8} {text : String}
    (spelled : ContentText content written) : stringText? content = some text ↔ Denotes content text := by
  constructor
  · intro read
    obtain ⟨bytes, units, chars⟩ := Option.bind_eq_some_iff.mp read
    rw [fromUTF8?_eq_some_iff.mp chars] at units
    exact spellsChars_of_stringBytes? spelled.code_lt units
  · exact Denotes.stringText?

/-- Without quotes, backslashes and bytes below the space, a text may stand for itself. -/
theorem contentText_plain {bytes : List UInt8} (plain : ∀ b ∈ bytes, 0x20 ≤ b ∧ b ≠ 0x22 ∧ b ≠ 0x5c) :
    ContentText (bytes.map .byte) bytes := by
  induction bytes with
  | nil => exact .nil
  | cons b bytes ih =>
    obtain ⟨visible, quote, slash⟩ := plain b (List.mem_cons_self ..)
    exact .plain visible quote slash (ih fun c member => plain c (List.mem_cons_of_mem _ member))

theorem spellsChars_encoded (chars : List Char) : SpellsChars ((encoded chars).map .byte) chars := by
  induction chars with
  | nil => exact .nil
  | cons c chars ih =>
    rw [encoded, List.flatMap_cons, List.map_append]
    exact .bytes c ih

/-- What follows the bytes of a text in the bytes of another one are bytes of a text. -/
theorem encoded_append {first whole : List Char} {bytes : List UInt8} (same : encoded first ++ bytes = encoded whole) :
    ∃ rest, bytes = encoded rest := by
  induction first generalizing whole with
  | nil => exact ⟨whole, same⟩
  | cons c first ih =>
    rw [encoded, List.flatMap_cons, List.append_assoc] at same
    cases whole with
    | nil =>
      obtain ⟨empty, _⟩ := List.append_eq_nil_iff.mp same
      exact absurd empty String.utf8EncodeChar_ne_nil
    | cons d whole => exact ih (utf8EncodeChar_prefixFree same).2

end Calculator
