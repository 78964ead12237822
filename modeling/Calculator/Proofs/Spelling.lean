import Mathlib.Data.List.TakeWhile
import Calculator.Lexeme
import Calculator.Proofs.Outcome

namespace Calculator

/-!
Which texts spell which tokens. A text is cut from left to right: blanks are passed over, and numerals
and names go on as far as the text allows. A text that spells nothing has a first fault.
-/

def AllBlank (text : List Char) : Prop :=
  ∀ c ∈ text, isBlank c = true

/-- `text` is the lexeme of a token where `after` follows. -/
inductive IsLexeme : List Char → List Char → Token → Prop
  | number {text after value} : text ≠ [] → (∀ c ∈ text, isNumeralChar c = true) →
      (∀ c ∈ after.head?, isNumeralChar c = false) → ofNumeral? text = some value →
      IsLexeme text after (.number value)
  | name {first more after} : startsName first = true → (∀ c ∈ more, continuesName c = true) →
      (∀ c ∈ after.head?, continuesName c = false) →
      IsLexeme (first :: more) after (.name (.ofList ((first :: more).map Char.toLower)))
  | symbol {c after token} : Token.ofSymbol? c = some token → IsLexeme [c] after token

/-- Where `after` follows, `text` spells tokens: lexemes, each with the blanks before it, and the blanks
behind the last one. -/
inductive Spells (after : List Char) : List Char → List Token → Prop
  | blanks {gap} : AllBlank gap → Spells after gap []
  | lexeme {gap text rest token tokens} : AllBlank gap → IsLexeme text (rest ++ after) token →
      Spells after rest tokens → Spells after (gap ++ (text ++ rest)) (token :: tokens)

/-- What is wrong with a text right at its start. -/
inductive LexError.Blames : LexError → List Char → Prop
  | invalidNumber {text after offset} : text ≠ [] → (∀ c ∈ text, isNumeralChar c = true) →
      (∀ c ∈ after.head?, isNumeralChar c = false) → ((∀ c ∈ text, c.isDigit = false) ∨ 1 < text.count '.') →
      Blames (.invalidNumber (.ofList text) offset) (text ++ after)
  | unsupportedCharacter {c after offset} : isBlank c = false → c.isAlphanum = false → c ≠ '.' →
      c ∉ ['+', '-', '*', '/', '^', '(', ')', ','] → Blames (.unsupportedCharacter c offset) (c :: after)

/-! ### Characters -/

theorem code_between (c low high : Char) :
    c.val ≥ low.val ∧ c.val ≤ high.val ↔ low.toNat ≤ c.toNat ∧ c.toNat ≤ high.toNat := by
  rw [ge_iff_le, UInt32.le_iff_toNat_le, UInt32.le_iff_toNat_le]
  rfl

theorem isDigit_code {c : Char} : c.isDigit = true ↔ 48 ≤ c.toNat ∧ c.toNat ≤ 57 := by
  change (c.val ≥ '0'.val && c.val ≤ '9'.val) = true ↔ _
  rw [Bool.and_eq_true, decide_eq_true_eq, decide_eq_true_eq]
  exact code_between c '0' '9'

theorem isAlpha_code {c : Char} :
    c.isAlpha = true ↔ (65 ≤ c.toNat ∧ c.toNat ≤ 90) ∨ (97 ≤ c.toNat ∧ c.toNat ≤ 122) := by
  change (decide (c.val ≥ 'A'.val ∧ c.val ≤ 'Z'.val) || (c.val ≥ 'a'.val && c.val ≤ 'z'.val)) = true ↔ _
  rw [Bool.or_eq_true, Bool.and_eq_true, decide_eq_true_eq, decide_eq_true_eq, decide_eq_true_eq]
  exact or_congr (code_between c 'A' 'Z') (code_between c 'a' 'z')

theorem isNumeralChar_code {c : Char} (numeral : isNumeralChar c = true) : 46 ≤ c.toNat ∧ c.toNat ≤ 57 := by
  rcases Bool.or_eq_true _ _ ▸ numeral with digit | point
  · have code := isDigit_code.mp digit
    omega
  · rw [eq_of_beq point]
    decide

theorem isBlank_code {c : Char} (blank : isBlank c = true) : c.toNat ≤ 32 ∨ 133 ≤ c.toNat := by
  simp only [isBlank, inRanges, blankRanges, List.any_cons, List.any_nil, Bool.or_eq_true, Bool.and_eq_true,
    decide_eq_true_eq, Bool.or_false] at blank
  omega

theorem isBlank_starts_nothing {c : Char} (blank : isBlank c = true) :
    isNumeralChar c = false ∧ startsName c = false := by
  have code := isBlank_code blank
  refine ⟨Bool.eq_false_iff.mpr fun numeral => ?_, Bool.eq_false_iff.mpr fun letter => ?_⟩
  · have other := isNumeralChar_code numeral
    omega
  · have other := isAlpha_code.mp letter
    omega

theorem isBlank_continues_nothing {c : Char} (blank : isBlank c = true) : continuesName c = false := by
  have code := isBlank_code blank
  refine Bool.eq_false_iff.mpr fun continues => ?_
  rcases Bool.or_eq_true _ _ ▸ continues with plain | underscore
  · rcases Bool.or_eq_true _ _ ▸ plain with letter | digit
    · have other := isAlpha_code.mp letter
      omega
    · have other := isDigit_code.mp digit
      omega
  · rw [eq_of_beq underscore] at code
    exact absurd code (by decide)

theorem startsName_not_numeral {c : Char} (starts : startsName c = true) : isNumeralChar c = false := by
  refine Bool.eq_false_iff.mpr fun numeral => ?_
  have code := isAlpha_code.mp starts
  have other := isNumeralChar_code numeral
  omega

/-- The characters that are tokens by themselves. -/
theorem ofSymbol?_isSome_iff {c : Char} :
    (Token.ofSymbol? c).isSome = true ↔ c ∈ ['+', '-', '*', '/', '^', '(', ')', ','] := by
  constructor
  · intro some
    unfold Token.ofSymbol? at some
    split at some
    · decide
    · decide
    · decide
    · rw [Option.isSome_map, Operator.ofSymbol?, List.find?_isSome] at some
      obtain ⟨op, _, same⟩ := some
      rw [← eq_of_beq same]
      cases op <;> decide
  · have symbols : ['+', '-', '*', '/', '^', '(', ')', ','].all
        (fun c => (Token.ofSymbol? c).isSome) = true := by decide
    exact List.all_eq_true.mp symbols c

theorem symbol_starts_nothing {c : Char} (symbol : (Token.ofSymbol? c).isSome = true) :
    isNumeralChar c = false ∧ startsName c = false ∧ isBlank c = false := by
  have symbols : ['+', '-', '*', '/', '^', '(', ')', ','].all
      (fun c => !isNumeralChar c && !startsName c && !isBlank c) = true := by decide
  have apart := List.all_eq_true.mp symbols c (ofSymbol?_isSome_iff.mp symbol)
  simpa only [Bool.and_eq_true, Bool.not_eq_true', and_assoc] using apart

theorem isDigit_or_point {c : Char} (numeral : isNumeralChar c = true) : c.isDigit = true ∨ c = '.' := by
  rcases Bool.or_eq_true _ _ ▸ numeral with digit | point
  · exact .inl digit
  · exact .inr (eq_of_beq point)

theorem takeWhile_run {p : Char → Bool} {run after : List Char} (all : ∀ c ∈ run, p c = true)
    (ends : ∀ c ∈ after.head?, p c = false) : (run ++ after).takeWhile p = run ∧
    (run ++ after).dropWhile p = after := by
  rw [List.takeWhile_append_of_pos all, List.dropWhile_append_of_pos all]
  cases after with
  | nil => exact ⟨List.append_nil _, rfl⟩
  | cons c rest =>
    have stops := ends c rfl
    rw [List.takeWhile_cons_of_neg (by simp [stops]), List.dropWhile_cons_of_neg (by simp [stops])]
    exact ⟨List.append_nil _, rfl⟩

theorem no_digits_iff {text : List Char} (numeral : ∀ c ∈ text, isNumeralChar c = true) (plain : '.' ∉ text) :
    text = [] ↔ ∀ c ∈ text, c.isDigit = false := by
  refine ⟨fun empty c member => absurd (empty ▸ member) List.not_mem_nil, fun none => ?_⟩
  refine List.eq_nil_iff_forall_not_mem.mpr fun c member => ?_
  rcases isDigit_or_point (numeral c member) with digit | rfl
  · exact Bool.false_ne_true ((none c member).symm.trans digit)
  · exact plain member

/-- A run of digits and points is no number if it has no digits or too many points. -/
theorem ofNumeral?_eq_none_iff {text : List Char} (numeral : ∀ c ∈ text, isNumeralChar c = true) :
    ofNumeral? text = none ↔ (∀ c ∈ text, c.isDigit = false) ∨ 1 < text.count '.' := by
  have parts : ofNumeral? text = none ↔ '.' ∈ (text.dropWhile (· ≠ '.')).drop 1 ∨
      text.takeWhile (· ≠ '.') ++ (text.dropWhile (· ≠ '.')).drop 1 = [] := by
    rw [ofNumeral?, Option.map_eq_none_iff, Decimal.ofNumeral?]
    simp only [ite_eq_left_iff, reduceCtorEq, imp_false, not_not]
  have before : ∀ whole : List Char, '.' ∉ whole → ∀ c ∈ whole, decide (c ≠ '.') = true := fun whole plain c member =>
    decide_eq_true fun point => plain (point ▸ member)
  rw [parts]
  by_cases point : '.' ∈ text
  · obtain ⟨whole, part, rfl, plain⟩ := List.eq_append_cons_of_mem point
    obtain ⟨taken, left⟩ := @takeWhile_run (· ≠ '.') whole ('.' :: part) (before whole plain) (by simp)
    have counted : (whole ++ '.' :: part).count '.' = part.count '.' + 1 := by
      rw [List.count_append, List.count_cons_self, List.count_eq_zero.mpr plain, Nat.zero_add]
    have inside : ∀ c ∈ whole ++ part, isNumeralChar c = true := by
      intro c member
      refine numeral c ?_
      rcases List.mem_append.mp member with first | second
      · exact List.mem_append_left _ first
      · exact List.mem_append_right _ (List.mem_cons_of_mem _ second)
    rw [taken, left, List.drop_one, List.tail_cons, counted, Nat.lt_add_left_iff_pos, List.count_pos_iff]
    by_cases again : '.' ∈ part
    · exact ⟨fun _ => .inr again, fun _ => .inl again⟩
    · have digits := no_digits_iff inside fun member => (List.mem_append.mp member).elim plain again
      simp only [again, false_or, or_false, digits, List.mem_append, List.mem_cons]
      refine ⟨fun none c member => ?_, fun none c member => none c (member.imp_right .inr)⟩
      rcases member with first | rfl | second
      · exact none c (.inl first)
      · rfl
      · exact none c (.inr second)
  · have taken : text.takeWhile (· ≠ '.') = text := List.takeWhile_eq_self_iff.mpr (before text point)
    have left : text.dropWhile (· ≠ '.') = [] := List.dropWhile_eq_nil_iff.mpr (before text point)
    have counted : text.count '.' = 0 := List.count_eq_zero.mpr point
    rw [taken, left, List.drop_nil, List.append_nil, counted, no_digits_iff numeral point]
    simp only [List.not_mem_nil, false_or, Nat.not_lt_zero, or_false]

/-! ### What a spelled text is read as -/

theorem lexemes_run {text after : List Char} (nonempty : text ≠ [])
    (numeral : ∀ c ∈ text, isNumeralChar c = true)
    (ends : ∀ c ∈ after.head?, isNumeralChar c = false) : lexemes (text ++ after) = .numeral text ::
    lexemes after := by
  cases text with
  | nil => exact absurd rfl nonempty
  | cons c more =>
    obtain ⟨taken, left⟩ := takeWhile_run (fun c member => numeral c (List.mem_cons_of_mem _ member)) ends
    rw [List.cons_append, lexemes, if_pos (numeral c List.mem_cons_self), taken, left]

theorem lexemes_name {first : Char} {more after : List Char} (starts : startsName first = true)
    (continues : ∀ c ∈ more, continuesName c = true) (ends : ∀ c ∈ after.head?, continuesName c = false) :
    lexemes (first :: more ++ after) = .name (first :: more) :: lexemes after := by
  obtain ⟨taken, left⟩ := takeWhile_run continues ends
  have other := startsName_not_numeral starts
  rw [List.cons_append, lexemes, if_neg (by simp [other]), if_pos starts, taken, left]

theorem lexemes_blanks {gap : List Char} (blank : AllBlank gap) (after : List Char) :
    lexemes (gap ++ after) = gap.map Lexeme.blank ++ lexemes after := by
  induction gap with
  | nil => rfl
  | cons c rest ih =>
    have here := blank c List.mem_cons_self
    obtain ⟨numeral, name⟩ := isBlank_starts_nothing here
    rw [List.cons_append, lexemes, if_neg (by simp [numeral]), if_neg (by simp [name]), if_pos here,
      ih fun c member => blank c (List.mem_cons_of_mem _ member)]
    rfl

theorem byteLength_append (text more : List Char) : byteLength
    (text ++ more) = byteLength text + byteLength more := by
  induction text with
  | nil => exact (Nat.zero_add _).symm
  | cons c rest ih =>
    rw [List.cons_append, byteLength, byteLength, ih, Nat.add_assoc]

theorem byteLength_ofList (text : List Char) : (String.ofList text).utf8ByteSize = byteLength text := by
  induction text with
  | nil => rfl
  | cons c rest ih =>
    rw [String.ofList_cons, String.utf8ByteSize_append, String.utf8ByteSize_singleton, ih, byteLength]

theorem IsLexeme.lexemes {text after : List Char} {token : Token} (lexeme : IsLexeme text after token) :
    ∃ piece : Lexeme, Calculator.lexemes (text ++ after) = piece :: Calculator.lexemes after ∧ piece.text = text ∧
      ∀ offset, piece.token? offset = .ok (some token) := by
  cases lexeme with
  | number nonempty numeral ends value =>
    refine ⟨.numeral text, lexemes_run nonempty numeral ends, rfl, fun offset => ?_⟩
    rw [Lexeme.token?, value]
  | @name first more after starts continues ends =>
    exact ⟨.name (first :: more), lexemes_name starts continues ends, rfl, fun _ => rfl⟩
  | @symbol c after token known =>
    have some : (Token.ofSymbol? c).isSome = true := by rw [known, Option.isSome_some]
    obtain ⟨numeral, name, blank⟩ := symbol_starts_nothing some
    refine ⟨.symbol c, ?_, rfl, fun offset => ?_⟩
    · rw [List.singleton_append, Calculator.lexemes, if_neg (by simp [numeral]), if_neg (by simp [name]),
        if_neg (by simp [blank])]
    · rw [Lexeme.token?, known]

theorem tokensFrom_cons {piece : Lexeme} {offset : Nat} {token : Token}
    (read : piece.token? offset = .ok (some token)) (rest : List Lexeme) :
    tokensFrom offset (piece :: rest) =
      (tokensFrom (offset + byteLength piece.text) rest).map (token :: ·) := by
  rw [tokensFrom, read]
  rfl

theorem tokensFrom_blanks (gap : List Char) (offset : Nat) (rest : List Lexeme) :
    tokensFrom offset (gap.map Lexeme.blank ++ rest) = tokensFrom (offset + byteLength gap) rest := by
  induction gap generalizing offset with
  | nil => rfl
  | cons c gap ih =>
    have skipped : tokensFrom offset (.blank c :: (gap.map Lexeme.blank ++ rest)) =
        (tokensFrom (offset + byteLength [c]) (gap.map Lexeme.blank ++ rest)).map ([] ++ ·) := by
      rw [tokensFrom]
      rfl
    rw [List.map_cons, List.cons_append, skipped, map_nil_append, ih, Nat.add_assoc, ← byteLength_append,
      List.singleton_append]

/-- Tokens that were spelled are read, and the scan goes on behind them. -/
theorem Spells.tokensFrom {after text : List Char} {tokens : List Token} (spelled : Spells after text tokens)
    (offset : Nat) :
    Calculator.tokensFrom offset (lexemes (text ++ after)) =
      (Calculator.tokensFrom (offset + byteLength text) (lexemes after)).map (tokens ++ ·) := by
  induction spelled generalizing offset with
  | blanks blank => rw [lexemes_blanks blank, tokensFrom_blanks, map_nil_append]
  | @lexeme gap text rest token tokens blank lexeme _ ih =>
    obtain ⟨piece, first, same, read⟩ := lexeme.lexemes
    rw [List.append_assoc, List.append_assoc, lexemes_blanks blank, tokensFrom_blanks, first,
      tokensFrom_cons (read _), same, ih, byteLength_append, byteLength_append, Nat.add_assoc, Nat.add_assoc]
    exact map_map_append _ [token] tokens

theorem LexError.Blames.lexemes {error : LexError} {after : List Char} (blames : error.Blames after) :
    ∃ piece rest, Calculator.lexemes after = piece :: rest ∧ piece.token? error.offset = .error error := by
  cases blames with
  | @invalidNumber text after offset nonempty numeral ends wrong =>
    refine ⟨.numeral text, Calculator.lexemes after, lexemes_run nonempty numeral ends, ?_⟩
    rw [Lexeme.token?, (ofNumeral?_eq_none_iff numeral).mpr wrong]
    rfl
  | @unsupportedCharacter c after offset blank plain point symbol =>
    have numeral : isNumeralChar c = false := by
      refine Bool.eq_false_iff.mpr fun numeral => ?_
      rcases isDigit_or_point numeral with digit | same
      · rw [Char.isAlphanum, digit, Bool.or_true] at plain
        cases plain
      · exact point same
    have name : startsName c = false := (Bool.or_eq_false_iff.mp plain).1
    have unknown : Token.ofSymbol? c = none :=
      Option.not_isSome_iff_eq_none.mp fun known => symbol (ofSymbol?_isSome_iff.mp known)
    refine ⟨.symbol c, Calculator.lexemes after, ?_, ?_⟩
    · rw [Calculator.lexemes, if_neg (by simp [numeral]), if_neg (by simp [name]), if_neg (by simp [blank])]
    · rw [Lexeme.token?, unknown]
      rfl

/-- The scan ends at a fault. -/
theorem LexError.Blames.tokensFrom {error : LexError} {after : List Char} (blames : error.Blames after) :
    Calculator.tokensFrom error.offset (Calculator.lexemes after) = .error error := by
  obtain ⟨piece, rest, first, read⟩ := blames.lexemes
  rw [first, Calculator.tokensFrom, read]
  rfl

/-! ### Every text is spelled or has a first fault -/

theorem IsLexeme.alone {text rest after : List Char} {token : Token}
    (lexeme : IsLexeme text (rest ++ after) token) : IsLexeme text (rest ++ []) token := by
  have first : ∀ c ∈ (rest ++ []).head?, c ∈ (rest ++ after).head? := by
    cases rest with
    | nil => exact fun c member => nomatch member
    | cons d more => exact fun c member => member
  cases lexeme with
  | number nonempty numeral ends value =>
    exact .number nonempty numeral (fun c member => ends c (first c member)) value
  | name starts continues ends => exact .name starts continues fun c member => ends c (first c member)
  | symbol known => exact .symbol known

theorem Spells.alone {after text : List Char} {tokens : List Token} (spelled : Spells after text tokens) :
    Spells [] text tokens := by
  induction spelled with
  | blanks blank => exact .blanks blank
  | lexeme blank lexeme _ ih => exact .lexeme blank lexeme.alone ih

theorem Spells.nil {after : List Char} : Spells after [] [] := by
  have nothing : AllBlank [] := fun c member => nomatch member
  exact .blanks nothing

theorem Spells.cons {after text rest : List Char} {token : Token} {tokens : List Token}
    (lexeme : IsLexeme text (rest ++ after) token) (spelled : Spells after rest tokens) :
    Spells after (text ++ rest) (token :: tokens) := by
  have nothing : AllBlank [] := fun c member => nomatch member
  exact .lexeme nothing lexeme spelled

theorem Spells.gap {after gap text : List Char} {tokens : List Token} (blank : AllBlank gap)
    (spelled : Spells after text tokens) : Spells after (gap ++ text) tokens := by
  have joined : ∀ more, AllBlank more → AllBlank (gap ++ more) := fun more other c member =>
    (List.mem_append.mp member).elim (blank c) (other c)
  cases spelled with
  | blanks other => exact .blanks (joined _ other)
  | @lexeme inner text rest token tokens other lexeme spelled =>
    rw [← List.append_assoc]
    exact .lexeme (joined _ other) lexeme spelled

inductive Cut : List Char → Prop
  | whole {text tokens} : Spells [] text tokens → Cut text
  | fault {before after tokens} : Spells after before tokens →
      (∀ offset, ∃ error : LexError, error.offset = offset ∧ error.Blames after) → Cut (before ++ after)

theorem Cut.gap {gap text : List Char} (blank : AllBlank gap) (cut : Cut text) : Cut (gap ++ text) := by
  cases cut with
  | whole spelled => exact .whole (spelled.gap blank)
  | fault spelled blames =>
    rw [← List.append_assoc]
    exact .fault (spelled.gap blank) blames

theorem Cut.lexeme {text rest : List Char} {token : Token} (lexeme : IsLexeme text rest token)
    (cut : Cut rest) :
    Cut (text ++ rest) := by
  cases cut with
  | whole spelled =>
    rw [← rest.append_nil] at lexeme
    exact .whole (.cons lexeme spelled)
  | @fault before after tokens spelled blames =>
    rw [← List.append_assoc]
    exact .fault (.cons lexeme spelled) blames

theorem Cut.blamed {text : List Char}
    (blames : ∀ offset, ∃ error : LexError, error.offset = offset ∧ error.Blames text) :
    Cut text := by
  have before : Spells text [] [] := .nil
  exact Cut.fault before blames

theorem forall_mem_takeWhile {p : Char → Bool} {text : List Char} : ∀ c ∈ text.takeWhile p, p c = true :=
  fun _ member => List.mem_takeWhile_imp member

theorem head_dropWhile {p : Char → Bool} {text : List Char} : ∀ c ∈ (text.dropWhile p).head?, p c = false := by
  intro c member
  have stops := List.head?_dropWhile_not p text
  rw [Option.mem_def.mp member] at stops
  exact stops

theorem cut (text : List Char) : Cut text := by
  induction text using lexemes.induct with
  | case1 => exact .whole .nil
  | case2 c rest numeral ih =>
    have run : ∀ d ∈ c :: rest.takeWhile isNumeralChar, isNumeralChar d = true :=
      List.forall_mem_cons.mpr ⟨numeral, forall_mem_takeWhile⟩
    have nonempty : c :: rest.takeWhile isNumeralChar ≠ [] := List.cons_ne_nil _ _
    have parts : c :: rest = c :: rest.takeWhile isNumeralChar ++ rest.dropWhile isNumeralChar := by
      rw [List.cons_append, List.takeWhile_append_dropWhile]
    rw [parts]
    cases value : ofNumeral? (c :: rest.takeWhile isNumeralChar) with
    | some => exact ih.lexeme (.number nonempty run head_dropWhile value)
    | none =>
      have wrong := (ofNumeral?_eq_none_iff run).mp value
      exact .blamed fun offset => ⟨_, rfl, .invalidNumber nonempty run head_dropWhile wrong⟩
  | case3 c rest _ name ih =>
    have parts : c :: rest = c :: rest.takeWhile continuesName ++ rest.dropWhile continuesName := by
      rw [List.cons_append, List.takeWhile_append_dropWhile]
    rw [parts]
    exact ih.lexeme (.name name forall_mem_takeWhile head_dropWhile)
  | case4 c rest _ _ blank ih =>
    have one : AllBlank [c] := List.forall_mem_singleton.mpr blank
    exact ih.gap one
  | case5 c rest numeral name blank ih =>
    cases known : Token.ofSymbol? c with
    | some token => exact ih.lexeme (.symbol known)
    | none =>
      have unsupported : c ∉ ['+', '-', '*', '/', '^', '(', ')', ','] := by
        intro symbol
        have some := ofSymbol?_isSome_iff.mpr symbol
        rw [known] at some
        cases some
      obtain ⟨digit, point⟩ := Bool.or_eq_false_iff.mp (Bool.eq_false_iff.mpr numeral)
      have plain : c.isAlphanum = false := Bool.or_eq_false_iff.mpr ⟨Bool.eq_false_iff.mpr name, digit⟩
      exact .blamed fun offset =>
        ⟨_, rfl, .unsupportedCharacter (Bool.eq_false_iff.mpr blank) plain (ne_of_beq_false point) unsupported⟩

/-- The error of a text: what its first fault is, and where. What stands before it is a text of its own. -/
structure LexError.Locates (error : LexError) (source before after : String) : Prop where
  split : source = before ++ after
  offset : error.offset = before.utf8ByteSize
  inside : error.offset < source.utf8ByteSize
  readable : ∃ tokens, tokenize before = .ok tokens ∧ Spells after.toList before.toList tokens
  blames : error.Blames after.toList

theorem Spells.tokenize {source : String} {tokens : List Token} (spelled : Spells [] source.toList tokens) :
    Calculator.tokenize source = .ok tokens := by
  have read := spelled.tokensFrom 0
  have none : lexemes [] = [] := by rw [lexemes]
  rw [List.append_nil, none] at read
  rw [Calculator.tokenize, read]
  exact congrArg Except.ok tokens.append_nil

theorem LexError.Locates.tokenize {error : LexError} {source before after : String}
    (located : error.Locates source before after) : Calculator.tokenize source = .error error := by
  obtain ⟨tokens, _, spelled⟩ := located.readable
  have read := spelled.tokensFrom 0
  have place : 0 + byteLength before.toList = error.offset := by
    rw [Nat.zero_add, ← byteLength_ofList, String.ofList_toList, located.offset]
  rw [place, located.blames.tokensFrom] at read
  rw [Calculator.tokenize, located.split, String.toList_append, read]
  rfl

theorem LexError.Blames.byteLength_pos {error : LexError} {text : List Char} (blames : error.Blames text) :
    0 < byteLength text := by
  cases blames with
  | @invalidNumber text after _ nonempty =>
    cases text with
    | nil => exact absurd rfl nonempty
    | cons c more =>
      have wide := c.utf8Size_pos
      rw [List.cons_append, byteLength]
      omega
  | @unsupportedCharacter c after =>
    have wide := c.utf8Size_pos
    rw [byteLength]
    omega

theorem LexError.Locates.of_spells {error : LexError} {before after : List Char} {tokens : List Token}
    (spelled : Spells after before tokens) (offset : error.offset = byteLength before)
    (blames : error.Blames after) :
    error.Locates (.ofList (before ++ after)) (.ofList before) (.ofList after) where
  split := String.ofList_append
  offset := offset.trans (byteLength_ofList before).symm
  inside := by
    have wide := blames.byteLength_pos
    rw [offset, byteLength_ofList, byteLength_append]
    omega
  readable := by
    have alone := spelled.alone
    rw [← String.toList_ofList (l := before)] at alone
    refine ⟨tokens, alone.tokenize, ?_⟩
    rwa [String.toList_ofList, String.toList_ofList]
  blames := by rwa [String.toList_ofList]

/-- A text is spelled or has a first fault. -/
theorem spelled_or_located (source : String) :
    (∃ tokens, Spells [] source.toList tokens) ∨
      ∃ error before after, LexError.Locates error source before after := by
  have parts := cut source.toList
  generalize same : source.toList = text at parts
  cases parts with
  | whole spelled => exact .inl ⟨_, spelled⟩
  | @fault before after tokens spelled blames =>
    obtain ⟨error, offset, blamed⟩ := blames (byteLength before)
    have located := LexError.Locates.of_spells spelled offset blamed
    rw [← same, String.ofList_toList] at located
    exact .inr ⟨error, _, _, located⟩

/-- A text has the tokens that it spells. If it spells none, it has the error of its first fault. -/
theorem tokenize_partition (source : String) :
    (∀ tokens, tokenize source = .ok tokens ↔ Spells [] source.toList tokens) ∧
      ∀ error, tokenize source = .error error ↔ ∃ before after, error.Locates source before after := by
  rcases spelled_or_located source with ⟨spelled, whole⟩ | ⟨first, before, after, located⟩
  · refine ⟨fun tokens => ⟨fun read => ?_, Spells.tokenize⟩, fun error => ⟨fun failed => ?_, ?_⟩⟩
    · cases whole.tokenize.symm.trans read
      exact whole
    · cases whole.tokenize.symm.trans failed
    · rintro ⟨before, after, located⟩
      exact located.tokenize
  · refine ⟨fun tokens => ⟨fun read => ?_, Spells.tokenize⟩, fun error => ⟨fun failed => ?_, ?_⟩⟩
    · cases located.tokenize.symm.trans read
    · cases located.tokenize.symm.trans failed
      exact ⟨before, after, located⟩
    · rintro ⟨before, after, located⟩
      exact located.tokenize

end Calculator
