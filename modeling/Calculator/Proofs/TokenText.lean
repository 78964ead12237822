import Calculator.Proofs.LetterCase
import Calculator.Proofs.NearestValue
import Calculator.Proofs.PrintedResults

namespace Calculator

/-!
The tokens of a text are shown as lexemes that spell them again, so that the tokens of a text shown with a space
between two have a text of their own with the same tokens. Only a numeral beyond all finite values is shown as a word.
-/

/-! ### Tokens as they are shown -/

/-- Where a blank or nothing follows, the text of a token is a lexeme of it. -/
def Token.Readable (token : Token) : Prop :=
  ∀ after : List Char, (∀ c ∈ after.head?, isBlank c = true) → IsLexeme token.text.toList after token

theorem readable_number {text : List Char} {value : Float} (read : ofNumeral? text = some value)
    (finite : value.isFinite = true) : Token.Readable (.number value) := by
  intro after ends
  obtain ⟨d, _, rfl⟩ := Option.map_eq_some_iff.mp read
  have bound := Decimal.rank_le_infinity d
  have below := isFinite_iff.mp finite
  rw [floatRank_floatOfRank bound] at below
  have tie : plainStyle.tie = .up := rfl
  have shown : (Token.number (floatOfRank false d.rank)).text.toList = plainStyle.decimalText (.shortest .up d.rank) := by
    rw [Token.text, NumberStyle.text, NumberStyle.finiteText, floatRank_floatOfRank bound, isNegative_floatOfRank bound,
      if_pos below, String.toList_ofList, if_neg Bool.false_ne_true, List.nil_append, tie]
  have back := ofNumeral?_decimalText (.shortest .up d.rank)
  rw [Decimal.rank_shortest .up below] at back
  rw [shown]
  refine .number ?_ (fun c member => isNumeralChar_decimalText member) (fun c first => ?_) back
  · intro empty
    rw [empty] at back
    cases back
  · exact (isBlank_starts_nothing (ends c first)).1

theorem readable_name {first : Char} {more : List Char} (starts : startsName first = true)
    (continues : ∀ c ∈ more, continuesName c = true) :
    Token.Readable (.name (.ofList ((first :: more).map Char.toLower))) := by
  intro after ends
  have name := IsLexeme.name ((startsName_toLower first).trans starts) (continuesName_map_toLower continues) fun c first =>
    isBlank_continues_nothing (ends c first)
  rw [← List.map_cons, map_toLower_twice] at name
  rwa [Token.text, String.toList_ofList]

theorem readable_symbol {c : Char} {token : Token} (known : Token.ofSymbol? c = some token) : token.Readable := by
  intro after _
  have shown : token.text.toList = [c] := by
    unfold Token.ofSymbol? at known
    split at known
    · cases known
      rfl
    · cases known
      rfl
    · cases known
      rfl
    · obtain ⟨op, written, rfl⟩ := Option.map_eq_some_iff.mp known
      have symbol : op.symbol = c := eq_of_beq (List.find?_some (p := fun op : Operator => op.symbol == c) written)
      rw [← symbol]
      cases op <;> rfl
  rw [shown]
  exact .symbol known

/-- The tokens of a text can be read, unless a numeral is too large. -/
theorem IsLexeme.readable {text after : List Char} {token : Token} (lexeme : IsLexeme text after token)
    (finite : ∀ value, token = .number value → value.isFinite = true) : token.Readable := by
  cases lexeme with
  | number _ _ _ read => exact readable_number read (finite _ rfl)
  | name starts continues => exact readable_name starts continues
  | symbol known => exact readable_symbol known

theorem Spells.readable {after text : List Char} {tokens : List Token} (spelled : Spells after text tokens)
    (finite : ∀ value, .number value ∈ tokens → value.isFinite = true) : ∀ token ∈ tokens, token.Readable := by
  induction spelled with
  | blanks => exact fun token member => nomatch member
  | lexeme _ lexeme _ ih =>
    refine List.forall_mem_cons.mpr ⟨lexeme.readable ?_, ih fun value member => finite value (List.mem_cons_of_mem _ member)⟩
    rintro value rfl
    exact finite value List.mem_cons_self

/-- Readable tokens are spelled by their texts with a space between two. -/
theorem spells_tokensText {tokens : List Token} (readable : ∀ token ∈ tokens, token.Readable) :
    Spells [] (tokensText tokens).toList tokens := by
  rw [tokensText, String.toList_intercalate, List.map_map]
  induction tokens with
  | nil => exact .nil
  | cons token rest ih =>
    obtain ⟨first, others⟩ := List.forall_mem_cons.mp readable
    have later := ih others
    cases rest with
    | nil =>
      have alone := first ([] ++ []) fun c member => nomatch member
      have spelled := Spells.cons alone .nil
      rw [List.append_nil] at spelled
      rw [List.map_cons, List.map_nil, List.intercalate_singleton]
      exact spelled
    | cons next more =>
      have blank : isBlank ' ' = true := by decide
      have behind := later.gap (List.forall_mem_singleton.mpr blank)
      have space : " ".toList = [' '] := rfl
      rw [List.map_cons, space] at behind ⊢
      rw [List.map_cons, List.intercalate_cons_cons, ← List.map_cons, List.append_assoc]
      refine .cons (first _ fun c head => ?_) behind
      cases head
      exact blank

/-- The tokens of a text, shown with a space between two, are the tokens of what is shown, provided that no numeral
of the text is too large for a finite value. -/
theorem tokenize_tokensText {source : String} {tokens : List Token} (lexed : tokenize source = .ok tokens)
    (finite : ∀ value, .number value ∈ tokens → value.isFinite = true) :
    tokenize (tokensText tokens) = .ok tokens := by
  rcases spelled_or_located source with ⟨others, spelled⟩ | ⟨error, before, after, located⟩
  · cases spelled.tokenize.symm.trans lexed
    exact (spells_tokensText (spelled.readable finite)).tokenize
  · cases located.tokenize.symm.trans lexed

/-- Literals of many digits are shown by those that tell their values. -/
theorem tokenize_tokensText_many_digits :
    tokenize "-X_1*.00000000000000000010^Sqrt(123456789012345678901234.)" =
      .ok [.operator .sub, .name "x_1", .operator .mul, .number 1e-19, .operator .pow, .name "sqrt", .leftParen,
        .number 1.2345678901234569e23, .rightParen] ∧
    (1e-19 : Float).isFinite = true ∧ (1.2345678901234569e23 : Float).isFinite = true ∧
    tokenize "- x_1 * 0.0000000000000000001 ^ sqrt ( 123456789012345690000000 )" =
      .ok [.operator .sub, .name "x_1", .operator .mul, .number 1e-19, .operator .pow, .name "sqrt", .leftParen,
        .number 1.2345678901234569e23, .rightParen] := by
  have lexed : tokenize "-X_1*.00000000000000000010^Sqrt(123456789012345678901234.)" =
      .ok [.operator .sub, .name "x_1", .operator .mul, .number 1e-19, .operator .pow, .name "sqrt", .leftParen,
        .number 1.2345678901234569e23, .rightParen] := by decide +kernel
  have small : (1e-19 : Float).isFinite = true := by decide +kernel
  have large : (1.2345678901234569e23 : Float).isFinite = true := by decide +kernel
  have shown : tokensText [.operator .sub, .name "x_1", .operator .mul, .number 1e-19, .operator .pow, .name "sqrt",
      .leftParen, .number 1.2345678901234569e23, .rightParen] =
        "- x_1 * 0.0000000000000000001 ^ sqrt ( 123456789012345690000000 )" := by decide +kernel
  have again := tokenize_tokensText lexed fun value member => by
    simp only [List.mem_cons, List.not_mem_nil, or_false, reduceCtorEq, false_or, Token.number.injEq] at member
    rcases member with rfl | rfl
    · exact small
    · exact large
  rw [shown] at again
  exact ⟨lexed, small, large, again⟩

end Calculator
