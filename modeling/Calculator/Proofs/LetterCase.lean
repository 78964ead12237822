import Mathlib.Data.List.Forall2
import Calculator.Proofs.BlankSeparation
import Calculator.Proofs.TreeValue

namespace Calculator

/-!
Capitals and small letters mean the same. A text falls into the same lexemes in either case, and a name is read,
looked up and blamed in lower case. Only the letters of ASCII have two cases here; all other characters stay apart.
-/

def IsCapitalOf (capital small : Char) : Prop :=
  'A'.toNat ≤ capital.toNat ∧ capital.toNat ≤ 'Z'.toNat ∧ small.toNat = capital.toNat + 32

/-- Equal, or the two cases of one ASCII letter. -/
def SameLetter (c d : Char) : Prop :=
  c = d ∨ IsCapitalOf c d ∨ IsCapitalOf d c

/-- Texts that differ at most in the case of ASCII letters. -/
def SameLetters (source other : String) : Prop :=
  List.Forall₂ SameLetter source.toList other.toList

instance : DecidableRel IsCapitalOf := fun _ _ => inferInstanceAs (Decidable (_ ∧ _ ∧ _))

instance : DecidableRel SameLetter := fun _ _ => inferInstanceAs (Decidable (_ ∨ _ ∨ _))

instance : DecidableRel SameLetters := fun _ _ => inferInstanceAs (Decidable (List.Forall₂ _ _ _))

/-- A lexeme in lower case. Only names have letters. -/
def Lexeme.lower : Lexeme → Lexeme
  | .numeral text => .numeral text
  | .name text => .name (text.map Char.toLower)
  | .symbol c => .symbol c
  | .blank c => .blank c

/-- The name that an error reports. -/
def SyntaxError.name? : SyntaxError → Option String
  | .unknownIdentifier name | .expectedArguments name => some name
  | .unbalancedParentheses | .misplacedSeparator => none

/-! ### Letters -/

theorem toLower_code (c : Char) :
    (65 ≤ c.toNat ∧ c.toNat ≤ 90 ∧ c.toLower.toNat = c.toNat + 32) ∨ (¬(65 ≤ c.toNat ∧ c.toNat ≤ 90) ∧ c.toLower = c) := by
  have capital := code_between c 'A' 'Z'
  unfold Char.toLower
  split
  · next upper =>
    obtain ⟨least, most⟩ := capital.mp upper
    have sum : (c.val + ('a'.val - 'A'.val)).toNat = (c.val.toNat + 32) % 2 ^ 32 := UInt32.toNat_add _ _
    have code : c.val.toNat ≤ 90 := most
    rw [Nat.mod_eq_of_lt (by omega)] at sum
    exact .inl ⟨least, most, sum⟩
  · next other => exact .inr ⟨mt capital.mpr other, rfl⟩

theorem toLower_toLower (c : Char) : c.toLower.toLower = c.toLower := by
  rcases toLower_code c with ⟨_, _, lower⟩ | ⟨_, same⟩
  · rcases toLower_code c.toLower with ⟨_, upper, _⟩ | ⟨_, same⟩
    · omega
    · exact same
  · rw [same, same]

/-- What has another lower case is a letter, and so is its lower case. -/
theorem toLower_letter (c : Char) : c.toLower = c ∨ startsName c = true ∧ startsName c.toLower = true := by
  rcases toLower_code c with ⟨least, most, lower⟩ | ⟨_, same⟩
  · have small : 97 ≤ c.toLower.toNat ∧ c.toLower.toNat ≤ 122 := by omega
    exact .inr ⟨isAlpha_code.mpr (.inl ⟨least, most⟩), isAlpha_code.mpr (.inr small)⟩
  · exact .inl same

theorem toLower_of_not_letter {c : Char} (other : startsName c = false) : c.toLower = c := by
  rcases toLower_letter c with same | ⟨letter, _⟩
  · exact same
  · rw [letter] at other
    cases other

theorem startsName_toLower (c : Char) : startsName c.toLower = startsName c := by
  rcases toLower_letter c with same | ⟨letter, small⟩
  · rw [same]
  · rw [letter, small]

theorem startsName_continues {c : Char} (starts : startsName c = true) : continuesName c = true := by
  have letter : c.isAlpha = true := starts
  rw [continuesName, Char.isAlphanum, letter, Bool.true_or, Bool.true_or]

theorem continuesName_toLower (c : Char) : continuesName c.toLower = continuesName c := by
  rcases toLower_letter c with same | ⟨letter, small⟩
  · rw [same]
  · rw [startsName_continues letter, startsName_continues small]

theorem isNumeralChar_toLower (c : Char) : isNumeralChar c.toLower = isNumeralChar c := by
  rcases toLower_letter c with same | ⟨letter, small⟩
  · rw [same]
  · rw [startsName_not_numeral letter, startsName_not_numeral small]

theorem utf8Size_toLower (c : Char) : c.toLower.utf8Size = c.utf8Size := by
  have ascii : ∀ d, startsName d = true → d.utf8Size = 1 := by
    intro d letter
    have code := isAlpha_code.mp letter
    have narrow : d.toNat ≤ 127 := by omega
    exact Char.utf8Size_eq_one_iff.mpr (UInt32.le_iff_toNat_le.mpr narrow)
  rcases toLower_letter c with same | ⟨letter, small⟩
  · rw [same]
  · rw [ascii _ letter, ascii _ small]

theorem SameLetter.toLower {c d : Char} (same : SameLetter c d) : c.toLower = d.toLower := by
  have lower : ∀ {capital small : Char}, IsCapitalOf capital small → capital.toLower = small.toLower := by
    intro capital small ⟨least, most, code⟩
    have first : 65 ≤ capital.toNat := least
    have last : capital.toNat ≤ 90 := most
    rcases toLower_code capital with ⟨_, _, lower⟩ | ⟨other, _⟩
    · rcases toLower_code small with ⟨_, upper, _⟩ | ⟨_, kept⟩
      · omega
      · rw [kept]
        exact Char.toNat_inj.mp (lower.trans code.symm)
    · exact absurd ⟨first, last⟩ other
  rcases same with rfl | capital | small
  · rfl
  · exact lower capital
  · exact (lower small).symm

theorem SameLetters.toLower {source other : String} (same : SameLetters source other) :
    source.toList.map Char.toLower = other.toList.map Char.toLower := by
  unfold SameLetters at same
  generalize source.toList = text at same
  generalize other.toList = written at same
  induction same with
  | nil => rfl
  | cons first _ ih => rw [List.map_cons, List.map_cons, first.toLower, ih]

/-! ### Lexemes and tokens -/

theorem byteLength_toLower (text : List Char) : byteLength (text.map Char.toLower) = byteLength text := by
  induction text with
  | nil => rfl
  | cons c rest ih => rw [List.map_cons, byteLength, byteLength, utf8Size_toLower, ih]

theorem map_toLower_numeral {text : List Char} (numeral : ∀ c ∈ text, isNumeralChar c = true) :
    text.map Char.toLower = text := by
  have kept : ∀ c ∈ text, c.toLower = id c := by
    intro c member
    refine toLower_of_not_letter (Bool.eq_false_iff.mpr fun letter => ?_)
    have other := startsName_not_numeral letter
    rw [numeral c member] at other
    cases other
  rw [List.map_congr_left kept, List.map_id]

theorem map_toLower_twice (text : List Char) : (text.map Char.toLower).map Char.toLower = text.map Char.toLower := by
  rw [List.map_map]
  exact List.map_congr_left fun c _ => toLower_toLower c

theorem continuesName_map_toLower {text : List Char} (continues : ∀ c ∈ text, continuesName c = true) :
    ∀ c ∈ text.map Char.toLower, continuesName c = true := by
  intro c member
  obtain ⟨d, inside, rfl⟩ := List.mem_map.mp member
  exact (continuesName_toLower d).trans (continues d inside)

theorem takeWhile_toLower {p : Char → Bool} (blind : ∀ c, p c.toLower = p c) (text : List Char) :
    (text.map Char.toLower).takeWhile p = (text.takeWhile p).map Char.toLower ∧
      (text.map Char.toLower).dropWhile p = (text.dropWhile p).map Char.toLower := by
  have same : p ∘ Char.toLower = p := funext blind
  rw [List.takeWhile_map, List.dropWhile_map, same]
  exact ⟨rfl, rfl⟩

/-- A text in lower case falls into its lexemes in lower case. -/
theorem lexemes_toLower (text : List Char) : lexemes (text.map Char.toLower) = (lexemes text).map Lexeme.lower := by
  induction text using lexemes.induct with
  | case1 =>
    have none : lexemes [] = [] := by rw [lexemes]
    rw [List.map_nil, none, List.map_nil]
  | case2 c rest numeral ih =>
    obtain ⟨taken, left⟩ := takeWhile_toLower isNumeralChar_toLower rest
    have run := map_toLower_numeral (List.forall_mem_cons.mpr ⟨numeral, forall_mem_takeWhile⟩ :
      ∀ d ∈ c :: rest.takeWhile isNumeralChar, isNumeralChar d = true)
    have starts := (isNumeralChar_toLower c).trans numeral
    rw [List.map_cons, lexemes, if_pos starts, taken, left, ih, ← List.map_cons, run]
    rw [lexemes, if_pos numeral, List.map_cons, Lexeme.lower]
  | case3 c rest numeral name ih =>
    obtain ⟨taken, left⟩ := takeWhile_toLower continuesName_toLower rest
    rw [List.map_cons, lexemes, isNumeralChar_toLower, startsName_toLower, if_neg numeral, if_pos name, taken, left, ih]
    rw [lexemes, if_neg numeral, if_pos name, List.map_cons, Lexeme.lower, List.map_cons]
  | case4 c rest numeral name blank ih =>
    have kept := toLower_of_not_letter (Bool.eq_false_iff.mpr name)
    rw [List.map_cons, kept, lexemes, if_neg numeral, if_neg name, if_pos blank, ih]
    rw [lexemes, if_neg numeral, if_neg name, if_pos blank, List.map_cons, Lexeme.lower]
  | case5 c rest numeral name blank ih =>
    have kept := toLower_of_not_letter (Bool.eq_false_iff.mpr name)
    rw [List.map_cons, kept, lexemes, if_neg numeral, if_neg name, if_neg blank, ih]
    rw [lexemes, if_neg numeral, if_neg name, if_neg blank, List.map_cons, Lexeme.lower]

/-- A lexeme in lower case takes as much room and is the same token, or has the same fault. -/
theorem Lexeme.lower_same (piece : Lexeme) (offset : Nat) :
    piece.lower.token? offset = piece.token? offset ∧ byteLength piece.lower.text = byteLength piece.text := by
  cases piece with
  | name text =>
    refine ⟨?_, byteLength_toLower text⟩
    rw [Lexeme.lower, Lexeme.token?, map_toLower_twice, Lexeme.token?]
  | numeral | symbol | blank => exact ⟨rfl, rfl⟩

theorem tokensFrom_lower (offset : Nat) (pieces : List Lexeme) :
    tokensFrom offset (pieces.map Lexeme.lower) = tokensFrom offset pieces := by
  induction pieces generalizing offset with
  | nil => rfl
  | cons piece rest ih =>
    obtain ⟨token, room⟩ := piece.lower_same offset
    rw [List.map_cons, tokensFrom, tokensFrom, token, room, ih]

theorem tokenize_toLower (source : String) :
    tokenize source = tokensFrom 0 (lexemes (source.toList.map Char.toLower)) := by
  rw [lexemes_toLower, tokensFrom_lower, tokenize]

/-! ### Names in errors -/

theorem ofSymbol?_not_name {c : Char} {name : String} : Token.ofSymbol? c ≠ some (.name name) := by
  intro symbol
  unfold Token.ofSymbol? at symbol
  split at symbol
  · cases symbol
  · cases symbol
  · cases symbol
  · obtain ⟨_, _, other⟩ := Option.map_eq_some_iff.mp symbol
    cases other

theorem Lexeme.token?_name {piece : Lexeme} {offset : Nat} {name : String}
    (read : piece.token? offset = .ok (some (.name name))) :
    ∃ written, piece = .name written ∧ name = .ofList (written.map Char.toLower) := by
  cases piece with
  | name text =>
    cases read
    exact ⟨text, rfl, rfl⟩
  | numeral text =>
    simp only [Lexeme.token?] at read
    split at read <;> cases read
  | symbol c =>
    simp only [Lexeme.token?] at read
    split at read
    · next symbol =>
      cases read
      exact absurd symbol ofSymbol?_not_name
    · cases read
  | blank => cases read

/-- A name is a token only if it is written in the text, in whatever case. -/
theorem tokensFrom_name {pieces : List Lexeme} {offset : Nat} {tokens : List Token} {name : String}
    (read : tokensFrom offset pieces = .ok tokens) (member : .name name ∈ tokens) :
    ∃ written, .name written ∈ pieces ∧ name = .ofList (written.map Char.toLower) := by
  induction pieces generalizing offset tokens with
  | nil =>
    cases read
    exact absurd member List.not_mem_nil
  | cons piece rest ih =>
    rw [tokensFrom] at read
    obtain ⟨token, first, read⟩ := bind_eq_ok.mp read
    obtain ⟨later, others, read⟩ := bind_eq_ok.mp read
    cases read
    rcases List.mem_append.mp member with here | after
    · cases Option.mem_toList.mp here
      obtain ⟨written, same, lower⟩ := Lexeme.token?_name first
      exact ⟨written, same ▸ List.mem_cons_self, lower⟩
    · obtain ⟨written, inside, lower⟩ := ih others after
      exact ⟨written, List.mem_cons_of_mem _ inside, lower⟩

theorem Conversion.read_blames {state : Conversion} {token : Token} {next : Option Token} {error : SyntaxError}
    {name : String} (failed : state.read token next = .error error) (blamed : error.name? = some name) :
    token = .name name := by
  cases token with
  | name text =>
    simp only [Conversion.read, Conversion.readName] at failed
    split at failed
    · split at failed
      · cases failed
      · cases failed
        cases blamed
        rfl
    · split at failed
      · cases failed
      · cases failed
        cases blamed
        rfl
  | operator op =>
    simp only [Conversion.read] at failed
    split at failed <;> cases failed
  | rightParen =>
    rcases bind_eq_error.mp failed with closed | ⟨_, _, other⟩
    · simp only [close] at closed
      split at closed
      · cases closed
      · cases closed
      · cases closed
        cases blamed
    · cases other
  | separator =>
    rcases bind_eq_error.mp failed with separated | ⟨_, _, other⟩
    · simp only [separate] at separated
      split at separated
      · cases separated
      · cases separated
        cases blamed
    · cases other
  | number | negate | leftParen | call | blank => cases failed

/-- A conversion blames no name but one of its tokens. -/
theorem Conversion.run_blames {state : Conversion} {tokens : List Token} {error : SyntaxError} {name : String}
    (failed : state.run tokens = .error error) (blamed : error.name? = some name) : .name name ∈ tokens := by
  induction tokens generalizing state with
  | nil =>
    simp only [Conversion.run, finish] at failed
    split at failed
    · cases failed
    · cases failed
      cases blamed
  | cons token rest ih =>
    rw [Conversion.run] at failed
    rcases bind_eq_error.mp failed with stepped | ⟨⟨later, _⟩, _, failed⟩
    · rcases bind_eq_error.mp stepped with read | ⟨_, _, other⟩
      · rw [Conversion.read_blames read blamed]
        exact List.mem_cons_self
      · cases other
    · rcases bind_eq_error.mp failed with ran | ⟨_, _, other⟩
      · exact List.mem_cons_of_mem _ (ih ran)
      · cases other

theorem evaluate_blames {source name : String} {error : SyntaxError}
    (failed : evaluate source = .error (.syntactic error)) (blamed : error.name? = some name) :
    ∃ written, .name written ∈ lexemes source.toList ∧ name = .ofList (written.map Char.toLower) := by
  cases evaluate_fails failed with
  | converting lexed converted => exact tokensFrom_name lexed (Conversion.run_blames converted blamed)

/-- Texts that differ only in the case of ASCII letters have the same tokens or the same fault at the same place, and
the same value or the same error. Whatever name an error reports is one of the text, in lower case. -/
theorem evaluate_ignores_case {source other : String} (same : SameLetters source other) :
    tokenize source = tokenize other ∧ evaluate source = evaluate other ∧
    ∀ error name, evaluate source = .error (.syntactic error) → error.name? = some name →
      ∃ written, .name written ∈ lexemes source.toList ∧ name = .ofList (written.map Char.toLower) := by
  have tokens : tokenize source = tokenize other := by
    rw [tokenize_toLower, same.toLower, ← tokenize_toLower]
  exact ⟨tokens, evaluate_of_tokens tokens, fun _ _ => evaluate_blames⟩

/-- The sign of kelvins is no letter of ASCII and stays what it is, and three bytes long. -/
theorem evaluate_ignores_case_kelvin :
    SameLetters "Sqrt(\u212a) * Bar" "sQRT(\u212a) * bAR" ∧
    tokenize "Sqrt(\u212a) * Bar" = .error (.unsupportedCharacter '\u212a' 5) ∧
    tokenize "sQRT(\u212a) * bAR" = .error (.unsupportedCharacter '\u212a' 5) ∧
    SameLetters "2LN(E) * BAR_1x" "2ln(e) * Bar_1X" ∧
    evaluate "2LN(E) * BAR_1x" = .error (.syntactic (.unknownIdentifier "bar_1x")) ∧
    evaluate "2ln(e) * Bar_1X" = .error (.syntactic (.unknownIdentifier "bar_1x")) ∧
    ∃ written, .name written ∈ lexemes "2LN(E) * BAR_1x".toList ∧ "bar_1x" = .ofList (written.map Char.toLower) := by
  have letters : SameLetters "Sqrt(\u212a) * Bar" "sQRT(\u212a) * bAR" := by decide +kernel
  have fault : tokenize "Sqrt(\u212a) * Bar" = .error (.unsupportedCharacter '\u212a' 5) := by decide +kernel
  have names : SameLetters "2LN(E) * BAR_1x" "2ln(e) * Bar_1X" := by decide +kernel
  have unknown : evaluate "2LN(E) * BAR_1x" = .error (.syntactic (.unknownIdentifier "bar_1x")) := by decide +kernel
  obtain ⟨tokens, _⟩ := evaluate_ignores_case letters
  obtain ⟨_, value, blamed⟩ := evaluate_ignores_case names
  exact ⟨letters, fault, tokens.symm.trans fault, names, unknown, value.symm.trans unknown, blamed _ _ unknown rfl⟩

end Calculator
