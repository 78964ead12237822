import Calculator.Evaluation
import Calculator.Proofs.Spelling

namespace Calculator

/-!
Blanks keep texts apart. What stands before a blank is read as if the text ended there, and what stands behind
it as if the text began there, at another place. So only the words of a text count.
-/

/-- The same fault at another place. -/
def LexError.relocate (offset : Nat) : LexError → LexError
  | .invalidNumber text _ => .invalidNumber text offset
  | .unsupportedCharacter character _ => .unsupportedCharacter character offset

def Failure.relocate (offset : Nat) : Failure → Failure
  | .lexical error => .lexical (error.relocate offset)
  | .syntactic error => .syntactic error
  | .arithmetic error => .arithmetic error

/-- What stands between the blanks of a text. -/
def words (text : List Char) : List (List Char) :=
  (text.splitOnP isBlank).filter (· ≠ [])

/-! ### Lexemes end at blanks -/

theorem takeWhile_stop {p : Char → Bool} {c : Char} (stops : p c = false) (text after : List Char) :
    (text ++ c :: after).takeWhile p = text.takeWhile p ∧
      (text ++ c :: after).dropWhile p = text.dropWhile p ++ c :: after := by
  induction text with
  | nil =>
    rw [List.nil_append, List.takeWhile_cons_of_neg (by simp [stops]), List.dropWhile_cons_of_neg (by simp [stops])]
    exact ⟨rfl, rfl⟩
  | cons d rest ih =>
    cases goes : p d with
    | true =>
      rw [List.cons_append, List.takeWhile_cons_of_pos goes, List.takeWhile_cons_of_pos goes,
        List.dropWhile_cons_of_pos goes, List.dropWhile_cons_of_pos goes, ih.1, ih.2]
      exact ⟨rfl, rfl⟩
    | false =>
      have stopsHere : ¬p d = true := by simp [goes]
      rw [List.cons_append, List.takeWhile_cons_of_neg stopsHere, List.takeWhile_cons_of_neg stopsHere,
        List.dropWhile_cons_of_neg stopsHere, List.dropWhile_cons_of_neg stopsHere]
      exact ⟨rfl, rfl⟩

/-- No lexeme goes on over a blank, so a text before one falls into the lexemes that it has alone. -/
theorem lexemes_append_blank {c : Char} (blank : isBlank c = true) (text after : List Char) :
    lexemes (text ++ c :: after) = lexemes text ++ lexemes (c :: after) := by
  obtain ⟨noNumeral, _⟩ := isBlank_starts_nothing blank
  have noName := isBlank_continues_nothing blank
  induction text using lexemes.induct with
  | case1 =>
    have none : lexemes [] = [] := by rw [lexemes]
    rw [none, List.nil_append, List.nil_append]
  | case2 d rest numeral ih =>
    obtain ⟨taken, left⟩ := takeWhile_stop noNumeral rest after
    rw [List.cons_append, lexemes, if_pos numeral, taken, left, ih]
    generalize lexemes (c :: after) = behind
    rw [lexemes, if_pos numeral, List.cons_append]
  | case3 d rest numeral name ih =>
    obtain ⟨taken, left⟩ := takeWhile_stop noName rest after
    rw [List.cons_append, lexemes, if_neg numeral, if_pos name, taken, left, ih]
    generalize lexemes (c :: after) = behind
    rw [lexemes, if_neg numeral, if_pos name, List.cons_append]
  | case4 d rest numeral name here ih =>
    rw [List.cons_append, lexemes, if_neg numeral, if_neg name, if_pos here, ih]
    generalize lexemes (c :: after) = behind
    rw [lexemes, if_neg numeral, if_neg name, if_pos here, List.cons_append]
  | case5 d rest numeral name here ih =>
    rw [List.cons_append, lexemes, if_neg numeral, if_neg name, if_neg here, ih]
    generalize lexemes (c :: after) = behind
    rw [lexemes, if_neg numeral, if_neg name, if_neg here, List.cons_append]

/-- Nothing of a text is lost in its lexemes. -/
theorem lexemes_text (text : List Char) : (lexemes text).flatMap Lexeme.text = text := by
  induction text using lexemes.induct with
  | case1 => rw [lexemes, List.flatMap_nil]
  | case2 c rest numeral ih =>
    rw [lexemes, if_pos numeral, List.flatMap_cons, ih, Lexeme.text, List.cons_append, List.takeWhile_append_dropWhile]
  | case3 c rest numeral name ih =>
    rw [lexemes, if_neg numeral, if_pos name, List.flatMap_cons, ih, Lexeme.text, List.cons_append,
      List.takeWhile_append_dropWhile]
  | case4 c rest numeral name blank ih =>
    rw [lexemes, if_neg numeral, if_neg name, if_pos blank, List.flatMap_cons, ih, Lexeme.text, List.singleton_append]
  | case5 c rest numeral name blank ih =>
    rw [lexemes, if_neg numeral, if_neg name, if_neg blank, List.flatMap_cons, ih, Lexeme.text, List.singleton_append]

/-! ### Tokens of texts in a row -/

/-- The tokens of one text and then those of another. -/
def joined (first second : Except LexError (List Token)) : Except LexError (List Token) := do
  let tokens ← first
  let others ← second
  return tokens ++ others

theorem joined_nil (tokens : Except LexError (List Token)) : joined tokens (.ok []) = tokens := by
  cases tokens with
  | error => rfl
  | ok tokens => exact congrArg Except.ok tokens.append_nil

theorem nil_joined (tokens : Except LexError (List Token)) : joined (.ok []) tokens = tokens := by
  cases tokens with
  | error | ok => rfl

theorem joined_assoc (first second third : Except LexError (List Token)) :
    joined (joined first second) third = joined first (joined second third) := by
  cases first with
  | error => rfl
  | ok tokens =>
    cases second with
    | error => rfl
    | ok others =>
      cases third with
      | error => rfl
      | ok more => exact congrArg Except.ok (List.append_assoc tokens others more)

theorem joined_mapError (f : LexError → LexError) (first second : Except LexError (List Token)) :
    (joined first second).mapError f = joined (first.mapError f) (second.mapError f) := by
  cases first with
  | error => rfl
  | ok tokens =>
    cases second with
    | error | ok => rfl

theorem tokensFrom_eq_joined (offset : Nat) (piece : Lexeme) (rest : List Lexeme) :
    tokensFrom offset (piece :: rest) =
      joined ((piece.token? offset).map Option.toList) (tokensFrom (offset + byteLength piece.text) rest) := by
  rw [tokensFrom]
  cases piece.token? offset with
  | error | ok => rfl

theorem tokensFrom_append (offset : Nat) (first second : List Lexeme) :
    tokensFrom offset (first ++ second) =
      joined (tokensFrom offset first) (tokensFrom (offset + byteLength (first.flatMap Lexeme.text)) second) := by
  induction first generalizing offset with
  | nil => exact (nil_joined _).symm
  | cons piece rest ih =>
    rw [List.cons_append, tokensFrom_eq_joined, ih, tokensFrom_eq_joined, joined_assoc, List.flatMap_cons,
      byteLength_append, Nat.add_assoc]

theorem tokensFrom_add (before offset : Nat) (pieces : List Lexeme) :
    tokensFrom (before + offset) pieces =
      (tokensFrom offset pieces).mapError fun error => error.relocate (before + error.offset) := by
  induction pieces generalizing offset with
  | nil => rfl
  | cons piece rest ih =>
    have first : (piece.token? (before + offset)).map Option.toList =
        ((piece.token? offset).map Option.toList).mapError fun error => error.relocate (before + error.offset) := by
      cases piece with
      | numeral text =>
        simp only [Lexeme.token?]
        split <;> rfl
      | symbol c =>
        simp only [Lexeme.token?]
        split <;> rfl
      | name | blank => rfl
    rw [tokensFrom_eq_joined, first, Nat.add_assoc, ih, ← joined_mapError, ← tokensFrom_eq_joined]

/-- A text before a gap and a text behind it are read one after the other. -/
theorem tokensFrom_append_gap {gap : List Char} (some : gap ≠ []) (blank : AllBlank gap) (text after : List Char) :
    tokensFrom 0 (lexemes (text ++ gap ++ after)) = joined (tokensFrom 0 (lexemes text))
      ((tokensFrom 0 (lexemes after)).mapError fun error => error.relocate (byteLength (text ++ gap) + error.offset)) := by
  have apart : lexemes (text ++ gap ++ after) = lexemes text ++ (gap.map Lexeme.blank ++ lexemes after) := by
    rw [← lexemes_blanks blank, List.append_assoc]
    cases gap with
    | nil => exact absurd rfl some
    | cons c more => exact lexemes_append_blank (blank c List.mem_cons_self) text (more ++ after)
  have behind := tokensFrom_add (byteLength (text ++ gap)) 0 (lexemes after)
  rw [apart, tokensFrom_append, lexemes_text, tokensFrom_blanks, Nat.zero_add, ← byteLength_append, ← behind, Nat.add_zero]

theorem tokenize_append_gap {gap : String} (some : gap ≠ "") (blank : AllBlank gap.toList) (source other : String) :
    tokenize (source ++ gap ++ other) = joined (tokenize source)
      ((tokenize other).mapError fun error => error.relocate ((source ++ gap).utf8ByteSize + error.offset)) := by
  have nonempty : gap.toList ≠ [] := mt String.toList_eq_nil_iff.mp some
  rw [tokenize, String.toList_append, String.toList_append, tokensFrom_append_gap nonempty blank, ← String.toList_append,
    ← byteLength_ofList, String.ofList_toList]
  rfl

/-! ### Only words count -/

/-- What the tokens of a text are, or its fault, but not where. -/
def unplaced (text : List Char) : Except LexError (List Token) :=
  (tokensFrom 0 (lexemes text)).mapError (·.relocate 0)

theorem relocate_relocate (error : LexError) (first second : Nat) :
    (error.relocate first).relocate second = error.relocate second := by
  cases error with
  | invalidNumber | unsupportedCharacter => rfl

theorem unplaced_append_blank {c : Char} (blank : isBlank c = true) (text after : List Char) :
    unplaced (text ++ c :: after) = joined (unplaced text) (unplaced after) := by
  have apart := @tokensFrom_append_gap [c] (List.cons_ne_nil c []) (List.forall_mem_singleton.mpr blank) text after
  rw [List.append_assoc, List.singleton_append] at apart
  rw [unplaced, apart, joined_mapError, unplaced, unplaced]
  cases tokensFrom 0 (lexemes after) with
  | error error => exact congrArg (joined _ ∘ Except.error) (relocate_relocate error _ _)
  | ok tokens => rfl

/-- The tokens of all words, one word after the other. -/
def wordTokens (parts : List (List Char)) : Except LexError (List Token) :=
  parts.foldr (fun word rest => joined (unplaced word) rest) (.ok [])

theorem wordTokens_append (parts others : List (List Char)) :
    wordTokens (parts ++ others) = joined (wordTokens parts) (wordTokens others) := by
  induction parts with
  | nil => exact (nil_joined _).symm
  | cons word rest ih =>
    change joined (unplaced word) (wordTokens (rest ++ others)) = joined (joined (unplaced word) (wordTokens rest)) _
    rw [ih, joined_assoc]

theorem wordTokens_filter (parts : List (List Char)) : wordTokens (parts.filter (· ≠ [])) = wordTokens parts := by
  induction parts with
  | nil => rfl
  | cons word rest ih =>
    cases word with
    | nil =>
      have none : lexemes [] = [] := by rw [lexemes]
      rw [List.filter_cons_of_neg (by simp), ih]
      change _ = joined (unplaced []) (wordTokens rest)
      rw [unplaced, none]
      exact (nil_joined _).symm
    | cons c more =>
      rw [List.filter_cons_of_pos (by simp)]
      exact congrArg (joined _) ih

theorem unplaced_eq_wordTokens (text : List Char) : unplaced text = wordTokens (words text) := by
  rw [words, wordTokens_filter]
  induction size : text.length using Nat.strongRecOn generalizing text with
  | ind size ih =>
    by_cases some : ∃ c ∈ text, isBlank c = true
    · obtain ⟨c, member, blank⟩ := some
      obtain ⟨before, after, rfl⟩ := List.append_of_mem member
      rw [List.length_append, List.length_cons] at size
      rw [unplaced_append_blank blank, List.splitOnP_append_cons before after blank, wordTokens_append,
        ih before.length (by omega) before rfl, ih after.length (by omega) after rfl]
    · have none : ∀ c ∈ text, isBlank c = false := fun c member => Bool.eq_false_iff.mpr fun blank => some ⟨c, member, blank⟩
      rw [List.splitOnP_eq_singleton none]
      exact (joined_nil _).symm

theorem words_append_blank {c : Char} (blank : isBlank c = true) (text after : List Char) :
    words (text ++ c :: after) = words text ++ words after := by
  rw [words, List.splitOnP_append_cons text after blank, List.filter_append, words, words]

theorem words_gap_append {gap : List Char} (blank : AllBlank gap) (text : List Char) : words (gap ++ text) = words text := by
  induction gap with
  | nil => rfl
  | cons c rest ih =>
    obtain ⟨here, others⟩ := List.forall_mem_cons.mp blank
    have split := words_append_blank here [] (rest ++ text)
    rw [ih others] at split
    exact split

theorem words_append_gap {gap : List Char} (blank : AllBlank gap) (text : List Char) : words (text ++ gap) = words text := by
  cases gap with
  | nil => rw [List.append_nil]
  | cons c rest =>
    obtain ⟨here, others⟩ := List.forall_mem_cons.mp blank
    have none := words_gap_append others []
    rw [List.append_nil] at none
    rw [words_append_blank here, none]
    exact List.append_nil _

theorem words_trim (source : String) : words (trim source).toList = words source.toList := by
  have before : AllBlank (source.toList.takeWhile isBlank) := forall_mem_takeWhile
  have left := words_gap_append before (source.toList.dropWhile isBlank)
  rw [List.takeWhile_append_dropWhile] at left
  rw [trim, String.toList_ofList, trimBlanks, left]
  generalize source.toList.dropWhile isBlank = rest
  have behind : AllBlank (rest.reverse.takeWhile isBlank).reverse := fun c member =>
    forall_mem_takeWhile c (List.mem_reverse.mp member)
  have right := words_append_gap behind (rest.reverse.dropWhile isBlank).reverse
  rw [← List.reverse_append, List.takeWhile_append_dropWhile, List.reverse_reverse] at right
  exact right.symm

/-- The first stage decides with its tokens alone, or with its fault. -/
theorem evaluate_of_tokens {source other : String} (same : tokenize source = tokenize other) :
    evaluate source = evaluate other := by
  rw [evaluate, postfixOf, same]
  rfl

theorem evaluate_of_fault {source : String} {error : LexError} (failed : tokenize source = .error error) :
    evaluate source = .error (.lexical error) := by
  rw [evaluate, postfixOf, failed]
  rfl

theorem same_but_place {source other : String} (same : words source.toList = words other.toList) :
    (tokenize source).mapError (·.relocate 0) = (tokenize other).mapError (·.relocate 0) ∧
      (evaluate source).mapError (·.relocate 0) = (evaluate other).mapError (·.relocate 0) := by
  have alike : (tokenize source).mapError (·.relocate 0) = (tokenize other).mapError (·.relocate 0) := by
    have first := unplaced_eq_wordTokens source.toList
    rw [same, ← unplaced_eq_wordTokens] at first
    exact first
  refine ⟨alike, ?_⟩
  cases read : tokenize source with
  | ok tokens =>
    rw [read] at alike
    rw [evaluate_of_tokens (read.trans (mapError_eq_ok.mp alike.symm).symm)]
  | error error =>
    rw [read] at alike
    obtain ⟨fault, failed, place⟩ := mapError_eq_error.mp alike.symm
    rw [evaluate_of_fault read, evaluate_of_fault failed]
    exact congrArg (Except.error ∘ Failure.lexical) place.symm

/-- Blanks between two texts keep them apart: the one is read and then the other, and a fault of the other lies as
much further on as stands before it. So texts with the same words have the same tokens and the same result, or the
same fault, be it at another place; trimming leaves the words as they are. -/
theorem tokenize_separated :
    (∀ source gap other : String, gap ≠ "" → AllBlank gap.toList →
      (∀ tokens more, tokenize source = .ok tokens → tokenize other = .ok more →
        tokenize (source ++ gap ++ other) = .ok (tokens ++ more)) ∧
      (∀ error, tokenize source = .error error → tokenize (source ++ gap ++ other) = .error error) ∧
      ∀ tokens error, tokenize source = .ok tokens → tokenize other = .error error →
        tokenize (source ++ gap ++ other) = .error (error.relocate ((source ++ gap).utf8ByteSize + error.offset))) ∧
    (∀ source : String, words (trim source).toList = words source.toList) ∧
    ∀ source other : String, words source.toList = words other.toList →
      (tokenize source).mapError (·.relocate 0) = (tokenize other).mapError (·.relocate 0) ∧
      (evaluate source).mapError (·.relocate 0) = (evaluate other).mapError (·.relocate 0) := by
  refine ⟨fun source gap other some blank => ?_, words_trim, fun source other => same_but_place⟩
  have apart := tokenize_append_gap some blank source other
  refine ⟨fun tokens more read readToo => ?_, fun error failed => ?_, fun tokens error read failed => ?_⟩
  · rw [apart, read, readToo]
    rfl
  · rw [apart, failed]
    rfl
  · rw [apart, read, failed]
    rfl

/-- An ideographic space takes three bytes. Without it the two numerals would be one. -/
theorem tokenize_separated_by_wide_blank :
    "\u3000" ≠ "" ∧ AllBlank "\u3000".toList ∧ tokenize "2" = .ok [.number 2] ∧ tokenize ".5" = .ok [.number 0.5] ∧
    tokenize "2\u3000.5" = .ok [.number 2, .number 0.5] ∧ tokenize "1..2" = .error (.invalidNumber "1..2" 0) ∧
    tokenize "1..2\u30002" = .error (.invalidNumber "1..2" 0) ∧
    tokenize "2\u30001..2" = .error (.invalidNumber "1..2" 4) ∧
    words "2 * 3".toList = words "2\t*\u3000\n3 ".toList ∧
    (evaluate "2 * 3").mapError (·.relocate 0) = (evaluate "2\t*\u3000\n3 ").mapError (·.relocate 0) := by
  have some : "\u3000" ≠ "" := by decide +kernel
  have blank : AllBlank "\u3000".toList := by
    have space : "\u3000".toList = ['\u3000'] := rfl
    rw [space]
    exact List.forall_mem_singleton.mpr (by decide)
  have two : tokenize "2" = .ok [.number 2] := by decide +kernel
  have half : tokenize ".5" = .ok [.number 0.5] := by decide +kernel
  have fault : tokenize "1..2" = .error (.invalidNumber "1..2" 0) := by decide +kernel
  have same : words "2 * 3".toList = words "2\t*\u3000\n3 ".toList := by decide +kernel
  have both := (tokenize_separated.1 "2" "\u3000" ".5" some blank).1 _ _ two half
  have first := (tokenize_separated.1 "1..2" "\u3000" "2" some blank).2.1 _ fault
  have second := (tokenize_separated.1 "2" "\u3000" "1..2" some blank).2.2 _ _ two fault
  have alike := (tokenize_separated.2.2 _ _ same).2
  exact ⟨some, blank, two, half, both, fault, first, second, same, alike⟩

end Calculator
