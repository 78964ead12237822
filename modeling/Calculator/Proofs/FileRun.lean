import Calculator.Proofs.Conservation
import Calculator.Proofs.JsonText
import Calculator.Proofs.LetterCase

namespace Calculator

/-!
A file is calculated line by line. What a line leaves depends on that line alone and is one line again, for readers of
results or of errors, so that the output of a file is put together from those of its parts.
-/

/-- What is shown of a value: the expression and its result. -/
def resultLine (expression : String) (value : Float) : String :=
  expression ++ " = " ++ plainStyle.text value

/-- What is shown of a failure: the expression, the kind and the message, and for faults of the text their place. -/
def errorLine (expression : String) : Failure → String
  | .lexical error => expression ++ ": lex error: " ++ error.message ++ " at byte " ++ error.offset.repr
  | .syntactic error => expression ++ ": syntax error: " ++ error.message
  | .arithmetic error => expression ++ ": evaluation error: " ++ error.message

/-- The line of an expression that has a value. -/
def resultLine? (expression : String) : Option String :=
  match evaluate expression with
  | .ok value => some (resultLine expression value)
  | .error _ => none

/-- The line of an expression that has none. -/
def errorLine? (expression : String) : Option String :=
  match evaluate expression with
  | .ok _ => none
  | .error failure => some (errorLine expression failure)

/-- The entry of an expression that is trimmed already. -/
def entryOf (description expression : String) : Entry where
  description := trim description
  expression := expression
  outcome := match evaluate expression with
    | .ok result => .success result
    | .error failure => .failure failure.stage failure.message

/-- What a run over a file prints, and whether it succeeds. -/
structure FileRun (settings : Settings) (text : String) (result : RunResult) : Prop where
  results : settings.json = false → Writes result.stdout ((listed text).filterMap resultLine?)
  errors : settings.json = false → Writes result.stderr ((listed text).filterMap errorLine?)
  entries : settings.json = true →
    Writes result.stdout ((listed text).map fun x => (entryOf settings.description x).json)
  silent : settings.json = true → result.stderr = ""
  succeeded : result.succeeded = true ↔ ∀ x ∈ listed text, ∃ value, evaluate x = .ok value

/-! ### Lines are lines -/

theorem OneLine.append {text more : String} (first : OneLine text) (second : OneLine more) : OneLine (text ++ more) := by
  rw [OneLine, String.toList_append]
  exact List.not_mem_append first second

theorem oneLine_numeral {text : List Char} (numeral : ∀ c ∈ text, isNumeralChar c = true) : '\n' ∉ text :=
  fun ending => absurd (numeral '\n' ending) (by decide)

theorem oneLine_plainText (x : Float) : OneLine (plainStyle.text x) := by
  rw [NumberStyle.text]
  split
  · rw [OneLine, String.toList_ofList, NumberStyle.finiteText]
    refine List.not_mem_append ?_ (oneLine_numeral fun _ => isNumeralChar_decimalText)
    split
    · decide
    · exact List.not_mem_nil
  · split
    · split
      · decide
      · decide
    · decide

theorem oneLine_function (f : Builtin) : OneLine f.name := by
  cases f with
  | sin | cos | tan | abs | sqrt | log | ln | pow => decide

theorem oneLine_evalError {error : EvalError} (known : ∀ text, error ≠ .unknownToken text) : OneLine error.message := by
  cases error with
  | insufficientOperands op =>
    cases op with
    | add | sub | mul | div | pow => decide
  | missingArgument f => exact .append (by decide) (oneLine_function f)
  | tooManyArguments f => exact .append (oneLine_function f) (by decide)
  | logOfNonPositive f => exact .append (oneLine_function f) (by decide)
  | unknownToken text => exact absurd rfl (known text)
  | missingUnaryOperand | divisionByZero | powArity | sqrtOfNegative | invalidExpression | notFinite => decide

/-- A fault of a text is a run of digits and points or a character that is no blank. -/
theorem oneLine_lexError {source : String} {error : LexError} (failed : tokenize source = .error error) :
    OneLine error.message := by
  obtain ⟨before, after, located⟩ := ((tokenize_partition source).2 error).mp failed
  have blames := located.blames
  generalize after.toList = text at blames
  cases blames with
  | invalidNumber _ numeral _ _ =>
    refine .append (by decide) ?_
    rw [OneLine, String.toList_ofList]
    exact oneLine_numeral numeral
  | @unsupportedCharacter c _ _ blank _ _ _ =>
    refine .append (by decide) fun ending => ?_
    rw [Char.toString, String.toList_singleton] at ending
    rw [← List.mem_singleton.mp ending] at blank
    exact absurd blank (by decide)

theorem Spells.continues {after text : List Char} {tokens : List Token} {name : String} (spelled : Spells after text tokens)
    (member : .name name ∈ tokens) : ∀ c ∈ name.toList, continuesName c = true := by
  induction spelled with
  | blanks => cases member
  | lexeme _ lexeme _ ih =>
    rcases List.mem_cons.mp member with here | later
    · cases here
      cases lexeme with
      | name starts continues =>
        rw [String.toList_ofList]
        exact continuesName_map_toLower (List.forall_mem_cons.mpr ⟨startsName_continues starts, continues⟩)
      | symbol known => exact absurd known ofSymbol?_not_name
    · exact ih later

/-- The names that a conversion blames are names of the text. -/
theorem oneLine_syntaxError {source : String} {tokens : List Token} {error : SyntaxError} (lexed : tokenize source = .ok tokens)
    (failed : toPostfix tokens = .error error) : OneLine error.message := by
  have spelled := ((tokenize_partition source).1 tokens).mp lexed
  have blamed : ∀ name, error.name? = some name → OneLine name := by
    intro name blamed ending
    have letter := spelled.continues (Conversion.run_blames failed blamed) '\n' ending
    exact absurd letter (by decide)
  cases error with
  | unbalancedParentheses | misplacedSeparator => decide
  | unknownIdentifier name => exact .append (by decide) (blamed name rfl)
  | expectedArguments name => exact .append (by decide) (blamed name rfl)

theorem oneLine_message {source : String} {failure : Failure} (failed : evaluate source = .error failure) :
    OneLine failure.message := by
  cases evaluate_fails failed with
  | lexing fault => exact oneLine_lexError fault
  | converting lexed converted => exact oneLine_syntaxError lexed converted
  | evaluating | rounding => exact oneLine_evalError fun text unknown => evaluate_not_unknownToken (unknown ▸ failed)

theorem oneLine_offset (n : Nat) : OneLine n.repr := by
  rw [OneLine, Nat.toList_repr]
  exact oneLine_numeral (isNumeralChar_digits n)

theorem oneLine_errorLine {expression : String} {failure : Failure} (plain : OneLine expression)
    (failed : evaluate expression = .error failure) : OneLine (errorLine expression failure) := by
  have message := oneLine_message failed
  cases failure with
  | lexical error => exact .append (.append (.append (.append plain (by decide)) message) (by decide)) (oneLine_offset _)
  | syntactic error => exact .append (.append plain (by decide)) message
  | arithmetic error => exact .append (.append plain (by decide)) message

theorem oneLine_resultLine {expression : String} (plain : OneLine expression) (value : Float) :
    OneLine (resultLine expression value) :=
  .append (.append plain (by decide)) (oneLine_plainText value)

/-! ### Runs over a file -/

section Run

variable {settings : Settings} {x : String}

/-- Observers are told of a listed line as it is. -/
theorem ofSubmission_listed {text : String} (member : x ∈ listed text) (description : String) :
    Notice.ofSubmission description x = ⟨entryOf description x, evaluate x⟩ := by
  rw [Notice.ofSubmission, listed_trimmed member]
  rfl

theorem isSuccess_iff (description x : String) :
    (entryOf description x).isSuccess = true ↔ ∃ value, evaluate x = .ok value := by
  rw [entryOf]
  cases evaluate x with
  | ok value => exact iff_of_true rfl ⟨value, rfl⟩
  | error failure => exact iff_of_false Bool.false_ne_true fun ⟨_, other⟩ => nomatch other

theorem run_listed (fromFile : settings.fromFile = true) (collector : Collector) (ip text : String) :
    settings.run collector ip (some text) = settings.evaluateAll collector ip (listed text) := by
  rw [Settings.run, if_pos fromFile, ← scriptExpressions_eq]

/-- A run over a file prints a line for each listed one, and succeeds if all of them do. -/
theorem run_file (fromFile : settings.fromFile = true) (collector : Collector) (ip text : String) :
    settings.run collector ip (some text) =
      ⟨(listed text).map fun x => Notice.printed settings ⟨entryOf settings.description x, evaluate x⟩,
        (listed text).all fun x => (entryOf settings.description x).isSuccess⟩ := by
  have told : (listed text).map (Notice.ofSubmission settings.description) =
      (listed text).map fun x => ⟨entryOf settings.description x, evaluate x⟩ :=
    List.map_congr_left fun x member => ofSubmission_listed member settings.description
  have printed := congrArg (List.map (Notice.printed settings)) told
  have succeeded := congrArg (List.all · fun notice => notice.entry.isSuccess) told
  rw [List.map_map, List.map_map] at printed
  rw [List.all_map, List.all_map] at succeeded
  rw [run_listed fromFile, evaluateAll_eq]
  exact congrArg₂ RunResult.mk printed succeeded

theorem shown_eq (expression : String) (failure : Failure) :
    expression ++ ": " ++ failure.shown = errorLine expression failure := by
  cases failure with
  | lexical error =>
    have title : ": lex error: " = ": " ++ ("lex error" ++ ": ") := rfl
    rw [errorLine, title]
    simp only [Failure.shown, Failure.stage, Stage.title, Failure.message, String.append_assoc]
  | syntactic error =>
    have title : ": syntax error: " = ": " ++ ("syntax error" ++ ": ") := rfl
    rw [errorLine, title]
    simp only [Failure.shown, Failure.stage, Stage.title, Failure.message, String.append_assoc, String.append_empty]
  | arithmetic error =>
    have title : ": evaluation error: " = ": " ++ ("evaluation error" ++ ": ") := rfl
    rw [errorLine, title]
    simp only [Failure.shown, Failure.stage, Stage.title, Failure.message, String.append_assoc, String.append_empty]

theorem printed_plain (fromFile : settings.fromFile = true) (plain : settings.json = false) (description x : String) :
    Notice.printed settings ⟨entryOf description x, evaluate x⟩ =
      match evaluate x with
      | .ok value => .out (resultLine x value)
      | .error failure => .err (errorLine x failure) := by
  rw [Notice.printed, plain, if_neg Bool.false_ne_true]
  cases evaluate x with
  | ok value => exact congrArg Printed.out (if_pos fromFile)
  | error failure => exact congrArg Printed.err (shown_eq x failure)

/-- Every listed line leaves a line for readers of results or one for readers of errors. -/
theorem plain_lines (fromFile : settings.fromFile = true) (plain : settings.json = false) (collector : Collector)
    (ip text : String) :
    (settings.run collector ip (some text)).printed.filterMap Printed.result? = (listed text).filterMap resultLine? ∧
      (settings.run collector ip (some text)).printed.filterMap Printed.error? = (listed text).filterMap errorLine? := by
  rw [run_file fromFile, List.filterMap_map, List.filterMap_map]
  constructor
  · refine List.filterMap_congr fun x _ => ?_
    rw [Function.comp_apply, printed_plain fromFile plain, resultLine?]
    cases evaluate x with
    | ok | error => rfl
  · refine List.filterMap_congr fun x _ => ?_
    rw [Function.comp_apply, printed_plain fromFile plain, errorLine?]
    cases evaluate x with
    | ok | error => rfl

theorem oneLine_results {text line : String} (member : line ∈ (listed text).filterMap resultLine?) : OneLine line := by
  obtain ⟨x, inside, written⟩ := List.mem_filterMap.mp member
  rw [resultLine?] at written
  cases run : evaluate x with
  | ok value =>
    rw [run] at written
    cases written
    exact oneLine_resultLine (listed_oneLine inside) value
  | error failure =>
    rw [run] at written
    cases written

theorem oneLine_errors {text line : String} (member : line ∈ (listed text).filterMap errorLine?) : OneLine line := by
  obtain ⟨x, inside, written⟩ := List.mem_filterMap.mp member
  rw [errorLine?] at written
  cases run : evaluate x with
  | ok value =>
    rw [run] at written
    cases written
  | error failure =>
    rw [run] at written
    cases written
    exact oneLine_errorLine (listed_oneLine inside) run

theorem json_lines (fromFile : settings.fromFile = true) (json : settings.json = true) (collector : Collector)
    (ip text : String) :
    Writes (settings.run collector ip (some text)).stdout
        ((listed text).map fun x => (entryOf settings.description x).json) ∧
      (settings.run collector ip (some text)).stderr = "" := by
  rw [run_listed fromFile]
  constructor
  · have entries : (listed text).map (fun x => (Notice.ofSubmission settings.description x).entry.json) =
        (listed text).map fun x => (entryOf settings.description x).json :=
      List.map_congr_left fun x member => congrArg (·.entry.json) (ofSubmission_listed member settings.description)
    rw [← entries]
    exact writes_json json collector ip (listed text)
  · rw [stderr_eq, printed_json json, List.filterMap_map]
    have silent : ∀ x ∈ listed text,
        (Printed.error? ∘ fun x => .out (Notice.ofSubmission settings.description x).entry.json) x = none := fun _ _ => rfl
    rw [List.filterMap_eq_nil_iff.mpr silent]
    rfl

theorem fileRun (fromFile : settings.fromFile = true) (collector : Collector) (ip text : String) :
    FileRun settings text (settings.run collector ip (some text)) where
  results plain := by
    rw [stdout_eq, (plain_lines fromFile plain collector ip text).1]
    exact .of_oneLine fun _ => oneLine_results
  errors plain := by
    rw [stderr_eq, (plain_lines fromFile plain collector ip text).2]
    exact .of_oneLine fun _ => oneLine_errors
  entries json := (json_lines fromFile json collector ip text).1
  silent json := (json_lines fromFile json collector ip text).2
  succeeded := by
    rw [run_file fromFile, List.all_eq_true]
    exact forall₂_congr fun x _ => isSuccess_iff settings.description x

/-- What is printed for two files, the first one with the end of its last line, is what is printed for each of them. -/
theorem run_joined (fromFile : settings.fromFile = true) (collector : Collector) (ip first second : String) :
    (settings.run collector ip (some (first ++ "\n" ++ second))).printed =
        (settings.run collector ip (some first)).printed ++ (settings.run collector ip (some second)).printed ∧
      (settings.run collector ip (some (first ++ "\n" ++ second))).succeeded =
        ((settings.run collector ip (some first)).succeeded && (settings.run collector ip (some second)).succeeded) := by
  rw [run_file fromFile, run_file fromFile, run_file fromFile, listed_append]
  exact ⟨List.map_append, List.all_append⟩

/-- A file is calculated line by line: its listed lines, in order, leave one line each. Without JSON those with a value
are shown to readers of results and the others to readers of errors, faults of the text with their place; with JSON there
are the entries and no errors. The run succeeds if all listed lines have a value. So the output of two files is that of
the first one and then that of the second, and they succeed together if each of them does. -/
theorem file_run_by_lines (fromFile : settings.fromFile = true) (collector : Collector) (ip : String) :
    (∀ text, FileRun settings text (settings.run collector ip (some text))) ∧
    ∀ first second : String,
      (settings.run collector ip (some (first ++ "\n" ++ second))).stdout =
        (settings.run collector ip (some first)).stdout ++ (settings.run collector ip (some second)).stdout ∧
      (settings.run collector ip (some (first ++ "\n" ++ second))).stderr =
        (settings.run collector ip (some first)).stderr ++ (settings.run collector ip (some second)).stderr ∧
      ((settings.run collector ip (some (first ++ "\n" ++ second))).succeeded = true ↔
        (settings.run collector ip (some first)).succeeded = true ∧
          (settings.run collector ip (some second)).succeeded = true) := by
  refine ⟨fileRun fromFile collector ip, fun first second => ?_⟩
  obtain ⟨printed, succeeded⟩ := run_joined fromFile collector ip first second
  refine ⟨?_, ?_, ?_⟩
  · rw [stdout_eq, printed, List.filterMap_append, List.map_append, join_append, ← stdout_eq, ← stdout_eq]
  · rw [stderr_eq, printed, List.filterMap_append, List.map_append, join_append, ← stderr_eq, ← stderr_eq]
  · rw [succeeded, Bool.and_eq_true]

end Run

/-- A comment, blank lines, both ends of lines and a last line without one, in two files that are put together. -/
theorem file_run_by_lines_mixed :
    (Settings.run ⟨true, "", false, none, 10, "script"⟩ unreachable ""
      (some ("# sums\r\n 1+1\r\n\r\n2 $ 3" ++ "\n" ++ "1/0\n\t2*4"))).stdout = "1+1 = 2\n" ++ "2*4 = 8\n" ∧
    Writes (Settings.run ⟨true, "", false, none, 10, "script"⟩ unreachable "" (some "# sums\r\n 1+1\r\n\r\n2 $ 3")).stderr
      ["2 $ 3: lex error: unsupported character: $ at byte 2"] ∧
    (Settings.run ⟨true, "", false, none, 10, "script"⟩ unreachable "" (some "1/0\n\t2*4")).succeeded = false := by
  have fromFile : (⟨true, "", false, none, 10, "script"⟩ : Settings).fromFile = true := rfl
  obtain ⟨byLines, joined⟩ := file_run_by_lines fromFile unreachable ""
  have first := byLines "# sums\r\n 1+1\r\n\r\n2 $ 3"
  have second := byLines "1/0\n\t2*4"
  have firstResults : (listed "# sums\r\n 1+1\r\n\r\n2 $ 3").filterMap resultLine? = ["1+1 = 2"] := by decide +kernel
  have firstErrors : (listed "# sums\r\n 1+1\r\n\r\n2 $ 3").filterMap errorLine? =
      ["2 $ 3: lex error: unsupported character: $ at byte 2"] := by decide +kernel
  have secondResults : (listed "1/0\n\t2*4").filterMap resultLine? = ["2*4 = 8"] := by decide +kernel
  refine ⟨?_, ?_, ?_⟩
  · rw [(joined _ _).1, (first.results rfl).text, (second.results rfl).text, firstResults, secondResults]
    rfl
  · rw [← firstErrors]
    exact first.errors rfl
  · refine Bool.eq_false_iff.mpr fun succeeded => ?_
    have listed : "1/0" ∈ listed "1/0\n\t2*4" := by decide +kernel
    obtain ⟨value, run⟩ := second.succeeded.mp succeeded "1/0" listed
    have fails : evaluate "1/0" = .error (.arithmetic .divisionByZero) := by decide +kernel
    rw [fails] at run
    cases run

end Calculator
