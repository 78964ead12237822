import Calculator.Proofs.JsonNumber
import Calculator.Proofs.RunOutput

namespace Calculator

/-!
Documents tell what was written. Each character of a string ends where its text says, so do strings at their quotes
and numbers at the next mark; an object is then read field by field.
-/

/-- One text is told from another, and from what follows it. -/
def PrefixFree {α : Type} (write : α → List Char) : Prop :=
  ∀ a b after rest, write a ++ after = write b ++ rest → a = b ∧ after = rest

/-! ### Strings -/

/-- The characters that are escaped. -/
def escapedChars : List Char :=
  '"' :: '\\' :: (List.range 32).map Char.ofNat

variable {c d : Char}

theorem mem_escapedChars (low : c.toNat < 32) : c ∈ escapedChars :=
  List.mem_cons_of_mem _ (List.mem_cons_of_mem _
    (List.mem_map.mpr ⟨c.toNat, List.mem_range.mpr low, Char.ofNat_toNat c⟩))

/-- All other characters stand for themselves. -/
theorem jsonChar_plain (plain : c ∉ escapedChars) : jsonChar c = [c] := by
  have quote : c ≠ '"' := fun same => plain (same ▸ (by decide : '"' ∈ escapedChars))
  have slash : c ≠ '\\' := fun same => plain (same ▸ (by decide : '\\' ∈ escapedChars))
  have high : ∀ d : Char, d.toNat < 32 → c ≠ d := fun d low same => plain (mem_escapedChars (same ▸ low))
  rw [jsonChar, if_neg (not_or.mpr ⟨quote, slash⟩), if_neg (high _ (by decide)), if_neg (high _ (by decide)),
    if_neg (high _ (by decide)), if_neg (high _ (by decide)), if_neg (high _ (by decide)),
    if_neg fun low => plain (mem_escapedChars low)]

theorem jsonChar_escaped (escaped : c ∈ escapedChars) : ∃ rest, jsonChar c = '\\' :: rest := by
  have heads : (escapedChars.all fun c => (jsonChar c).head? == some '\\') = true := by decide +kernel
  exact ⟨_, List.eq_cons_of_mem_head? (eq_of_beq (List.all_eq_true.mp heads c escaped))⟩

/-- No escape is the start of another one. -/
theorem escapes_apart (escaped : c ∈ escapedChars) (also : d ∈ escapedChars) (start : jsonChar c <+: jsonChar d) : c = d := by
  have apart : (escapedChars.all fun c => escapedChars.all fun d => !(jsonChar c).isPrefixOf (jsonChar d) || c == d) = true := by
    decide +kernel
  have pair := List.all_eq_true.mp (List.all_eq_true.mp apart c escaped) d also
  rw [List.isPrefixOf_iff_prefix.mpr start] at pair
  exact eq_of_beq pair

theorem jsonChar_prefixFree : PrefixFree jsonChar := by
  have slash : '\\' ∈ escapedChars := by decide
  intro c d after rest same
  -- Only escapes start with a backslash, so that both are escaped or none is.
  have equal : c = d := by
    by_cases escaped : c ∈ escapedChars
    · obtain ⟨behind, first⟩ := jsonChar_escaped escaped
      by_cases also : d ∈ escapedChars
      · have start : jsonChar c <+: jsonChar d ++ rest := ⟨after, same⟩
        rcases List.prefix_or_prefix_of_prefix start (List.prefix_append _ _) with before | before
        · exact escapes_apart escaped also before
        · exact (escapes_apart also escaped before).symm
      · rw [first, jsonChar_plain also] at same
        exact absurd slash (List.head_eq_of_cons_eq same ▸ also)
    · rw [jsonChar_plain escaped] at same
      by_cases also : d ∈ escapedChars
      · obtain ⟨behind, first⟩ := jsonChar_escaped also
        rw [first] at same
        exact absurd slash (List.head_eq_of_cons_eq same ▸ escaped)
      · rw [jsonChar_plain also] at same
        exact List.head_eq_of_cons_eq same
  rw [equal] at same
  exact ⟨equal, List.append_cancel_left same⟩

/-- The quote that ends a string is the first one that stands for itself. -/
theorem jsonChar_not_quote (c : Char) (rest after : List Char) : '"' :: rest ≠ jsonChar c ++ after := by
  intro same
  by_cases escaped : c ∈ escapedChars
  · obtain ⟨behind, first⟩ := jsonChar_escaped escaped
    rw [first] at same
    exact absurd (List.head_eq_of_cons_eq same) (by decide)
  · rw [jsonChar_plain escaped] at same
    have quote : c = '"' := (List.head_eq_of_cons_eq same).symm
    exact escaped (quote ▸ (by decide : '"' ∈ escapedChars))

theorem content_injective {text other after rest : List Char}
    (same : text.flatMap jsonChar ++ '"' :: after = other.flatMap jsonChar ++ '"' :: rest) :
    text = other ∧ after = rest := by
  induction text generalizing other with
  | nil =>
    cases other with
    | nil => exact ⟨rfl, List.tail_eq_of_cons_eq same⟩
    | cons d others =>
      rw [List.flatMap_cons, List.append_assoc] at same
      exact absurd same (jsonChar_not_quote d _ _)
  | cons c more ih =>
    rw [List.flatMap_cons, List.append_assoc] at same
    cases other with
    | nil => exact absurd same.symm (jsonChar_not_quote c _ _)
    | cons d others =>
      rw [List.flatMap_cons, List.append_assoc] at same
      obtain ⟨rfl, behind⟩ := jsonChar_prefixFree _ _ _ _ same
      obtain ⟨rfl, ends⟩ := ih behind
      exact ⟨rfl, ends⟩

theorem jsonString_prefixFree : PrefixFree jsonString := by
  intro text other after rest same
  rw [jsonString, jsonString, List.cons_append, List.cons_append, List.append_assoc, List.append_assoc] at same
  obtain ⟨contents, ends⟩ := content_injective (List.tail_eq_of_cons_eq same)
  exact ⟨String.toList_inj.mp contents, ends⟩

/-! ### Fields -/

/-- The value of a field is a text or a finite number. -/
def Scalar.Finite : Scalar → Prop
  | .text _ => True
  | .number value => value.isFinite = true

/-- What follows a value in an object: a comma or the closing brace. -/
def EndsValue (after : List Char) : Prop :=
  ∃ rest, after = ',' :: rest ∨ after = '\x7d' :: rest

variable {after rest : List Char}

theorem EndsValue.no_number (ends : EndsValue after) : ∀ c ∈ after.head?, isJsonNumberChar c = false := by
  obtain ⟨rest, rfl | rfl⟩ := ends
  · rintro c ⟨⟩
    decide
  · rintro c ⟨⟩
    decide

/-- A number reaches as far as its characters. -/
theorem jsonNumber_ends (x : Float) (ends : EndsValue after) :
    (jsonNumber x ++ after).takeWhile isJsonNumberChar = jsonNumber x ∧
      (jsonNumber x ++ after).dropWhile isJsonNumberChar = after :=
  takeWhile_run (isJsonNumberChar_jsonNumber x) ends.no_number

/-- A string is no number, whatever follows them. -/
theorem jsonString_not_number {text : String} {x : Float} (also : EndsValue rest) :
    jsonString text ++ after ≠ jsonNumber x ++ rest := by
  intro same
  obtain ⟨-, behind⟩ := jsonNumber_ends x also
  rw [← same, jsonString, List.cons_append, List.cons_append, List.dropWhile_cons_of_neg (by decide)] at behind
  obtain ⟨more, rfl | rfl⟩ := also
  · exact absurd (List.head_eq_of_cons_eq behind) (by decide)
  · exact absurd (List.head_eq_of_cons_eq behind) (by decide)

theorem Scalar.json_injective {first second : Scalar} (finite : first.Finite) (also : second.Finite)
    (ends : EndsValue after) (alsoEnds : EndsValue rest) (same : first.json ++ after = second.json ++ rest) :
    first = second ∧ after = rest := by
  cases first with
  | text value =>
    cases second with
    | text other =>
      obtain ⟨rfl, behind⟩ := jsonString_prefixFree _ _ _ _ same
      exact ⟨rfl, behind⟩
    | number x => exact absurd same (jsonString_not_number alsoEnds)
  | number x =>
    cases second with
    | text other => exact absurd same.symm (jsonString_not_number ends)
    | number y =>
      change jsonNumber x ++ after = jsonNumber y ++ rest at same
      obtain ⟨number, behind⟩ := jsonNumber_ends x ends
      obtain ⟨other, otherBehind⟩ := jsonNumber_ends y alsoEnds
      rw [same, other] at number
      rw [same, otherBehind] at behind
      exact ⟨congrArg _ (jsonNumber_injective (isFinite_iff.mp finite) (isFinite_iff.mp also) number.symm), behind.symm⟩

theorem jsonField_injective {first second : String × Scalar} (finite : first.2.Finite) (also : second.2.Finite)
    (ends : EndsValue after) (alsoEnds : EndsValue rest) (same : jsonField first ++ after = jsonField second ++ rest) :
    first = second ∧ after = rest := by
  rw [jsonField, jsonField, List.append_assoc, List.append_assoc, List.cons_append, List.cons_append] at same
  obtain ⟨names, values⟩ := jsonString_prefixFree _ _ _ _ same
  obtain ⟨value, behind⟩ := Scalar.json_injective finite also ends alsoEnds (List.tail_eq_of_cons_eq values)
  exact ⟨Prod.ext names value, behind⟩

/-! ### Objects -/

/-- The fields after the first one, up to the end of their object. -/
def furtherFields : List (String × Scalar) → List Char
  | [] => ['\x7d']
  | field :: rest => ',' :: (jsonField field ++ furtherFields rest)

variable {field other : String × Scalar} {fields others : List (String × Scalar)}

theorem furtherFields_ends (fields : List (String × Scalar)) : EndsValue (furtherFields fields) := by
  cases fields with
  | nil => exact ⟨_, .inr rfl⟩
  | cons field rest => exact ⟨_, .inl rfl⟩

theorem jsonObject_cons (field : String × Scalar) (fields : List (String × Scalar)) :
    (jsonObject (field :: fields)).toList = '\x7b' :: (jsonField field ++ furtherFields fields) := by
  rw [jsonObject, String.toList_ofList, List.cons_append]
  refine congrArg (List.cons _) ?_
  induction fields generalizing field with
  | nil => rw [List.map_cons, List.map_nil, List.intercalate_singleton, furtherFields]
  | cons next rest ih =>
    rw [List.map_cons, List.map_cons, List.intercalate_cons_cons, ← List.map_cons, List.append_assoc, ih, furtherFields,
      List.append_assoc, List.singleton_append]

theorem furtherFields_injective (finite : ∀ field ∈ fields, field.2.Finite) (also : ∀ field ∈ others, field.2.Finite)
    (same : furtherFields fields = furtherFields others) : fields = others := by
  induction fields generalizing others with
  | nil =>
    cases others with
    | nil => rfl
    | cons other others => exact absurd (List.head_eq_of_cons_eq same) (by decide)
  | cons field fields ih =>
    cases others with
    | nil => exact absurd (List.head_eq_of_cons_eq same) (by decide)
    | cons other others =>
      rw [List.forall_mem_cons] at finite also
      obtain ⟨rfl, behind⟩ := jsonField_injective finite.1 also.1 (furtherFields_ends fields) (furtherFields_ends others)
        (List.tail_eq_of_cons_eq same)
      rw [ih finite.2 also.2 behind]

/-- The text of an object tells its fields. -/
theorem jsonObject_injective (finite : ∀ each ∈ field :: fields, each.2.Finite) (also : ∀ each ∈ other :: others, each.2.Finite)
    (same : jsonObject (field :: fields) = jsonObject (other :: others)) : field :: fields = other :: others := by
  have texts := congrArg String.toList same
  rw [jsonObject_cons, jsonObject_cons] at texts
  rw [List.forall_mem_cons] at finite also
  obtain ⟨rfl, behind⟩ := jsonField_injective finite.1 also.1 (furtherFields_ends fields) (furtherFields_ends others)
    (List.tail_eq_of_cons_eq texts)
  rw [furtherFields_injective finite.2 also.2 behind]

/-! ### Entries and records -/

theorem Stage.word_injective {first second : Stage} (same : first.word = second.word) : first = second := by
  cases first with
  | lexical =>
    cases second with
    | lexical => rfl
    | syntactic | arithmetic => exact absurd same (by decide)
  | syntactic =>
    cases second with
    | syntactic => rfl
    | lexical | arithmetic => exact absurd same (by decide)
  | arithmetic =>
    cases second with
    | arithmetic => rfl
    | lexical | syntactic => exact absurd same (by decide)

theorem Outcome.fields_injective {first second : Outcome} (same : first.fields = second.fields) : first = second := by
  cases first with
  | success result =>
    cases second with
    | success other =>
      cases same
      rfl
    | failure stage message => exact absurd (congrArg List.length same) (Nat.ne_of_lt (Nat.lt_succ_self 2))
  | failure stage message =>
    cases second with
    | success other => exact absurd (congrArg List.length same) (Nat.ne_of_gt (Nat.lt_succ_self 2))
    | failure otherStage otherMessage =>
      simp only [Outcome.fields, List.cons.injEq, Prod.mk.injEq, Scalar.text.injEq, true_and, and_true] at same
      rw [Stage.word_injective same.1, same.2]

/-- The entry has a finite result or none. -/
def Entry.Finite (entry : Entry) : Prop :=
  ∀ x ∈ entry.result?, x.isFinite = true

theorem Entry.json_injective {first second : Entry} (finite : first.Finite) (also : second.Finite)
    (same : first.json = second.json) : first = second := by
  have scalars : ∀ {entry : Entry}, entry.Finite → ∀ field ∈ ("description", .text entry.description) ::
      ("expression", .text entry.expression) :: entry.outcome.fields, Scalar.Finite field.2 := by
    rintro ⟨description, expression, outcome⟩ finite
    cases outcome with
    | success result => simpa [Outcome.fields, Scalar.Finite] using finite result rfl
    | failure stage message => simp [Outcome.fields, Scalar.Finite]
  have fields := jsonObject_injective (scalars finite) (scalars also) same
  obtain ⟨description, expression, outcome⟩ := first
  simp only [List.cons.injEq, Prod.mk.injEq, Scalar.text.injEq, true_and] at fields
  rw [fields.1, fields.2.1, Outcome.fields_injective fields.2.2]

theorem Record.json_injective {first second : Record} (finite : first.result.isFinite = true)
    (also : second.result.isFinite = true) (same : first.json = second.json) : first = second := by
  have scalars : ∀ {record : Record}, record.result.isFinite = true → ∀ field ∈ [("description", .text record.description),
      ("expression", .text record.expression), ("result", .number record.result), ("ip", .text record.ip)],
      Scalar.Finite field.2 := by
    intro record finite
    simpa [Scalar.Finite] using finite
  have fields := jsonObject_injective (scalars finite) (scalars also) same
  obtain ⟨description, expression, result, ip⟩ := first
  simp only [List.cons.injEq, Prod.mk.injEq, Scalar.text.injEq, Scalar.number.injEq, true_and, and_true] at fields
  rw [fields.1, fields.2.1, fields.2.2.1, fields.2.2.2]

/-! ### One line -/

/-- No character below the space, so neither an end of a line nor any other control of that range. -/
def Visible (text : List Char) : Prop :=
  ∀ c ∈ text, 32 ≤ c.toNat

theorem Visible.append {text other : List Char} (visible : Visible text) (also : Visible other) : Visible (text ++ other) := by
  intro c member
  exact (List.mem_append.mp member).elim (visible c) (also c)

theorem Visible.cons {text : List Char} (high : 32 ≤ c.toNat) (visible : Visible text) : Visible (c :: text) :=
  List.forall_mem_cons.mpr ⟨high, visible⟩

theorem visible_jsonChar (c : Char) : Visible (jsonChar c) := by
  by_cases escaped : c ∈ escapedChars
  · have codes : (escapedChars.all fun c => (jsonChar c).all fun d => 32 ≤ d.toNat) = true := by decide +kernel
    intro d member
    exact of_decide_eq_true (List.all_eq_true.mp (List.all_eq_true.mp codes c escaped) d member)
  · rw [jsonChar_plain escaped]
    exact .cons (Nat.le_of_not_lt fun low => escaped (mem_escapedChars low)) (List.forall_mem_nil _)

theorem visible_jsonString (text : String) : Visible (jsonString text) := by
  rw [jsonString]
  refine .append (.cons (by decide) fun c member => ?_) (.cons (by decide) (List.forall_mem_nil _))
  obtain ⟨d, _, inside⟩ := List.mem_flatMap.mp member
  exact visible_jsonChar d c inside

theorem visible_jsonNumber (x : Float) : Visible (jsonNumber x) := by
  intro c member
  rcases Bool.or_eq_true_iff.mp (isJsonNumberChar_jsonNumber x c member) with numeral | other
  · have code := isNumeralChar_code numeral
    omega
  · have codes : ['-', '+', 'e', 'n', 'u', 'l'].all fun c => 32 ≤ c.toNat := by decide
    exact of_decide_eq_true (List.all_eq_true.mp codes c (List.contains_iff_mem.mp other))

theorem visible_jsonField (field : String × Scalar) : Visible (jsonField field) := by
  refine .append (visible_jsonString field.1) (.cons (by decide) ?_)
  cases field.2 with
  | text value => exact visible_jsonString value
  | number value => exact visible_jsonNumber value

theorem visible_furtherFields (fields : List (String × Scalar)) : Visible (furtherFields fields) := by
  induction fields with
  | nil => exact .cons (by decide) (List.forall_mem_nil _)
  | cons field rest ih => exact .cons (by decide) (.append (visible_jsonField field) ih)

theorem visible_jsonObject (field : String × Scalar) (fields : List (String × Scalar)) :
    Visible (jsonObject (field :: fields)).toList := by
  rw [jsonObject_cons]
  exact .cons (by decide) (.append (visible_jsonField field) (visible_furtherFields fields))

theorem Visible.oneLine {text : String} (visible : Visible text.toList) : OneLine text :=
  fun ending => absurd (visible '\n' ending) (by decide)

theorem visible_entry (entry : Entry) : Visible entry.json.toList :=
  visible_jsonObject _ _

/-- With JSON asked for, every expression leaves one line, that of its entry, and there are no other lines. -/
theorem printed_json {settings : Settings} (json : settings.json = true) (collector : Collector) (ip : String)
    (expressions : List String) :
    (settings.evaluateAll collector ip expressions).printed =
      expressions.map fun x => .out (Notice.ofSubmission settings.description x).entry.json := by
  rw [evaluateAll_eq]
  refine List.map_congr_left fun x _ => ?_
  rw [Notice.printed, if_pos json]

theorem writes_json {settings : Settings} (json : settings.json = true) (collector : Collector) (ip : String)
    (expressions : List String) :
    Writes (settings.evaluateAll collector ip expressions).stdout
      (expressions.map fun x => (Notice.ofSubmission settings.description x).entry.json) := by
  rw [stdout_eq, printed_json json, List.filterMap_map]
  have lines : expressions.filterMap (Printed.result? ∘ fun x => .out (Notice.ofSubmission settings.description x).entry.json) =
      expressions.map fun x => (Notice.ofSubmission settings.description x).entry.json :=
    congrFun List.filterMap_eq_map expressions
  rw [lines]
  exact .of_oneLine (List.forall_mem_map.mpr fun x _ => (visible_entry _).oneLine)

/-- Entries and records with finite results are told by their JSON, a zero by its sign as well. The text has no
character below the space, so that each outcome of a run is one line, whatever is calculated and described. -/
theorem json_unambiguous :
    (∀ first second : Entry, first.Finite → second.Finite → first.json = second.json → first = second) ∧
    (∀ first second : Record, first.result.isFinite = true → second.result.isFinite = true → first.json = second.json →
      first = second) ∧
    (∀ entry : Entry, Visible entry.json.toList) ∧ (∀ record : Record, Visible record.json.toList) ∧
    ∀ (settings : Settings) collector ip expressions, settings.json = true →
      Writes (settings.evaluateAll collector ip expressions).stdout
        (expressions.map fun x => (Notice.ofSubmission settings.description x).entry.json) :=
  ⟨fun _ _ => Entry.json_injective, fun _ _ => Record.json_injective, visible_entry, fun _ => visible_jsonObject _ _,
    fun _ collector ip expressions json => writes_json json collector ip expressions⟩

/-- Zeros of either sign, a description that imitates an expression, and line feeds in both texts. -/
theorem json_unambiguous_imitation :
    Entry.json ⟨"", "-0", .success floatZero⟩ ≠ Entry.json ⟨"", "-0", .success (-floatZero)⟩ ∧
    Record.json ⟨"1\",\"expression\":\"2", "3", 4, ""⟩ ≠ Record.json ⟨"1", "2\",\"expression\":\"3", 4, ""⟩ ∧
    Writes (Settings.evaluateAll ⟨false, "one\nsum", true, none, 10, ""⟩ unreachable "" ["1\n+1"]).stdout
      ["\x7b\"description\":\"one\\nsum\",\"expression\":\"1\\n+1\",\"status\":\"success\",\"result\":2.0\x7d"] := by
  obtain ⟨entries, records, _, _, runs⟩ := json_unambiguous
  refine ⟨fun same => ?_, fun same => ?_, ?_⟩
  · have zeros : ∀ zero ∈ [floatZero, -floatZero], zero.isFinite = true := by decide +kernel
    have first : Entry.Finite ⟨"", "-0", .success floatZero⟩ := by
      rintro x ⟨⟩
      exact zeros _ List.mem_cons_self
    have second : Entry.Finite ⟨"", "-0", .success (-floatZero)⟩ := by
      rintro x ⟨⟩
      exact zeros _ (List.mem_cons_of_mem _ List.mem_cons_self)
    exact absurd (entries _ _ first second same) (by decide +kernel)
  · exact absurd (records _ _ (by decide +kernel) (by decide +kernel) same) (by decide +kernel)
  · have lines := runs ⟨false, "one\nsum", true, none, 10, ""⟩ unreachable "" ["1\n+1"] rfl
    have text : (Notice.ofSubmission "one\nsum" "1\n+1").entry.json =
        "\x7b\"description\":\"one\\nsum\",\"expression\":\"1\\n+1\",\"status\":\"success\",\"result\":2.0\x7d" := by
      decide +kernel
    rwa [List.map_singleton, text] at lines

end Calculator
