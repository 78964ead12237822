import Mathlib.Data.List.DropRight
import Calculator.CommandLine.Run
import Calculator.Proofs.Spelling

namespace Calculator

/-!
The lines of a file of expressions. A carriage return before the end of a line is taken off with the blanks there,
and the last line may or may not have an end. So what is calculated depends on the lines one by one.
-/

/-- A line without the carriage return that may stand at its end. -/
def dropReturn (line : List Char) : List Char :=
  if line.getLast? = some '\r' then line.dropLast else line

/-- The lines of a text. Each ends in a line feed, which may have a carriage return before it; the last one may end
with the text instead, but is not empty then. -/
def linesOf (text : List Char) : List (List Char) :=
  (text.splitOn '\n').dropLast.map dropReturn ++ (text.splitOn '\n').getLast?.toList.filter (· ≠ [])

/-- Whether a trimmed line is calculated: it is not empty and no comment. -/
def isListed (line : List Char) : Bool :=
  !line.isEmpty && line.head? != some '#'

/-- What is calculated of a text, in order. -/
def listed (text : String) : List String :=
  (((linesOf text.toList).map trimBlanks).filter isListed).map .ofList

/-- A text that has no end of a line inside. -/
def OneLine (text : String) : Prop :=
  '\n' ∉ text.toList

instance (text : String) : Decidable (OneLine text) :=
  inferInstanceAs (Decidable ('\n' ∉ text.toList))

/-! ### Trimming -/

section Trimming

variable {text gap : List Char}

theorem trimBlanks_eq (text : List Char) : trimBlanks text = (text.dropWhile isBlank).rdropWhile isBlank :=
  rfl

theorem trimBlanks_append_blank {c : Char} (blank : isBlank c = true) (text : List Char) :
    trimBlanks (text ++ [c]) = trimBlanks text := by
  rw [trimBlanks_eq, trimBlanks_eq, List.dropWhile_append]
  split
  · next empty =>
    rw [List.isEmpty_iff.mp empty, List.dropWhile_cons_of_pos blank, List.dropWhile_nil]
  · exact List.rdropWhile_concat_pos _ _ _ blank

theorem trimBlanks_dropReturn (line : List Char) : trimBlanks (dropReturn line) = trimBlanks line := by
  rw [dropReturn]
  split
  · next last =>
    have whole : line.dropLast ++ ['\r'] = line := List.dropLast_append_getLast? _ last
    rw [← trimBlanks_append_blank (by decide : isBlank '\r' = true), whole]
  · rfl

theorem trimBlanks_trimBlanks (text : List Char) : trimBlanks (trimBlanks text) = trimBlanks text := by
  have start : (trimBlanks text).dropWhile isBlank = trimBlanks text := by
    obtain ⟨gap, parts⟩ : trimBlanks text <+: text.dropWhile isBlank := List.rdropWhile_prefix isBlank _
    cases trimmed : trimBlanks text with
    | nil => rfl
    | cons c rest =>
      rw [trimmed] at parts
      have first := head_dropWhile c (parts ▸ rfl : (text.dropWhile isBlank).head? = some c)
      rw [List.dropWhile_cons_of_neg (Bool.eq_false_iff.mp first)]
  rw [trimBlanks_eq (trimBlanks text), start, trimBlanks_eq, List.rdropWhile_idempotent]

theorem mem_of_mem_trimBlanks {c : Char} (member : c ∈ trimBlanks text) : c ∈ text :=
  (List.dropWhile_sublist _).mem ((List.rdropWhile_prefix _ _).mem member)

end Trimming

/-! ### Lines -/

theorem textLines_eq (text : List Char) : textLines text = text.splitOn '\n' := by
  induction text with
  | nil => rfl
  | cons c rest ih =>
    rw [textLines, List.splitOn_cons_eq_if_modifyHead, ih]
    by_cases ending : c = '\n'
    · rw [if_pos ending, if_pos (beq_iff_eq.mpr ending)]
    · rw [if_neg ending, if_neg (mt beq_iff_eq.mp ending)]
      cases lines : rest.splitOn '\n' with
      | nil => exact absurd lines (List.splitOn_ne_nil _ _)
      | cons => rfl

/-- A file is read by its lines. -/
theorem scriptExpressions_eq (text : String) : scriptExpressions text = listed text := by
  rw [scriptExpressions, listed, textLines_eq, linesOf]
  rcases List.eq_nil_or_concat (text.toList.splitOn '\n') with none | ⟨before, last, parts⟩
  · exact absurd none (List.splitOn_ne_nil _ _)
  · have trimmed : trimBlanks ∘ dropReturn = trimBlanks := funext trimBlanks_dropReturn
    refine congrArg (List.map String.ofList) ?_
    -- The two readings differ in carriage returns, which are blanks, and in an empty last line, which is not listed.
    rw [parts, List.concat_eq_append, List.dropLast_concat, List.getLast?_concat, List.map_append, List.map_append,
      List.map_map, trimmed, List.filter_append, List.filter_append]
    refine congrArg _ ?_
    cases last with
    | nil => rfl
    | cons => rfl

/-- Files one after the other, the first one with the end of its last line, are calculated one after the other. -/
theorem listed_append (first second : String) : listed (first ++ "\n" ++ second) = listed first ++ listed second := by
  have parts : (first ++ "\n" ++ second).toList = first.toList ++ '\n' :: second.toList := by
    rw [String.toList_append, String.toList_append, List.append_assoc]
    rfl
  rw [← scriptExpressions_eq, ← scriptExpressions_eq, ← scriptExpressions_eq, scriptExpressions, parts, textLines_eq,
    List.splitOn_append_cons_self, List.map_append, List.filter_append, List.map_append, scriptExpressions,
    scriptExpressions, textLines_eq, textLines_eq]

theorem listed_line {text expression : String} (member : expression ∈ listed text) :
    ∃ line ∈ text.toList.splitOn '\n', expression.toList = trimBlanks line := by
  rw [← scriptExpressions_eq, scriptExpressions, textLines_eq] at member
  obtain ⟨trimmed, kept, rfl⟩ := List.mem_map.mp member
  obtain ⟨line, inside, rfl⟩ := List.mem_map.mp (List.mem_filter.mp kept).1
  exact ⟨line, inside, String.toList_ofList⟩

theorem listed_trimmed {text expression : String} (member : expression ∈ listed text) : trim expression = expression := by
  obtain ⟨line, _, trimmed⟩ := listed_line member
  rw [trim, trimmed, trimBlanks_trimBlanks, ← trimmed, String.ofList_toList]

theorem not_mem_splitOn {text line : List Char} (member : line ∈ text.splitOn '\n') : '\n' ∉ line := by
  induction text generalizing line with
  | nil => exact List.mem_singleton.mp member ▸ List.not_mem_nil
  | cons c rest ih =>
    rw [List.splitOn_cons_eq_if_modifyHead] at member
    by_cases ending : c = '\n'
    · rw [if_pos (beq_iff_eq.mpr ending)] at member
      rcases List.mem_cons.mp member with rfl | later
      · exact List.not_mem_nil
      · exact ih later
    · rw [if_neg (mt beq_iff_eq.mp ending)] at member
      cases lines : rest.splitOn '\n' with
      | nil => exact absurd lines (List.splitOn_ne_nil _ _)
      | cons first others =>
        rw [lines] at member ih
        rcases List.mem_cons.mp member with rfl | later
        · exact List.not_mem_cons_of_ne_of_not_mem (Ne.symm ending) (ih List.mem_cons_self)
        · exact ih (List.mem_cons_of_mem _ later)

theorem listed_oneLine {text expression : String} (member : expression ∈ listed text) : OneLine expression := by
  obtain ⟨line, inside, trimmed⟩ := listed_line member
  rw [OneLine, trimmed]
  exact fun ending => not_mem_splitOn inside (mem_of_mem_trimBlanks ending)

/-- Lines that are written one after the other, each with its end, are those lines again. -/
theorem splitOn_lines {lines : List (List Char)} (plain : ∀ line ∈ lines, '\n' ∉ line) :
    (lines.flatMap (· ++ ['\n'])).splitOn '\n' = lines ++ [[]] := by
  induction lines with
  | nil => rfl
  | cons line rest ih =>
    rw [List.forall_mem_cons] at plain
    rw [List.flatMap_cons, List.append_assoc, List.singleton_append, List.splitOn_append_cons_self_of_not_mem plain.1,
      ih plain.2, List.cons_append]

end Calculator
