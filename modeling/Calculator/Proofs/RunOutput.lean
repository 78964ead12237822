import Calculator.Proofs.SessionRun
import Calculator.Proofs.TextLines

namespace Calculator

/-!
What a run prints is settled by its expressions, one by one: the recorder that takes it down is told of all of them in
order, and whoever else is told has no part in it.
-/

/-- The output is these lines, each with its end, and it falls into them when it is read line by line. -/
structure Writes (output : String) (lines : List String) : Prop where
  text : output = String.join (lines.map (· ++ "\n"))
  split : output.toList.splitOn '\n' = lines.map String.toList ++ [[]]

/-- What a line says to readers of results. -/
def Printed.result? : Printed → Option String
  | .out line => some line
  | .err _ => none

/-- What a line says to readers of errors. -/
def Printed.error? : Printed → Option String
  | .err line => some line
  | .out _ => none

/-! ### Written lines -/

theorem join_lines (lines : List String) :
    (String.join (lines.map (· ++ "\n"))).toList = (lines.map String.toList).flatMap (· ++ ['\n']) := by
  rw [String.toList_join, List.flatMap_map, List.flatMap_map]
  exact List.flatMap_congr fun line _ => String.toList_append

theorem Writes.of_oneLine {lines : List String} (plain : ∀ line ∈ lines, OneLine line) :
    Writes (String.join (lines.map (· ++ "\n"))) lines := by
  refine ⟨rfl, ?_⟩
  rw [join_lines, splitOn_lines]
  exact List.forall_mem_map.mpr plain

theorem join_append (lines more : List String) : String.join (lines ++ more) = String.join lines ++ String.join more := by
  rw [← String.toList_inj, String.toList_append, String.toList_join, String.toList_join, String.toList_join,
    List.flatMap_append]

theorem stdout_eq (result : RunResult) :
    result.stdout = String.join ((result.printed.filterMap Printed.result?).map (· ++ "\n")) := by
  rw [RunResult.stdout, List.map_filterMap]
  refine congrArg String.join (List.filterMap_congr fun printed _ => ?_)
  cases printed with
  | out | err => rfl

theorem stderr_eq (result : RunResult) :
    result.stderr = String.join ((result.printed.filterMap Printed.error?).map (· ++ "\n")) := by
  rw [RunResult.stderr, List.map_filterMap]
  refine congrArg String.join (List.filterMap_congr fun printed _ => ?_)
  cases printed with
  | out | err => rfl

/-! ### What a run is told -/

theorem submitAll_eq (session : Session) (description : String) (expressions : List String) :
    session.submitAll description expressions = session.run (expressions.map (.submit description)) := by
  rw [Session.run, List.foldl_map]
  rfl

theorem notices_submit (description : String) (expressions : List String) :
    notices (expressions.map (.submit description)) = expressions.map (.ofSubmission description) := by
  rw [notices, List.filterMap_map]
  exact congrFun List.filterMap_eq_map expressions

theorem subscriptions_submit (description : String) (expressions : List String) :
    subscriptions (expressions.map (.submit description)) = [] := by
  induction expressions with
  | nil => rfl
  | cons expression rest ih => exact ih

theorem sinceClear_submit (description : String) (expressions : List String) :
    sinceClear (expressions.map (.submit description)) = expressions.map (.submit description) := by
  have kept : ∀ action ∈ (expressions.map (SessionAction.submit description)).reverse, (!action.isClear) = true := by
    intro action member
    obtain ⟨expression, _, rfl⟩ := List.mem_map.mp (List.mem_reverse.mp member)
    rfl
  rw [sinceClear, List.takeWhile_eq_self_iff.mpr kept, List.reverse_reverse]

/-- The session of a run starts empty, with the recorder before whoever else is told. -/
theorem session_starts (settings : Settings) (collector : Collector) (ip : String) :
    (settings.session collector ip).history = [] ∧ (settings.session collector ip).limit = none ∧
      ∃ others, (settings.session collector ip).observers = .recorder [] :: others := by
  rw [Settings.session]
  cases settings.webhook with
  | none => exact ⟨rfl, rfl, _, rfl⟩
  | some => exact ⟨rfl, rfl, _, rfl⟩

/-- A run prints a line for each expression, and succeeds if all of them do. -/
theorem evaluateAll_eq (settings : Settings) (collector : Collector) (ip : String) (expressions : List String) :
    settings.evaluateAll collector ip expressions =
      ⟨expressions.map fun x => (Notice.ofSubmission settings.description x).printed settings,
        expressions.all fun x => (Notice.ofSubmission settings.description x).entry.isSuccess⟩ := by
  obtain ⟨empty, unlimited, others, first⟩ := session_starts settings collector ip
  have told : ((settings.session collector ip).run (expressions.map (.submit settings.description))).close.recorded =
      expressions.map (.ofSubmission settings.description) := by
    rw [Session.close, run_observers, first, notices_submit, subscriptions_submit, List.map_cons, foldl_recorder,
      List.nil_append]
    rfl
  -- A run never empties its history nor cuts it, so all entries are there, the newest first.
  have history := run_history _ empty (expressions.map (.submit settings.description))
  rw [unlimited, sinceClear_submit, notices_submit] at history
  have succeeded : ((settings.session collector ip).run (expressions.map (.submit settings.description))).history.all
      Entry.isSuccess = expressions.all fun x => (Notice.ofSubmission settings.description x).entry.isSuccess := by
    rw [history, keepNewest, List.all_reverse, List.map_map, List.all_map]
    rfl
  rw [Settings.evaluateAll, submitAll_eq, told, List.map_map]
  exact congrArg (RunResult.mk _) succeeded

end Calculator
