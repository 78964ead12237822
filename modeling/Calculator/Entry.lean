import Calculator.Evaluation
import Calculator.Json.Writer

namespace Calculator

/-- What became of a submitted expression. -/
inductive Outcome
  | success (result : Float)
  | failure (stage : Stage) (message : String)
deriving DecidableEq

/-- A line of the calculation history. -/
structure Entry where
  description : String
  expression : String
  outcome : Outcome
deriving DecidableEq

/-- The title of an entry: its description, or the expression if there is none. -/
def Entry.label (entry : Entry) : String :=
  if entry.description.isEmpty then entry.expression else entry.description

/-- The result of an entry that succeeded. -/
def Entry.result? (entry : Entry) : Option Float :=
  match entry.outcome with
  | .success result => some result
  | .failure .. => none

/-- Whether an entry has a result. -/
def Entry.isSuccess (entry : Entry) : Bool :=
  entry.result?.isSome

/-- The fields that an outcome adds to its entry. -/
def Outcome.fields : Outcome → List (String × Scalar)
  | .success result => [("status", .text "success"), ("result", .number result)]
  | .failure stage message =>
    [("status", .text "failure"), ("kind", .text stage.word), ("message", .text message)]

/-- An entry as a line of JSON. -/
def Entry.json (entry : Entry) : String :=
  jsonObject ([("description", .text entry.description), ("expression", .text entry.expression)] ++
    entry.outcome.fields)

/-- The outcome to record for what an evaluation gave. -/
def Outcome.ofVerdict : Except Failure Float → Outcome
  | .ok result => .success result
  | .error cause => .failure cause.stage cause.message

/-- What observers are told of a submission: its entry and what the evaluation gave. -/
structure Notice where
  entry : Entry
  verdict : Except Failure Float

/-- The notice of a submission. Both texts are trimmed before anything else. -/
def Notice.ofSubmission (description expression : String) : Notice :=
  let verdict := evaluate (trim expression)
  ⟨⟨trim description, trim expression, .ofVerdict verdict⟩, verdict⟩

end Calculator
