import Calculator.Session

namespace Calculator

/-- Numbers in inspection texts: an exponent from 10 ^ 16 on and below 10 ^ -4, else at least one
digit after the point. -/
def inspectionStyle : NumberStyle :=
  ⟨fun place => -4 ≤ place && place < 16, true, [], .up⟩

/-- A constructor with its named fields, in braces. -/
def inspectFields (name : String) (fields : List (String × String)) : String :=
  name ++ " \x7b " ++ ", ".intercalate (fields.map fun field => field.1 ++ ": " ++ field.2) ++
    " \x7d"

/-- The constructor that stands for a stage. -/
def Stage.inspect : Stage → String
  | .lexical => "Lex"
  | .syntactic => "Syntax"
  | .arithmetic => "Eval"

/-- An outcome with its fields. -/
def Outcome.inspect : Outcome → String
  | .success result => inspectFields "Success" [("result", inspectionStyle.text result)]
  | .failure stage message =>
    inspectFields "Failure" [("kind", stage.inspect), ("message", quoted message)]

/-- An entry with its fields. -/
def Entry.inspect (entry : Entry) : String :=
  inspectFields "Entry" [("description", quoted entry.description),
    ("expression", quoted entry.expression), ("outcome", entry.outcome.inspect)]

/-- A session on one line, with all that it holds but the observers, which are only counted. -/
def Session.inspect (session : Session) : String :=
  inspectFields "Session" [
    ("history", "[" ++ ", ".intercalate (session.history.map Entry.inspect) ++ "]"),
    ("limit", match session.limit with
      | some limit => "Some(" ++ limit.repr ++ ")"
      | none => "None"),
    ("observers", session.observers.length.repr)]

end Calculator
