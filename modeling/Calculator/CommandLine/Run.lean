import Calculator.CommandLine.Arguments
import Calculator.Session

namespace Calculator

/-- The lines of a text, without their ends. The last one may be empty. -/
def textLines : List Char → List (List Char)
  | [] => [[]]
  | c :: rest =>
    if c = '\n' then [] :: textLines rest
    else
      match textLines rest with
      | line :: lines => (c :: line) :: lines
      | [] => [[c]]

/-- The expressions of a file: its trimmed lines, without those that are empty or start with a hash
sign. -/
def scriptExpressions (text : String) : List String :=
  (((textLines text.toList).map trimBlanks).filter fun line =>
    !line.isEmpty && line.head? != some '#').map String.ofList

/-- A line of output, for readers of results or for readers of errors. -/
inductive Printed
  | out (line : String)
  | err (line : String)
deriving DecidableEq, Repr

/-- How a failure is shown. Faults in the text come with their place. -/
def Failure.shown (failure : Failure) : String :=
  failure.stage.title ++ ": " ++ failure.message ++
    match failure with
    | .lexical error => " at byte " ++ error.offset.repr
    | .syntactic _ | .arithmetic _ => ""

/-- The line for a submission. Results from a file come with their expression. -/
def Notice.printed (settings : Settings) (notice : Notice) : Printed :=
  if settings.json then .out notice.entry.json
  else
    match notice.verdict with
    | .ok result =>
      let shown := plainStyle.text result
      .out (if settings.fromFile then notice.entry.expression ++ " = " ++ shown else shown)
    | .error failure => .err (notice.entry.expression ++ ": " ++ failure.shown)

/-- What a run leaves behind. -/
structure RunResult where
  printed : List Printed
  succeeded : Bool
deriving DecidableEq, Repr

/-- The results that are printed, each line with its end. -/
def RunResult.stdout (result : RunResult) : String :=
  String.join (result.printed.filterMap fun
    | .out line => some (line ++ "\n")
    | .err _ => none)

/-- The errors that are printed, each line with its end. -/
def RunResult.stderr (result : RunResult) : String :=
  String.join (result.printed.filterMap fun
    | .err line => some (line ++ "\n")
    | .out _ => none)

/-- A collector that cannot be reached. -/
def unreachable : Collector :=
  fun _ _ => .refused .transport

/-- The session in which expressions are submitted: a recorder takes down what is to be printed, and
if there is a webhook a reporter forwards results to `collector`. -/
def Settings.session (settings : Settings) (collector : Collector) (ip : String) : Session :=
  let session : Session := { observers := [.recorder []] }
  match settings.webhook with
  | some _ => session.subscribe (.reporter { collector, ip })
  | none => session

/-- Submits expressions in order, all with the same description. -/
def Session.submitAll (session : Session) (description : String) (expressions : List String) :
    Session :=
  expressions.foldl (fun session expression => (session.submit description expression).2) session

/-- The notices of the recorder that subscribed first. -/
def Session.recorded (session : Session) : List Notice :=
  match session.observers with
  | .recorder notices :: _ => notices
  | _ => []

/-- Evaluates expressions and prints their outcomes. The run succeeds if all of them do. -/
def Settings.evaluateAll (settings : Settings) (collector : Collector) (ip : String)
    (expressions : List String) : RunResult :=
  let session := ((settings.session collector ip).submitAll settings.description expressions).close
  ⟨session.recorded.map (·.printed settings), session.history.all Entry.isSuccess⟩

/-- A run with these settings. `file` is the text of the file that they name, if it can be read. -/
def Settings.run (settings : Settings) (collector : Collector) (ip : String)
    (file : Option String) : RunResult :=
  if settings.fromFile then
    match file with
    | some text => settings.evaluateAll collector ip (scriptExpressions text)
    | none =>
      ⟨[.err ("Failed to read the input file '" ++ settings.contents ++
        "'. Perhaps this file does not exist?")], false⟩
  else settings.evaluateAll collector ip [settings.contents]

end Calculator
