import Calculator.Entry

namespace Calculator

/-- A successful calculation as it is sent to a collector, with the address of the sender. -/
structure Record where
  description : String
  expression : String
  result : Float
  ip : String
deriving DecidableEq

/-- The record of an entry that succeeded with `result`. -/
def Record.ofEntry (entry : Entry) (result : Float) (ip : String) : Record :=
  ⟨entry.description, entry.expression, result, ip⟩

/-- A record as a line of JSON. -/
def Record.json (record : Record) : String :=
  jsonObject [("description", .text record.description), ("expression", .text record.expression),
    ("result", .number record.result), ("ip", .text record.ip)]

/-- Why a record was not delivered. -/
inductive DeliveryError
  | transport
  | status (code : Nat)
deriving DecidableEq, Repr

/-- What the log says of a failed delivery. -/
def DeliveryError.message : DeliveryError → String
  | .transport => "request failed"
  | .status code => "collector responded with status " ++ code.repr

/-- What a collector does with a record that it is handed. -/
inductive Reception
  | accepted
  | refused (error : DeliveryError)
  | crashed
deriving DecidableEq, Repr

/-- A destination of records. What it does with one may depend on those handed to it before, given
first to last. -/
abbrev Collector :=
  List Record → Record → Reception

/-- An observer that forwards successful calculations to a collector. Records wait in `queue`, the
oldest first, until its worker hands them over; `handed` holds those the collector was given. -/
structure Reporter where
  collector : Collector
  ip : String
  queue : List Record := []
  handed : List Record := []
  /-- Whether the worker still runs. A crash of the collector ends it. -/
  running : Bool := true
  log : List LogLine := []

/-- Adds a line to the log. -/
def Reporter.addLog (reporter : Reporter) (level : LogLevel) (text : String) : Reporter :=
  { reporter with log := reporter.log ++ [⟨level, text⟩] }

/-- Puts the record of a success in the queue, as long as there is a worker to take it. Failures are
not reported. -/
def Reporter.notify (reporter : Reporter) (notice : Notice) : Reporter :=
  let shown := quoted notice.entry.expression
  match notice.verdict with
  | .ok result =>
    if reporter.running then
      { reporter with queue := reporter.queue ++ [.ofEntry notice.entry result reporter.ip] }
    else reporter.addLog .warn ("report worker is gone, dropping " ++ shown)
  | .error failure => reporter.addLog .debug ("not reporting " ++ shown ++ ": " ++ failure.message)

/-- The worker hands the oldest waiting record to the collector. -/
def Reporter.deliver (reporter : Reporter) : Reporter :=
  match reporter.running, reporter.queue with
  | true, record :: queue =>
    let after := { reporter with queue := queue, handed := reporter.handed ++ [record] }
    let shown := quoted record.expression
    match reporter.collector reporter.handed record with
    | .accepted =>
      after.addLog .info ("reported " ++ shown ++ " = " ++ plainStyle.text record.result)
    | .refused error =>
      after.addLog .warn ("could not report " ++ shown ++ ": " ++ error.message)
    | .crashed => { after with running := false }
  | _, _ => reporter

/-- Closes the queue and waits for the worker, which first hands over all that still waits. -/
def Reporter.close (reporter : Reporter) : Reporter :=
  reporter.queue.foldl (fun reporter _ => reporter.deliver) reporter

end Calculator
