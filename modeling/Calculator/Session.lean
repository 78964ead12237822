import Calculator.Report

namespace Calculator

/-- Whoever subscribed to a session: a recorder keeps the notices it got, the first one first, and a
reporter forwards the successes among them. -/
inductive Observer
  | recorder (notices : List Notice)
  | reporter (reporter : Reporter)

/-- Tells an observer of a submission. -/
def Observer.notify (observer : Observer) (notice : Notice) : Observer :=
  match observer with
  | .recorder notices => .recorder (notices ++ [notice])
  | .reporter r => .reporter (r.notify notice)

/-- What becomes of an observer when its session ends. -/
def Observer.close : Observer → Observer
  | .recorder notices => .recorder notices
  | .reporter r => .reporter r.close

/-- A sequence of calculations. The history starts with the newest entry, the observers with the one
that subscribed first. -/
structure Session where
  history : List Entry := []
  /-- How many entries are kept at most. Without a limit all are. -/
  limit : Option Nat := none
  observers : List Observer := []

/-- Adds an observer, which is told of the submissions from now on. -/
def Session.subscribe (session : Session) (observer : Observer) : Session :=
  { session with observers := session.observers ++ [observer] }

/-- `entries` cut to the limit of a history. -/
def keepNewest (limit : Option Nat) (entries : List Entry) : List Entry :=
  match limit with
  | some limit => entries.take limit
  | none => entries

/-- Evaluates an expression, tells every observer and records the entry. Observers see the entry
also when the history has no room for it. -/
def Session.submit (session : Session) (description expression : String) :
    Except Failure Float × Session :=
  let notice := Notice.ofSubmission description expression
  (notice.verdict,
    { session with
      history := keepNewest session.limit (notice.entry :: session.history)
      observers := session.observers.map (·.notify notice) })

/-- Empties the history. The observers stay. -/
def Session.clear (session : Session) : Session :=
  { session with history := [] }

/-- The newest entry. -/
def Session.latest? (session : Session) : Option Entry :=
  session.history.head?

/-- Ends a session: every report that still waits is delivered. -/
def Session.close (session : Session) : Session :=
  { session with observers := session.observers.map Observer.close }

end Calculator
