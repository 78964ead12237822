import Calculator.CommandLine.Run
import Calculator.Webhook

namespace Calculator

/-- The text of a file, if it can be read as such. -/
def readText (path : String) : IO (Option String) := do
  try
    return some (← IO.FS.readFile path)
  catch _ =>
    return none

/-- Reads the arguments, runs and prints. There is no transport for requests here, so a webhook is
never reached and the address stays unknown. -/
def runArguments (arguments : List String) : IO UInt32 := do
  match Settings.ofArguments arguments (← IO.getEnv webhookVariable) with
  | .error .version =>
    IO.println versionText
    return 0
  | .error .help =>
    IO.println usageText
    return 0
  | .error (.usage error) =>
    IO.eprintln ("error: " ++ error.message)
    return 2
  | .ok settings =>
    let file ← if settings.fromFile then readText settings.contents else pure none
    let result := settings.run unreachable (publicAddress none) file
    IO.print result.stdout
    IO.eprint result.stderr
    return if result.succeeded then 0 else 1

end Calculator

/-- The command line. -/
def main (arguments : List String) : IO UInt32 :=
  Calculator.runArguments arguments
