namespace Calculator

/-- What can be chosen on the command line. -/
inductive Choice
  | file
  | description
  | json
  | webhook
  | timeout
  | version
  | help
deriving DecidableEq, Repr

/-- Every choice once. -/
def Choice.all : List Choice :=
  [.file, .description, .json, .webhook, .timeout, .version, .help]

/-- The word that makes a choice, after two hyphens. -/
def Choice.word : Choice → String
  | .file => "file"
  | .description => "description"
  | .json => "json"
  | .webhook => "webhook"
  | .timeout => "timeout"
  | .version => "version"
  | .help => "help"

/-- The letter that makes a choice, after one hyphen. -/
def Choice.letter? : Choice → Option Char
  | .file => some 'f'
  | .description => some 'd'
  | .json => some 'j'
  | .webhook => some 'w'
  | .timeout => none
  | .version => some 'V'
  | .help => some 'h'

/-- Whether a choice is followed by a value. -/
def Choice.takesValue : Choice → Bool
  | .description | .webhook | .timeout => true
  | .file | .json | .version | .help => false

/-- The choice that a word makes. -/
def Choice.ofWord? (word : List Char) : Option Choice :=
  Choice.all.find? (·.word.toList == word)

/-- The choice that a letter makes. -/
def Choice.ofLetter? (c : Char) : Option Choice :=
  Choice.all.find? (·.letter? == some c)

/-- Why the arguments are refused. -/
inductive UsageError
  | repeated (choice : Choice)
  | missingValue (choice : Choice)
  | unneededValue (choice : Choice)
  | invalidTimeout (value : String)
  | unexpectedArgument (argument : String)
  | missingContents
deriving DecidableEq, Repr

/-- What a reader is told. The words are this command line's own, and nothing depends on them. -/
def UsageError.message : UsageError → String
  | .repeated choice => "--" ++ choice.word ++ " is given more than once"
  | .missingValue choice => "--" ++ choice.word ++ " needs a value"
  | .unneededValue choice => "--" ++ choice.word ++ " takes no value"
  | .invalidTimeout value => "not a number of seconds: " ++ value
  | .unexpectedArgument argument => "unexpected argument: " ++ argument
  | .missingContents => "an expression or a file is needed"

/-- Why the arguments are not read to their end: they are wrong, or they ask for a text. -/
inductive Stop
  | usage (error : UsageError)
  | version
  | help
deriving DecidableEq, Repr

/-- How far the arguments have been read. -/
structure Reading where
  /-- The choices made, with their values; a choice without a value has an empty one. -/
  made : List (Choice × String) := []
  /-- The choice that the next argument is the value of. -/
  waiting : Option Choice := none
  contents : Option String := none
  /-- Whether a double hyphen has ended the options. -/
  ended : Bool := false
deriving DecidableEq, Repr

/-- The seconds that a text gives: digits, with a plus sign or without, within 64 bits. -/
def seconds? (text : String) : Option Nat :=
  let digits := match text.toList with
    | '+' :: rest => rest
    | text => text
  if digits.isEmpty ∨ ¬digits.all Char.isDigit then none
  else
    let value := Nat.ofDigitChars 10 digits 0
    if value < Nat.pow 2 64 then some value else none

/-- Makes a choice. None can be made twice. -/
def Reading.choose (reading : Reading) (choice : Choice) (value : String) : Except Stop Reading :=
  if reading.made.any (·.1 == choice) then .error (.usage (.repeated choice))
  else if choice = .timeout ∧ (seconds? value).isNone then .error (.usage (.invalidTimeout value))
  else .ok { reading with made := reading.made ++ [(choice, value)] }

/-- Nothing else can come while a choice waits for its value. -/
def Reading.settled (reading : Reading) : Except Stop Unit :=
  match reading.waiting with
  | some choice => .error (.usage (.missingValue choice))
  | none => .ok ()

/-- Makes a choice that takes no value. Asking for a text ends the reading. -/
def Reading.mark (reading : Reading) (choice : Choice) : Except Stop Reading := do
  reading.settled
  match choice with
  | .version => .error .version
  | .help => .error .help
  | choice => reading.choose choice ""

/-- Makes a choice that takes a value, or waits for the value if there is none yet. -/
def Reading.assign (reading : Reading) (choice : Choice) (value : Option String) :
    Except Stop Reading := do
  reading.settled
  match value with
  | some value => reading.choose choice value
  | none => return { reading with waiting := some choice }

/-- Reads the letters after a hyphen. The first one that takes a value has the rest as its value,
after an equals sign if there is one. -/
def Reading.letters (reading : Reading) (argument : String) : List Char → Except Stop Reading
  | [] => .ok reading
  | c :: rest =>
    match Choice.ofLetter? c with
    | none => .error (.usage (.unexpectedArgument argument))
    | some choice =>
      if choice.takesValue then
        match rest with
        | [] => reading.assign choice none
        | '=' :: value => reading.assign choice (some (.ofList value))
        | value => reading.assign choice (some (.ofList value))
      else do
        let reading ← reading.mark choice
        reading.letters argument rest

/-- Reads an argument that makes no choice itself: the value of the one before, or the contents. -/
def Reading.plain (reading : Reading) (argument : String) : Except Stop Reading :=
  match reading.waiting, reading.ended with
  | some choice, false => { reading with waiting := none }.choose choice argument
  | _, _ => do
    reading.settled
    match reading.contents with
    | none => return { reading with contents := some argument }
    | some _ => .error (.usage (.unexpectedArgument argument))

/-- Reads an argument. As long as the contents are missing, a hyphen followed by no known choice is
not an option: expressions may start with a minus. -/
def Reading.argument (reading : Reading) (argument : String) : Except Stop Reading :=
  if reading.ended then reading.plain argument
  else
    match argument.toList with
    | ['-', '-'] => .ok { reading with ended := true }
    | '-' :: '-' :: option =>
      match Choice.ofWord? (option.takeWhile (· ≠ '=')) with
      | none =>
        if reading.contents.isNone then reading.plain argument
        else .error (.usage (.unexpectedArgument argument))
      | some choice =>
        match option.dropWhile (· ≠ '='), choice.takesValue with
        | _ :: value, true => reading.assign choice (some (.ofList value))
        | _ :: _, false => .error (.usage (.unneededValue choice))
        | [], true => reading.assign choice none
        | [], false => reading.mark choice
    | '-' :: c :: letters =>
      if reading.contents.isNone ∧ (c :: letters).any (Choice.ofLetter? · |>.isNone) then
        reading.plain argument
      else reading.letters argument (c :: letters)
    | _ => reading.plain argument

/-- The settings of a run. -/
structure Settings where
  /-- Whether `contents` names a file of expressions instead of being one. -/
  fromFile : Bool
  description : String
  json : Bool
  webhook : Option String
  /-- After how many seconds a request is given up. -/
  timeout : Nat
  contents : String
deriving DecidableEq, Repr

/-- The value with which a choice was made. -/
def Reading.value? (reading : Reading) (choice : Choice) : Option String :=
  (reading.made.find? (·.1 == choice)).map (·.2)

/-- The settings that the arguments give. `webhook` counts if they name none. -/
def Settings.ofArguments (arguments : List String) (webhook : Option String) :
    Except Stop Settings := do
  let reading ← arguments.foldlM Reading.argument {}
  reading.settled
  match reading.contents with
  | none => .error (.usage .missingContents)
  | some contents =>
    return {
      fromFile := (reading.value? .file).isSome
      description := (reading.value? .description).getD ""
      json := (reading.value? .json).isSome
      webhook := (reading.value? .webhook).or webhook
      timeout := ((reading.value? .timeout).bind seconds?).getD 10
      contents }

/-- What is printed when the version is asked for. -/
def versionText : String :=
  "shunt 0.1.0"

/-- What is printed when help is asked for, again in words of its own. -/
def usageText : String :=
  "Usage: shunt [--file] [--description TEXT] [--json] [--webhook URL] [--timeout SECS] CONTENTS"

/-- The environment variable that may name a webhook. -/
def webhookVariable : String :=
  "SHUNT_WEBHOOK"

end Calculator
