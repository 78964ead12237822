import Calculator.Json.Content

namespace Calculator

/-!
Strict JSON documents as bytes. All marks of a document are ASCII, so it is read byte by byte. The
content of a string is kept as it is written; only `stringText?` asks it to be UTF-8 and its
escaped surrogates to come in pairs, and only for a string that is used.
-/

/-- A JSON value. The strings, and the names in an object, are kept as they are spelled. -/
inductive JsonValue
  | null
  | bool (value : Bool)
  | number
  | string (content : List StringUnit)
  | array (items : List JsonValue)
  | object (members : List (List StringUnit × JsonValue))

/-- Space, line feed, carriage return and tab. -/
def isJsonBlank (b : UInt8) : Bool :=
  b == 0x20 || b == 0x0a || b == 0x0d || b == 0x09

/-- What follows the blanks at the start. -/
def skipJsonBlanks (text : List UInt8) : List UInt8 :=
  text.dropWhile isJsonBlank

/-- The digits of numbers. -/
def isDigitByte (b : UInt8) : Bool :=
  0x30 ≤ b && b ≤ 0x39

/-- What follows one or more digits. -/
def digitsRest? : List UInt8 → Option (List UInt8)
  | b :: rest => if isDigitByte b then some (rest.dropWhile isDigitByte) else none
  | [] => none

/-- What follows the whole part of a number: a zero, or digits that start with another one. -/
def wholeRest? : List UInt8 → Option (List UInt8)
  | 0x30 :: b :: rest => if isDigitByte b then none else some (b :: rest)
  | text => digitsRest? text

/-- What follows the fraction of a number, if it has one. -/
def fractionRest? : List UInt8 → Option (List UInt8)
  | 0x2e :: rest => digitsRest? rest
  | text => some text

/-- What follows the exponent of a number, if it has one. -/
def exponentRest? : List UInt8 → Option (List UInt8)
  | e :: sign :: rest =>
    if e == 0x65 || e == 0x45 then
      if sign == 0x2b || sign == 0x2d then digitsRest? rest else digitsRest? (sign :: rest)
    else some (e :: sign :: rest)
  | [e] => if e == 0x65 || e == 0x45 then none else some [e]
  | [] => some []

/-- What follows a number. -/
def numberRest? (text : List UInt8) : Option (List UInt8) := do
  let text := match text with
    | 0x2d :: rest => rest
    | text => text
  exponentRest? (← fractionRest? (← wholeRest? text))

/-- A value without parts at the start of a text, and what follows it. -/
def scalarRest? : List UInt8 → Option (JsonValue × List UInt8)
  | 0x6e :: 0x75 :: 0x6c :: 0x6c :: rest => some (.null, rest)
  | 0x74 :: 0x72 :: 0x75 :: 0x65 :: rest => some (.bool true, rest)
  | 0x66 :: 0x61 :: 0x6c :: 0x73 :: 0x65 :: rest => some (.bool false, rest)
  | 0x22 :: rest => (stringRest? rest).map fun (content, rest) => (.string content, rest)
  | text => (numberRest? text).map fun rest => (.number, rest)

mutual

/-- The value at the start of a text without leading blanks, and what follows it. -/
def valueRest? (fuel : Nat) (text : List UInt8) : Option (JsonValue × List UInt8) :=
  match fuel with
  | 0 => none
  | fuel + 1 =>
    match text with
    | 0x5b :: rest =>
      match skipJsonBlanks rest with
      | 0x5d :: rest => some (.array [], rest)
      | rest => (itemsRest? fuel rest).map fun (items, rest) => (.array items, rest)
    | 0x7b :: rest =>
      match skipJsonBlanks rest with
      | 0x7d :: rest => some (.object [], rest)
      | rest => (membersRest? fuel rest).map fun (members, rest) => (.object members, rest)
    | text => scalarRest? text

/-- One or more values with commas between them, up to the bracket that closes the array. -/
def itemsRest? (fuel : Nat) (text : List UInt8) : Option (List JsonValue × List UInt8) :=
  match fuel with
  | 0 => none
  | fuel + 1 => do
    let (item, rest) ← valueRest? fuel text
    match skipJsonBlanks rest with
    | 0x5d :: rest => return ([item], rest)
    | 0x2c :: rest =>
      let (items, rest) ← itemsRest? fuel (skipJsonBlanks rest)
      return (item :: items, rest)
    | _ => none

/-- One or more named values with commas between them, up to the brace that closes the object. -/
def membersRest? (fuel : Nat) (text : List UInt8) :
    Option (List (List StringUnit × JsonValue) × List UInt8) :=
  match fuel with
  | 0 => none
  | fuel + 1 =>
    match text with
    | 0x22 :: rest => do
      let (name, rest) ← stringRest? rest
      match skipJsonBlanks rest with
      | 0x3a :: rest =>
        let (value, rest) ← valueRest? fuel (skipJsonBlanks rest)
        match skipJsonBlanks rest with
        | 0x7d :: rest => return ([(name, value)], rest)
        | 0x2c :: rest =>
          let (members, rest) ← membersRest? fuel (skipJsonBlanks rest)
          return ((name, value) :: members, rest)
        | _ => none
      | _ => none
    | _ => none

end

/-- The value of a document, which has nothing but blanks around it. Every two steps of the reader
take at least one byte, which bounds their number. -/
def JsonValue.ofBytes? (text : List UInt8) : Option JsonValue := do
  let (value, rest) ← valueRest? (2 * text.length + 1) (skipJsonBlanks text)
  if (skipJsonBlanks rest).isEmpty then return value else none

end Calculator
