import Calculator.Number.Style

namespace Calculator

/-- Numbers in JSON: an exponent with its sign from 10 ^ 16 on and below 10 ^ -5, else at least one
digit after the point. -/
def jsonStyle : NumberStyle :=
  ⟨fun place => -5 ≤ place && place < 16, true, ['+'], .even⟩

/-- The text of a JSON number. What is no number is written as null. -/
def jsonNumber (x : Float) : List Char :=
  if floatRank x < infinityRank then jsonStyle.finiteText x else ['n', 'u', 'l', 'l']

/-- `n` in hexadecimal with at least four places. -/
def hexCode (n : Nat) : List Char :=
  let digits := Nat.toDigits 16 n
  List.replicate (4 - digits.length) '0' ++ digits

/-- A character inside a JSON string. The quote, the backslash and the characters below the space
are escaped, and no others. -/
def jsonChar (c : Char) : List Char :=
  if c = '"' ∨ c = '\\' then ['\\', c]
  else if c = '\x08' then ['\\', 'b']
  else if c = '\t' then ['\\', 't']
  else if c = '\n' then ['\\', 'n']
  else if c = '\x0c' then ['\\', 'f']
  else if c = '\r' then ['\\', 'r']
  else if c.toNat < 0x20 then '\\' :: 'u' :: hexCode c.toNat
  else [c]

/-- A text between quotes. -/
def jsonString (text : String) : List Char :=
  '"' :: text.toList.flatMap jsonChar ++ ['"']

/-- The value of a field. -/
inductive Scalar
  | text (value : String)
  | number (value : Float)
deriving DecidableEq

/-- The value as JSON. -/
def Scalar.json : Scalar → List Char
  | .text value => jsonString value
  | .number value => jsonNumber value

/-- A name and its value, as they stand in an object. -/
def jsonField (field : String × Scalar) : List Char :=
  jsonString field.1 ++ ':' :: field.2.json

/-- An object with its fields in the order given, without blanks. -/
def jsonObject (fields : List (String × Scalar)) : String :=
  .ofList ('\x7b' :: [','].intercalate (fields.map jsonField) ++ ['\x7d'])

end Calculator
