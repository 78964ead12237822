import Calculator.Text.Blank
import Calculator.Number.Numeral
import Calculator.Token

namespace Calculator

/-- Why a text has no tokens. The offset counts the bytes before the fault. -/
inductive LexError
  | invalidNumber (text : String) (offset : Nat)
  | unsupportedCharacter (character : Char) (offset : Nat)
deriving DecidableEq, Repr

/-- What a reader is told; the place comes separately. -/
def LexError.message : LexError → String
  | .invalidNumber text _ => "invalid number: " ++ text
  | .unsupportedCharacter character _ => "unsupported character: " ++ character.toString

/-- How many bytes stand before the fault. -/
def LexError.offset : LexError → Nat
  | .invalidNumber _ offset => offset
  | .unsupportedCharacter _ offset => offset

/-- The pieces that a text falls into, whether or not they are valid. -/
inductive Lexeme
  | numeral (text : List Char)
  | name (text : List Char)
  | symbol (c : Char)
  | blank (c : Char)
deriving DecidableEq, Repr

/-- The characters of a lexeme. -/
def Lexeme.text : Lexeme → List Char
  | .numeral text => text
  | .name text => text
  | .symbol c => [c]
  | .blank c => [c]

/-- Numerals are runs of digits and points. -/
def isNumeralChar (c : Char) : Bool :=
  c.isDigit || c == '.'

/-- Names start with an ASCII letter. -/
def startsName (c : Char) : Bool :=
  c.isAlpha

/-- Letters, digits and underscores go on a name. -/
def continuesName (c : Char) : Bool :=
  c.isAlphanum || c == '_'

/-- The lexemes of a text from left to right. A numeral and a name go on as far as they can;
everything else is a lexeme by itself. -/
def lexemes : List Char → List Lexeme
  | [] => []
  | c :: rest =>
    if isNumeralChar c then
      .numeral (c :: rest.takeWhile isNumeralChar) :: lexemes (rest.dropWhile isNumeralChar)
    else if startsName c then
      .name (c :: rest.takeWhile continuesName) :: lexemes (rest.dropWhile continuesName)
    else if isBlank c then .blank c :: lexemes rest
    else .symbol c :: lexemes rest
termination_by text => text.length
decreasing_by
  · exact Nat.lt_succ_of_le (List.dropWhile_sublist _).length_le
  · exact Nat.lt_succ_of_le (List.dropWhile_sublist _).length_le
  · exact Nat.lt_succ_self _
  · exact Nat.lt_succ_self _

/-- The token written as a single character. -/
def Token.ofSymbol? (c : Char) : Option Token :=
  match c with
  | '(' => some .leftParen
  | ')' => some .rightParen
  | ',' => some .separator
  | c => (Operator.ofSymbol? c).map .operator

/-- The token of a lexeme that starts at `offset`; blanks have none.
Names are read in lower case. -/
def Lexeme.token? (offset : Nat) : Lexeme → Except LexError (Option Token)
  | .numeral text =>
    match ofNumeral? text with
    | some value => .ok (some (.number value))
    | none => .error (.invalidNumber (.ofList text) offset)
  | .name text => .ok (some (.name (.ofList (text.map Char.toLower))))
  | .symbol c =>
    match Token.ofSymbol? c with
    | some token => .ok (some token)
    | none => .error (.unsupportedCharacter c offset)
  | .blank _ => .ok none

/-- How many bytes a text takes in UTF-8. -/
def byteLength : List Char → Nat
  | [] => 0
  | c :: rest => c.utf8Size + byteLength rest

/-- The tokens of lexemes of which the first starts at `offset`. The first fault ends the scan. -/
def tokensFrom (offset : Nat) : List Lexeme → Except LexError (List Token)
  | [] => .ok []
  | lexeme :: rest => do
    let token ← lexeme.token? offset
    let tokens ← tokensFrom (offset + byteLength lexeme.text) rest
    return token.toList ++ tokens

/-- The tokens of an expression. Names are not looked up here. -/
def tokenize (source : String) : Except LexError (List Token) :=
  tokensFrom 0 (lexemes source.toList)

end Calculator
