namespace Calculator

/-- A part of a string's content: a byte that stands for itself, escaped or not, or a code that is
spelled in hexadecimal. -/
inductive StringUnit
  | byte (b : UInt8)
  | code (n : Nat)
deriving DecidableEq, Repr

/-- The value of a hexadecimal digit. -/
def hexDigit? (b : UInt8) : Option Nat :=
  if 0x30 ≤ b && b ≤ 0x39 then some (b.toNat - 0x30)
  else if 0x61 ≤ b && b ≤ 0x66 then some (b.toNat - 0x57)
  else if 0x41 ≤ b && b ≤ 0x46 then some (b.toNat - 0x37)
  else none

/-- The code that four hexadecimal digits spell. -/
def hexCode? (a b c d : UInt8) : Option Nat := do
  return 4096 * (← hexDigit? a) + 256 * (← hexDigit? b) + 16 * (← hexDigit? c) + (← hexDigit? d)

/-- The character that a backslash and a letter stand for. -/
def escaped? (b : UInt8) : Option UInt8 :=
  if b == 0x22 || b == 0x5c || b == 0x2f then some b
  else if b == 0x62 then some 0x08
  else if b == 0x66 then some 0x0c
  else if b == 0x6e then some 0x0a
  else if b == 0x72 then some 0x0d
  else if b == 0x74 then some 0x09
  else none

/-- The content up to the closing quote and what follows it. Bytes below the space and unknown
escapes are refused. -/
def stringRest? : List UInt8 → Option (List StringUnit × List UInt8)
  | [] => none
  | 0x22 :: rest => some ([], rest)
  | 0x5c :: 0x75 :: a :: b :: c :: d :: rest => do
    let code ← hexCode? a b c d
    let (content, rest) ← stringRest? rest
    return (.code code :: content, rest)
  | 0x5c :: b :: rest => do
    let byte ← escaped? b
    let (content, rest) ← stringRest? rest
    return (.byte byte :: content, rest)
  | b :: rest =>
    if b < 0x20 ∨ b = 0x5c then none
    else do
      let (content, rest) ← stringRest? rest
      return (.byte b :: content, rest)

/-- The bytes that the content of a string stands for. A code in the range of the surrogates needs
its partner right after it; the two spell one character. -/
def stringBytes? : List StringUnit → Option (List UInt8)
  | [] => some []
  | .byte b :: rest => (stringBytes? rest).map (b :: ·)
  | .code high :: .code low :: rest =>
    if 0xd800 ≤ high ∧ high < 0xdc00 then
      if 0xdc00 ≤ low ∧ low < 0xe000 then
        let code := 0x10000 + (high - 0xd800) * 0x400 + (low - 0xdc00)
        (stringBytes? rest).map (String.utf8EncodeChar (.ofNat code) ++ ·)
      else none
    else if 0xdc00 ≤ high ∧ high < 0xe000 then none
    else (stringBytes? (.code low :: rest)).map (String.utf8EncodeChar (.ofNat high) ++ ·)
  | .code code :: rest =>
    if 0xd800 ≤ code ∧ code < 0xe000 then none
    else (stringBytes? rest).map (String.utf8EncodeChar (.ofNat code) ++ ·)

/-- The text that the content of a string stands for, if that is one. -/
def stringText? (content : List StringUnit) : Option String := do
  String.fromUTF8? (.mk (← stringBytes? content).toArray)

end Calculator
