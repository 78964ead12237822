namespace Calculator

/-- Whether the code of `c` lies in one of `ranges`, both ends included. -/
def inRanges (ranges : List (Nat × Nat)) (c : Char) : Bool :=
  ranges.any fun range => range.1 ≤ c.toNat && c.toNat ≤ range.2

/-- The characters with the property White_Space. -/
def blankRanges : List (Nat × Nat) :=
  [(0x9, 0xd), (0x20, 0x20), (0x85, 0x85), (0xa0, 0xa0), (0x1680, 0x1680), (0x2000, 0x200a),
    (0x2028, 0x2029), (0x202f, 0x202f), (0x205f, 0x205f), (0x3000, 0x3000)]

/-- Characters that only separate: between lexemes they mean nothing, and they
are taken off both ends of whatever is submitted. -/
def isBlank (c : Char) : Bool :=
  inRanges blankRanges c

/-- `text` without the blanks at both ends. -/
def trimBlanks (text : List Char) : List Char :=
  ((text.dropWhile isBlank).reverse.dropWhile isBlank).reverse

/-- `text` without the blanks at both ends. -/
def trim (text : String) : String :=
  .ofList (trimBlanks text.toList)

end Calculator
