/-! # Digits -/

namespace Ferrotype.Text

def isHexDigit (c : Char) : Bool :=
  c.isDigit || ('a' ≤ c && c ≤ 'f') || ('A' ≤ c && c ≤ 'F')

/-- The value of a digit; letters of either case count from ten. -/
def digitValue (c : Char) : Nat :=
  if c.isDigit then c.toNat - '0'.toNat
  else if c.isUpper then c.toNat - 'A'.toNat + 10
  else c.toNat - 'a'.toNat + 10

/-- The digits of a radix up to 16. -/
def isDigitOf (radix : Nat) (c : Char) : Bool := isHexDigit c && digitValue c < radix

/-- The number that digits write in a radix, the highest digit first. -/
def ofDigits (radix : Nat) (digits : List Char) : Nat :=
  digits.foldl (fun n c => radix * n + digitValue c) 0

/-- A decimal number of more digits is not read. -/
def maxDecimalDigits : Nat := 4300

/-- The message on a decimal number of `count` digits, which are too many. -/
def tooManyDigits (count : Nat) : String :=
  "Exceeds the limit (" ++ toString maxDecimalDigits ++
    " digits) for integer string conversion: value has " ++ toString count ++
    " digits; use sys.set_int_max_str_digits() to increase the limit"

end Ferrotype.Text
