import Ferrotype.Text.LetterTable
import Ferrotype.Text.PrintableTable
import Ferrotype.Text.UppercaseTable

/-! # Classes of characters -/

namespace Ferrotype.Text

/-- Membership in a list of inclusive ranges of code points. -/
def inRanges (ranges : List (Nat × Nat)) (c : Char) : Bool :=
  ranges.any fun r => r.1 ≤ c.toNat && c.toNat ≤ r.2

/-- A class given by a test on ASCII and by ranges beyond it. -/
def inClass (ascii : Char → Bool) (ranges : List (Nat × Nat)) (c : Char) : Bool :=
  if c.toNat < 128 then ascii c else inRanges ranges c

/-- White space of Unicode, and the four information separators U+001C to U+001F. -/
def blankRanges : List (Nat × Nat) :=
  [(0x9, 0xD), (0x1C, 0x20), (0x85, 0x85), (0xA0, 0xA0), (0x1680, 0x1680), (0x2000, 0x200A),
  (0x2028, 0x2029), (0x202F, 0x202F), (0x205F, 0x205F), (0x3000, 0x3000)]

def isBlank (c : Char) : Bool := inRanges blankRanges c

def isLetter (c : Char) : Bool := inClass Char.isAlpha letterRanges c

/-- Decimal digits of every script. -/
def isDecimal (c : Char) : Bool := inClass Char.isDigit decimalRanges c

/-- Decimal digits of every script, and digits such as `²` and `①`. -/
def isDigit (c : Char) : Bool := inClass Char.isDigit digitRanges c

def isNumeral (c : Char) : Bool := inClass Char.isDigit numeralRanges c

def isWordStart (c : Char) : Bool := isLetter c || c == '_'

def isWordPart (c : Char) : Bool := isLetter c || isNumeral c || c == '_'

/-- A character that is shown as itself in quoted text. -/
def isPrintable (c : Char) : Bool :=
  inClass (fun c => 0x20 ≤ c.toNat && c.toNat ≤ 0x7E) printableRanges c

/-! ## Upper case -/

/-- The single upper-case character of `c`, if its run is in the table. -/
def upperInRun (c : Char) (run : Nat × Nat × Nat × Nat) : Option Char :=
  match run with
  | (first, last, step, image) =>
    if first ≤ c.toNat ∧ c.toNat ≤ last ∧ (c.toNat - first) % step = 0 then
      some (Char.ofNat (image + (c.toNat - first)))
    else none

/-- The full upper case of a character: `ß` gives two letters, `ﬃ` three. -/
def upper (c : Char) : List Char :=
  if c.toNat < 128 then [c.toUpper]
  else match upperExpansions.lookup c.toNat with
    | some codes => codes.map Char.ofNat
    | none => [(upperRuns.findSome? (upperInRun c)).getD c]

/-! ## Trimming -/

/-- Drops the characters of a class at the end. -/
def dropEndWhile (p : Char → Bool) (s : List Char) : List Char :=
  (s.reverse.dropWhile p).reverse

def trim (s : List Char) : List Char := dropEndWhile isBlank (s.dropWhile isBlank)

end Ferrotype.Text
