import Ferrotype.Text.Character

/-! # Quoted text, for messages and dumps -/

namespace Ferrotype.Text

/-- The lowest `width` hexadecimal digits of `n`, highest first. -/
def hexDigits : Nat → Nat → List Char
  | 0, _ => []
  | width + 1, n => hexDigits width (n / 16) ++ [Nat.digitChar (n % 16)]

/-- A code point in the shortest of the three escapes `\xNN`, `\uNNNN` and `\UNNNNNNNN`. -/
def escapeCode (n : Nat) : List Char :=
  if n < 0x100 then '\\' :: 'x' :: hexDigits 2 n
  else if n < 0x10000 then '\\' :: 'u' :: hexDigits 4 n
  else '\\' :: 'U' :: hexDigits 8 n

/-- Single quotes, unless only they would need escaping. -/
def quoteFor (s : List Char) : Char :=
  if '\'' ∈ s ∧ '"' ∉ s then '"' else '\''

def escapeChar (quote c : Char) : List Char :=
  if c = quote ∨ c = '\\' then ['\\', c]
  else if c = '\n' then ['\\', 'n']
  else if c = '\r' then ['\\', 'r']
  else if c = '\t' then ['\\', 't']
  else if isPrintable c then [c]
  else escapeCode c.toNat

/-- A text between quotes, on one line and with every character visible. -/
def quotedChars (s : List Char) : List Char :=
  quoteFor s :: s.flatMap (escapeChar (quoteFor s)) ++ [quoteFor s]

def quoted (s : String) : String := String.ofList (quotedChars s.toList)

end Ferrotype.Text
