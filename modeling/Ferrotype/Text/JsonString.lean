import Ferrotype.Text.Quoted

/-! # String literals of JSON -/

namespace Ferrotype.Text

/-- Quotes, backslashes and the control characters of ASCII are escaped; all else stays. -/
def jsonChar (c : Char) : List Char :=
  if c = '"' then ['\\', '"']
  else if c = '\\' then ['\\', '\\']
  else if c = '\n' then ['\\', 'n']
  else if c = '\r' then ['\\', 'r']
  else if c = '\t' then ['\\', 't']
  else if c = '\x08' then ['\\', 'b']
  else if c = '\x0c' then ['\\', 'f']
  else if c.toNat < 0x20 then '\\' :: 'u' :: hexDigits 4 c.toNat
  else [c]

def jsonStringChars (s : List Char) : List Char := '"' :: s.flatMap jsonChar ++ ['"']

def jsonString (s : String) : String := String.ofList (jsonStringChars s.toList)

end Ferrotype.Text
