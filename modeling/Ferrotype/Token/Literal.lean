import Ferrotype.Text.Character
import Ferrotype.Text.Digits

/-!
# The values of literals

String literals are cooked by the escape rules, integer literals read in their radix.
-/

namespace Ferrotype

open Text

/-! ## Strings -/

inductive EscapeFault where
  | hexDigits
  | hexRange
  | unicodeForm
  | unicodeLength
  | unicodeValue (digits : String)
  | unknown (c : Option Char)
  deriving Repr, DecidableEq

namespace EscapeFault

def message : EscapeFault → String
  | hexDigits => "invalid \\x escape: expected two hex digits"
  | hexRange => "out of range hex escape: must be at most \\x7F"
  | unicodeForm => "invalid unicode escape: expected \\u\x7b...\x7d"
  | unicodeLength => "invalid unicode escape: expected 1 to 6 hex digits"
  | unicodeValue digits => "invalid unicode character escape: " ++ digits
  | unknown c => "unknown character escape: \\" ++ String.ofList c.toList

end EscapeFault

def simpleEscape? : Char → Option Char
  | 'n' => some '\n'
  | 'r' => some '\r'
  | 't' => some '\t'
  | '\\' => some '\\'
  | '0' => some '\x00'
  | '\'' => some '\''
  | '"' => some '"'
  | _ => none

/-- The character of an escape `\x`; `s` is the text behind it. -/
def hexEscape (s : List Char) : Except EscapeFault (Char × List Char) :=
  match s with
  | a :: b :: rest =>
    if isHexDigit a && isHexDigit b then
      if ofDigits 16 [a, b] ≤ 0x7F then .ok (Char.ofNat (ofDigits 16 [a, b]), rest)
      else .error .hexRange
    else .error .hexDigits
  | _ => .error .hexDigits

/-- The character that hexadecimal digits name; surrogates are no characters. -/
def unicodeValue (digits : List Char) : Except EscapeFault Char :=
  if digits = [] ∨ 6 < digits.length then .error .unicodeLength
  else if (ofDigits 16 digits).isValidChar then .ok (Char.ofNat (ofDigits 16 digits))
  else .error (.unicodeValue (String.ofList digits))

/-- The character of an escape `\u`; `s` is the text behind it. -/
def unicodeEscape (s : List Char) : Except EscapeFault (Char × List Char) :=
  match s with
  | '{' :: s =>
    match s.dropWhile fun c => isHexDigit c || c == '_' with
    | '}' :: rest => do
      let c ← unicodeValue ((s.takeWhile fun c => isHexDigit c || c == '_').filter (· ≠ '_'))
      return (c, rest)
    | _ => .error .unicodeForm
  | _ => .error .unicodeForm

/--
What an escape sequence stands for, and the text behind it; `s` is the text behind the
backslash. A backslash at the end of a line joins it to the next and stands for nothing.
-/
def escape (s : List Char) : Except EscapeFault (List Char × List Char) :=
  match s with
  | 'x' :: s => return ((← hexEscape s).map ([·]) id)
  | 'u' :: s => return ((← unicodeEscape s).map ([·]) id)
  | '\n' :: s => .ok ([], s.dropWhile isBlank)
  | c :: s =>
    match simpleEscape? c with
    | some d => .ok ([d], s)
    | none => .error (.unknown c)
  | [] => .error (.unknown none)

theorem length_dropWhile_le (p : Char → Bool) (s : List Char) :
    (s.dropWhile p).length ≤ s.length :=
  (List.dropWhile_suffix p).length_le

theorem hexEscape_length {s rest : List Char} {c : Char} (h : hexEscape s = .ok (c, rest)) :
    rest.length ≤ s.length := by
  unfold hexEscape at h
  repeat' split at h
  all_goals cases h
  simp
  omega

theorem unicodeEscape_length {s rest : List Char} {c : Char}
    (h : unicodeEscape s = .ok (c, rest)) : rest.length ≤ s.length := by
  unfold unicodeEscape at h
  split at h
  · next s =>
    split at h
    · next r hr =>
      have hl := length_dropWhile_le (fun c => isHexDigit c || c == '_') s
      rw [hr] at hl
      cases hu : unicodeValue ((s.takeWhile fun c => isHexDigit c || c == '_').filter (· ≠ '_'))
      all_goals rw [hu] at h; cases h
      simp at hl ⊢
      omega
    · cases h
  · cases h

/-- The text behind an escape sequence is no longer than the text behind its backslash. -/
theorem escape_length {s value rest : List Char} (h : escape s = .ok (value, rest)) :
    rest.length ≤ s.length := by
  unfold escape at h
  split at h
  · next s =>
    cases hx : hexEscape s
    all_goals rw [hx] at h; cases h
    have := hexEscape_length hx
    simp
    omega
  · next s =>
    cases hx : unicodeEscape s
    all_goals rw [hx] at h; cases h
    have := unicodeEscape_length hx
    simp
    omega
  · next s =>
    cases h
    have := length_dropWhile_le isBlank s
    simp
    omega
  · split at h
    · cases h; simp
    · cases h
  · cases h

/-- The value of a quoted text: escapes are replaced by what they stand for. -/
def unescape (s : List Char) : Except EscapeFault (List Char) :=
  match s with
  | [] => .ok []
  | c :: s =>
    if c = '\\' then
      match _h : escape s with
      | .error fault => .error fault
      | .ok (value, rest) => (unescape rest).map (value ++ ·)
    else (unescape s).map (c :: ·)
termination_by s.length
decreasing_by
  · have := escape_length _h
    simp
    omega
  · simp

/-- The text of a raw literal between its quotes; `s` is the literal without the `r`. -/
def rawBody (s : List Char) : List Char :=
  let hashes := (s.takeWhile (· = '#')).length
  (s.take (s.length - (hashes + 1))).drop (hashes + 1)

/-- The value of a string literal, raw or quoted. -/
def cookString (text : String) : Except EscapeFault String :=
  match text.toList with
  | 'r' :: s => .ok (String.ofList (rawBody s))
  | s => (unescape (s.drop 1).dropLast).map String.ofList

/-! ## Integers -/

/-- The radix of a number and the text behind its prefix. -/
def splitRadix (s : List Char) : Nat × List Char :=
  match s with
  | '0' :: 'x' :: s => (16, s)
  | '0' :: 'o' :: s => (8, s)
  | '0' :: 'b' :: s => (2, s)
  | s => (10, s)

inductive IntegerFault where
  | noDigits
  | tooManyDigits (count : Nat)
  deriving Repr, DecidableEq

/-- The value of digits in a radix. Only the number of decimal digits has a limit. -/
def digitsValue (radix : Nat) (digits : List Char) : Except IntegerFault Nat :=
  if digits = [] then .error .noDigits
  else if radix = 10 ∧ maxDecimalDigits < digits.length then .error (.tooManyDigits digits.length)
  else .ok (ofDigits radix digits)

/--
The value of an integer literal. Underscores do not count, and what follows the digits is a suffix.
-/
def intValue (text : String) : Except IntegerFault Nat :=
  let (radix, s) := splitRadix (text.toList.filter (· ≠ '_'))
  digitsValue radix (s.takeWhile (isDigitOf radix))

end Ferrotype
