import Ferrotype.Text.Digits
import Ferrotype.Text.Quoted
import Ferrotype.Token.Basic

/-!
# Lexemes

A text falls into stretches: blanks, comments and lexemes of tokens. `firstLexeme` cuts off the
first one. Nothing is lost: what is cut off and what is left make up the text again.
-/

namespace Ferrotype

open Text

inductive LexFault where
  | unknownStart (c : Char)
  | openComment
  | openLiteral
  | openChar
  | openRaw
  | rawWithoutQuote
  | noDigits
  deriving Repr, DecidableEq

namespace LexFault

def message : LexFault → String
  | unknownStart c => "unknown start of token: " ++ quoted (String.singleton c)
  | openComment => "unterminated block comment"
  | openLiteral => "unterminated literal"
  | openChar => "unterminated character literal"
  | openRaw => "unterminated raw string"
  | rawWithoutQuote => "expected '\"' in raw string literal"
  | noDigits => "no valid digits found for number"

end LexFault

/-- A stretch of text, and the kind and text of its token unless it is skipped. -/
structure Lexeme where
  chars : List Char
  token : Option (Kind × String)
  deriving Repr, DecidableEq

namespace Lexeme

def skipped (chars : List Char) : Lexeme := ⟨chars, none⟩

def plain (kind : Kind) (chars : List Char) : Lexeme := ⟨chars, some (kind, String.ofList chars)⟩

end Lexeme

abbrev Cut := Except LexFault (Lexeme × List Char)

/-! ## Comments -/

/-- The doc comment that the text behind `//` is, if any. Four slashes are no doc comment. -/
def lineDoc? (body : List Char) : Option (Kind × String) :=
  match body with
  | '/' :: text =>
    if text.head? = some '/' then none
    else some (.doc .outer, String.ofList (dropEndWhile (· = '\r') text))
  | '!' :: text => some (.doc .inner, String.ofList (dropEndWhile (· = '\r') text))
  | _ => none

/-- A comment up to the end of the line; `s` is the text behind `//`. -/
def lineComment (s : List Char) : Lexeme × List Char :=
  (⟨'/' :: '/' :: s.takeWhile (· ≠ '\n'), lineDoc? (s.takeWhile (· ≠ '\n'))⟩,
    s.dropWhile (· ≠ '\n'))

/-- The text inside a comment that is open `depth + 1` times, and the text behind it. -/
def closeComment : Nat → List Char → Option (List Char × List Char)
  | _, [] => none
  | depth, '/' :: '*' :: s =>
    (closeComment (depth + 1) s).map fun r => ('/' :: '*' :: r.1, r.2)
  | 0, '*' :: '/' :: s => some ([], s)
  | depth + 1, '*' :: '/' :: s =>
    (closeComment depth s).map fun r => ('*' :: '/' :: r.1, r.2)
  | depth, c :: s => (closeComment depth s).map fun r => (c :: r.1, r.2)

/-- The doc comment that the text between `/*` and `*/` is, if any. -/
def blockDoc? (body : List Char) : Option (Kind × String) :=
  match body with
  | '*' :: c :: text => if c = '*' then none else some (.doc .outer, String.ofList (c :: text))
  | '!' :: text => some (.doc .inner, String.ofList text)
  | _ => none

/-- A comment with the comments nested in it; `s` is the text behind `/*`. -/
def blockComment (s : List Char) : Cut :=
  match closeComment 0 s with
  | none => .error .openComment
  | some (body, rest) => .ok (⟨'/' :: '*' :: (body ++ ['*', '/']), blockDoc? body⟩, rest)

/-! ## Quoted literals -/

/-- The text up to and with the closing quote; a backslash protects the next character. -/
def closeQuote (quote : Char) : List Char → Option (List Char × List Char)
  | [] => none
  | ['\\'] => none
  | '\\' :: c :: s => (closeQuote quote s).map fun r => ('\\' :: c :: r.1, r.2)
  | c :: s =>
    if c = quote then some ([c], s)
    else (closeQuote quote s).map fun r => (c :: r.1, r.2)

/-- A literal that opens with `opening`; `s` is the text behind it. -/
def quotedLiteral (kind : Kind) (opening : List Char) (quote : Char) (s : List Char) : Cut :=
  match closeQuote quote s with
  | none => .error .openLiteral
  | some (body, rest) => .ok (.plain kind (opening ++ body), rest)

/-- The text up to and with a double quote and `hashes` number signs. -/
def closeRaw (hashes : Nat) : List Char → Option (List Char × List Char)
  | [] => none
  | c :: s =>
    if c = '"' ∧ (List.replicate hashes '#').isPrefixOf s then
      some (c :: List.replicate hashes '#', s.drop hashes)
    else (closeRaw hashes s).map fun r => (c :: r.1, r.2)

/-- A raw literal that opens with `opening`; `s` starts with its number signs. -/
def rawLiteral (kind : Kind) (opening : List Char) (s : List Char) : Cut :=
  let hashes := s.takeWhile (· = '#')
  match s.dropWhile (· = '#') with
  | '"' :: s =>
    match closeRaw hashes.length s with
    | none => .error .openRaw
    | some (body, rest) => .ok (.plain kind (opening ++ hashes ++ '"' :: body), rest)
  | _ => .error .rawWithoutQuote

/-! ## Words -/

def wordKind (word : List Char) : Kind :=
  if word = ['_'] then .underscore
  else match Keyword.ofText? (String.ofList word) with
    | some k => .keyword k
    | none => .identifier

def word (s : List Char) : Lexeme × List Char :=
  (.plain (wordKind (s.takeWhile isWordPart)) (s.takeWhile isWordPart), s.dropWhile isWordPart)

/-- A name behind `r#`, which no keyword is. -/
def rawWord (s : List Char) : Lexeme × List Char :=
  (⟨'r' :: '#' :: s.takeWhile isWordPart,
    some (.identifier, String.ofList (s.takeWhile isWordPart))⟩, s.dropWhile isWordPart)

def startsWord (s : List Char) : Bool := s.head?.any isWordStart

/-- A character literal or a lifetime; `s` is the text behind the single quote. -/
def charOrLifetime (s : List Char) : Cut :=
  match s with
  | '\\' :: _ | _ :: '\'' :: _ => quotedLiteral .char ['\''] '\'' s
  | _ =>
    if startsWord s then
      .ok (.plain .lifetime ('\'' :: s.takeWhile isWordPart), s.dropWhile isWordPart)
    else .error .openChar

/-! ## Numbers -/

def isDigitPart (c : Char) : Bool := isDigit c || c == '_'

/-- The radix that the letter behind a zero announces. -/
def radixOf? : Char → Option Nat
  | 'x' => some 16
  | 'o' => some 8
  | 'b' => some 2
  | _ => none

/-- A point and digits. The point of a range or of a method call is no part of the number. -/
def fraction (s : List Char) : List Char :=
  match s with
  | '.' :: s => if s.head? = some '.' ∨ startsWord s then [] else '.' :: s.takeWhile isDigitPart
  | _ => []

/-- The letter `e`, an optional sign, and digits. -/
def exponent (s : List Char) : List Char :=
  match s with
  | e :: s =>
    if e = 'e' ∨ e = 'E' then
      match s with
      | d :: t =>
        if isDigitPart d then e :: s.takeWhile isDigitPart
        else if (d = '+' ∨ d = '-') ∧ t.head?.any isDigit then e :: d :: t.takeWhile isDigitPart
        else []
      | [] => []
    else []
  | [] => []

def suffix (s : List Char) : List Char := if startsWord s then s.takeWhile isWordPart else []

def isFloatSuffix (s : List Char) : Bool := s == ['f', '3', '2'] || s == ['f', '6', '4']

/-- An integer behind a radix prefix `0x`, `0o` or `0b`. -/
def radixNumber (letter : Char) (radix : Nat) (s : List Char) : Cut :=
  let digits := s.takeWhile fun c => isDigitOf radix c || c == '_'
  let rest := s.drop digits.length
  if digits.all (· = '_') then .error .noDigits
  else .ok (.plain .int ('0' :: letter :: (digits ++ suffix rest)), rest.drop (suffix rest).length)

def decimalNumber (s : List Char) : Lexeme × List Char :=
  let whole := s.takeWhile isDigitPart
  let rest := s.drop whole.length
  let frac := fraction rest
  let rest := rest.drop frac.length
  let exp := exponent rest
  let rest := rest.drop exp.length
  let suff := suffix rest
  let kind := if frac ≠ [] ∨ exp ≠ [] ∨ isFloatSuffix suff then Kind.float else .int
  (.plain kind (whole ++ (frac ++ (exp ++ suff))), rest.drop suff.length)

def number (s : List Char) : Cut :=
  match s with
  | '0' :: letter :: t =>
    match radixOf? letter with
    | some radix => radixNumber letter radix t
    | none => .ok (decimalNumber s)
  | _ => .ok (decimalNumber s)

/-! ## Marks -/

/-- The kind and text of the mark or delimiter that a text starts with. -/
def mark? (s : List Char) : Option (Kind × List Char) :=
  match Punct.ofStart? s with
  | some p => some (.punct p, p.text.toList)
  | none =>
    match Delim.all.find? (s.head? = some ·.openChar) with
    | some d => some (.opener d, [d.openChar])
    | none =>
      match Delim.all.find? (s.head? = some ·.closeChar) with
      | some d => some (.closer d, [d.closeChar])
      | none => none

/-! ## The first lexeme -/

/-- Cuts off the first lexeme of the text `c :: s`. -/
def firstLexeme (c : Char) (s : List Char) : Cut :=
  if isBlank c then .ok (.skipped (c :: s.takeWhile isBlank), s.dropWhile isBlank)
  else match c, s with
  | '/', '/' :: t => .ok (lineComment t)
  | '/', '*' :: t => blockComment t
  | 'b', '\'' :: t => quotedLiteral .byte ['b', '\''] '\'' t
  | 'b', '"' :: t => quotedLiteral .byteString ['b', '"'] '"' t
  | 'b', 'r' :: '"' :: t => rawLiteral .byteString ['b', 'r'] ('"' :: t)
  | 'b', 'r' :: '#' :: t => rawLiteral .byteString ['b', 'r'] ('#' :: t)
  | 'r', '"' :: t => rawLiteral .string ['r'] ('"' :: t)
  | 'r', '#' :: '"' :: t => rawLiteral .string ['r'] ('#' :: '"' :: t)
  | 'r', '#' :: '#' :: t => rawLiteral .string ['r'] ('#' :: '#' :: t)
  | 'r', '#' :: t =>
    if startsWord t then .ok (rawWord t) else .ok (word (c :: s))
  | '"', t => quotedLiteral .string ['"'] '"' t
  | '\'', t => charOrLifetime t
  | _, _ =>
    if isDigit c then number (c :: s)
    else if isWordStart c then .ok (word (c :: s))
    else match mark? (c :: s) with
      | some (kind, chars) => .ok (.plain kind chars, (c :: s).drop chars.length)
      | none => .error (.unknownStart c)

end Ferrotype
