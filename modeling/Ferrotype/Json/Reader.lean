import Ferrotype.Json.Value
import Ferrotype.Position
import Ferrotype.Text.Digits

/-!
# Reading JSON

A reader yields a value and the text behind it. A fault is placed by the number of characters
that are left from it to the end.
-/

namespace Ferrotype

inductive JsonCause where
  | byteOrderMark
  | value
  | name
  | colon
  | comma
  | openString
  | controlCharacter
  | escape
  | unicodeEscape
  | extraData
  deriving Repr, DecidableEq

def JsonCause.message : JsonCause → String
  | byteOrderMark => "Unexpected UTF-8 BOM (decode using utf-8-sig)"
  | value => "Expecting value"
  | name => "Expecting property name enclosed in double quotes"
  | colon => "Expecting ':' delimiter"
  | comma => "Expecting ',' delimiter"
  | openString => "Unterminated string starting at"
  | controlCharacter => "Invalid control character at"
  | escape => "Invalid \\escape"
  | unicodeEscape => "Invalid \\uXXXX escape"
  | extraData => "Extra data"

inductive JsonFault where
  /-- A fault of the text, with the number of characters from its place to the end. -/
  | malformed (cause : JsonCause) (left : Nat)
  /-- An integer of more decimal digits than are read. -/
  | tooManyDigits (count : Nat)
  deriving Repr, DecidableEq

namespace Json

abbrev Reader (α : Type) := List Char → Except JsonFault (α × List Char)

def fault (cause : JsonCause) (s : List Char) : Except JsonFault α :=
  .error (.malformed cause s.length)

def isSpace (c : Char) : Bool := c == ' ' || c == '\t' || c == '\n' || c == '\r'

def skipSpace (s : List Char) : List Char := s.dropWhile isSpace

/-! ## Strings -/

/-- The value of four hexadecimal digits, and what follows. -/
def hexFour? : List Char → Option (Nat × List Char)
  | a :: b :: c :: d :: s =>
    if [a, b, c, d].all Text.isHexDigit then some (Text.ofDigits 16 [a, b, c, d], s) else none
  | _ => none

def isHighSurrogate (n : Nat) : Bool := 0xD800 ≤ n && n ≤ 0xDBFF

def isLowSurrogate (n : Nat) : Bool := 0xDC00 ≤ n && n ≤ 0xDFFF

/-- A code unit as a character. A surrogate that stands alone is half of one. -/
def charOfUnit (n : Nat) : JsonChar :=
  if n.isValidChar then .char (Char.ofNat n) else .half (Fin.ofNat 0x800 (n - 0xD800))

/-- The second half of a surrogate pair, if one is announced at the start of a text. -/
def lowHalf (high : Nat) (s : List Char) : Except JsonFault (Option (Nat × List Char)) :=
  match s with
  | '\\' :: 'u' :: t =>
    if isHighSurrogate high ∧ 6 < s.length then
      match hexFour? t with
      | some (low, rest) => .ok (if isLowSurrogate low then some (low, rest) else none)
      | none => .error (.malformed .unicodeEscape (t.length + 1))
    else .ok none
  | _ => .ok none

/-- The character of an escape `\u`; `s` is the text behind it. -/
def unicodeEscape (s : List Char) : Except JsonFault (JsonChar × List Char) := do
  if s.length ≤ 4 then throw (.malformed .unicodeEscape (s.length + 1))
  match hexFour? s with
  | none => throw (.malformed .unicodeEscape (s.length + 1))
  | some (high, rest) =>
    match ← lowHalf high rest with
    | some (low, rest) =>
      return (charOfUnit (0x10000 + (high - 0xD800) * 0x400 + (low - 0xDC00)), rest)
    | none => return (charOfUnit high, rest)

def simpleEscape? : Char → Option Char
  | '"' => some '"'
  | '\\' => some '\\'
  | '/' => some '/'
  | 'b' => some '\x08'
  | 'f' => some '\x0c'
  | 'n' => some '\n'
  | 'r' => some '\r'
  | 't' => some '\t'
  | _ => none

/--
The characters of a string up to its closing quote. `start` is the number of characters from its
opening quote to the end of the text; at most `n` characters and escapes are read.
-/
def stringBody (start : Nat) : Nat → Reader (List JsonChar)
  | 0, _ => .error (.malformed .openString start)
  | _ + 1, [] => .error (.malformed .openString start)
  | n + 1, c :: s =>
    if c = '"' then .ok ([], s)
    else if c = '\\' then
      match s with
      | [] => .error (.malformed .openString start)
      | 'u' :: t => do
        let (d, rest) ← unicodeEscape t
        let (ds, rest) ← stringBody start n rest
        return (d :: ds, rest)
      | e :: t =>
        match simpleEscape? e with
        | some d => do
          let (ds, rest) ← stringBody start n t
          return (.char d :: ds, rest)
        | none => fault .escape (c :: s)
    else if c.toNat ≤ 0x1F then fault .controlCharacter (c :: s)
    else do
      let (ds, rest) ← stringBody start n s
      return (.char c :: ds, rest)

/-- A string; `s` is the text behind its opening quote. -/
def string (s : List Char) : Except JsonFault (JsonText × List Char) := do
  let (cs, rest) ← stringBody (s.length + 1) (s.length + 1) s
  return (⟨cs⟩, rest)

/-! ## Numbers and names -/

def digits (s : List Char) : List Char := s.takeWhile Char.isDigit

def integerPart (s : List Char) : List Char :=
  match s with
  | '0' :: _ => ['0']
  | s => digits s

def fractionPart (s : List Char) : List Char :=
  match s with
  | '.' :: t => if digits t = [] then [] else '.' :: digits t
  | _ => []

def exponentPart (s : List Char) : List Char :=
  match s with
  | e :: t =>
    if e = 'e' ∨ e = 'E' then
      match t with
      | sign :: u =>
        if sign = '+' ∨ sign = '-' then
          if digits u = [] then [] else e :: sign :: digits u
        else if digits t = [] then [] else e :: digits t
      | [] => []
    else []
  | [] => []

/-- The text of a number at the start of a text; empty where there is none. -/
def numberText (s : List Char) : List Char :=
  let sign := if s.head? = some '-' then ['-'] else []
  let whole := integerPart (s.drop sign.length)
  if whole = [] then []
  else
    let frac := fractionPart (s.drop (sign.length + whole.length))
    sign ++ whole ++ frac ++
      exponentPart (s.drop (sign.length + whole.length + frac.length))

def words : List (String × JsonValue) :=
  [("null", .null), ("true", .bool true), ("false", .bool false), ("NaN", .number "NaN"),
    ("Infinity", .number "Infinity"), ("-Infinity", .number "-Infinity")]

/-- The digits of a number that is an integer; a fraction or an exponent makes it none. -/
def integerDigits? (text : List Char) : Option (List Char) :=
  let digits := text.dropWhile (· = '-')
  if digits.all Char.isDigit then some digits else none

/-- The value of a number. Only the digits of an integer have a limit. -/
def numberValue (text : List Char) : Except JsonFault JsonValue :=
  match integerDigits? text with
  | some digits =>
    if Text.maxDecimalDigits < digits.length then .error (.tooManyDigits digits.length)
    else .ok (.number (String.ofList text))
  | none => .ok (.number (String.ofList text))

def atom (s : List Char) : Except JsonFault (JsonValue × List Char) :=
  match words.find? fun w => w.1.toList.isPrefixOf s with
  | some (word, value) => .ok (value, s.drop word.length)
  | none =>
    match numberText s with
    | [] => fault .value s
    | text => do return (← numberValue text, s.drop text.length)

/-! ## Values -/

mutual

/-- A value of at most `n` layers and elements. -/
def value : Nat → Reader JsonValue
  | 0, s => fault .value s
  | n + 1, s =>
    match s with
    | '"' :: s => do
      let (text, rest) ← string s
      return (.string text, rest)
    | '{' :: s =>
      match skipSpace s with
      | '}' :: rest => .ok (.object [], rest)
      | s => do
        let (ms, rest) ← members n [] s
        return (.object ms, rest)
    | '[' :: s =>
      match skipSpace s with
      | ']' :: rest => .ok (.array [], rest)
      | s => do
        let (vs, rest) ← elements n s
        return (.array vs, rest)
    | s => atom s

/-- The members from here on, behind those that have been read. -/
def members : Nat → List (JsonText × JsonValue) → Reader (List (JsonText × JsonValue))
  | 0, _, s => fault .name s
  | n + 1, before, s =>
    match s with
    | '"' :: s => do
      let (name, rest) ← string s
      match skipSpace rest with
      | ':' :: s => do
        let (v, rest) ← value n (skipSpace s)
        let before := JsonValue.putMember name v before
        match skipSpace rest with
        | '}' :: rest => return (before, rest)
        | ',' :: s => members n before (skipSpace s)
        | s => fault .comma s
      | s => fault .colon s
    | s => fault .name s

def elements : Nat → Reader (List JsonValue)
  | 0, s => fault .value s
  | n + 1, s => do
    let (v, rest) ← value n s
    match skipSpace rest with
    | ']' :: rest => return ([v], rest)
    | ',' :: s => do
      let (vs, rest) ← elements n (skipSpace s)
      return (v :: vs, rest)
    | s => fault .comma s

end

/-- A whole document. Each layer and each element takes a character at least. -/
def document (s : List Char) : Except JsonFault JsonValue := do
  if s.head? = some '\ufeff' then fault .byteOrderMark s
  let (v, rest) ← value (2 * s.length + 2) (skipSpace s)
  match skipSpace rest with
  | [] => return v
  | rest => fault .extraData rest

end Json

/-- The message of a fault in a document: the cause, and its place counted in three ways. -/
def JsonCause.messageAt (cause : JsonCause) (left : Nat) (document : List Char) : String :=
  let offset := document.length - left
  let p := Position.start.after (document.take offset)
  cause.message ++ ": line " ++ toString p.line ++ " column " ++ toString p.column ++
    " (char " ++ toString offset ++ ")"

end Ferrotype
