/-!
# Strict UTF-8

Decoding stops at the first sequence that is not well formed, and tells which bytes of it could
not be used and why.
-/

namespace Ferrotype.Text

inductive Utf8Reason where
  | startByte | continuation | endOfData
  deriving Repr, DecidableEq

def Utf8Reason.text : Utf8Reason → String
  | startByte => "invalid start byte"
  | continuation => "invalid continuation byte"
  | endOfData => "unexpected end of data"

/-- The bytes at fault: where they start, the first of them, and how many there are. -/
structure Utf8Fault where
  offset : Nat
  first : UInt8
  count : Nat
  reason : Utf8Reason
  deriving Repr, DecidableEq

def hexByte (b : UInt8) : String :=
  String.ofList [Nat.digitChar (b.toNat / 16), Nat.digitChar (b.toNat % 16)]

def Utf8Fault.message (f : Utf8Fault) : String :=
  let what :=
    if f.count = 1 then "byte 0x" ++ hexByte f.first ++ " in position " ++ toString f.offset
    else "bytes in position " ++ toString f.offset ++ "-" ++ toString (f.offset + f.count - 1)
  "'utf-8' codec can't decode " ++ what ++ ": " ++ f.reason.text

def isContinuation (b : UInt8) : Bool := 0x80 ≤ b && b ≤ 0xBF

/-- The number of bytes that a first byte announces, and the bounds of the second byte. -/
def sequenceShape? (b : UInt8) : Option (Nat × UInt8 × UInt8) :=
  if b < 0x80 then some (1, 0, 0)
  else if b < 0xC2 then none
  else if b < 0xE0 then some (2, 0x80, 0xBF)
  else if b = 0xE0 then some (3, 0xA0, 0xBF)
  else if b = 0xED then some (3, 0x80, 0x9F)
  else if b < 0xF0 then some (3, 0x80, 0xBF)
  else if b = 0xF0 then some (4, 0x90, 0xBF)
  else if b < 0xF4 then some (4, 0x80, 0xBF)
  else if b = 0xF4 then some (4, 0x80, 0x8F)
  else none

/-- How many bytes behind the first one fit the sequence. -/
def fitting (low high : UInt8) (tail : List UInt8) : Nat :=
  match tail with
  | [] => 0
  | b :: tail =>
    if low ≤ b && b ≤ high then 1 + (tail.takeWhile isContinuation).length else 0

/-- The code point of a well-formed sequence. -/
def codePoint (first : UInt8) (tail : List UInt8) : Nat :=
  let lead :=
    match tail.length with
    | 0 => first.toNat
    | 1 => first.toNat % 0x20
    | 2 => first.toNat % 0x10
    | _ => first.toNat % 0x08
  tail.foldl (fun n b => n * 64 + b.toNat % 64) lead

/-- Decodes bytes, the first of which stands at `offset`. -/
def decodeFrom (offset : Nat) (bytes : List UInt8) : Except Utf8Fault (List Char) :=
  match bytes with
  | [] => .ok []
  | first :: rest =>
    match sequenceShape? first with
    | none => .error ⟨offset, first, 1, .startByte⟩
    | some (length, low, high) =>
      let tail := rest.take (length - 1)
      let good := fitting low high tail
      if good + 1 = length then
        (decodeFrom (offset + length) (rest.drop (length - 1))).map
          (Char.ofNat (codePoint first tail) :: ·)
      else if good = rest.length then .error ⟨offset, first, good + 1, .endOfData⟩
      else .error ⟨offset, first, good + 1, .continuation⟩
termination_by bytes.length
decreasing_by
  simp only [List.length_drop, List.length_cons]
  omega

def decodeUtf8 (bytes : List UInt8) : Except Utf8Fault (List Char) := decodeFrom 0 bytes

end Ferrotype.Text
