import Ferrotype.Text.Character

/-! # Line breaks -/

namespace Ferrotype.Text

/-- The characters that end a line of a document. -/
def isLineBreak (c : Char) : Bool :=
  inRanges [(0xA, 0xD), (0x1C, 0x1E), (0x85, 0x85), (0x2028, 0x2029)] c

/-- The lines of a text, without their breaks; `\r\n` is one break, and no line follows the last. -/
def splitLines : List Char → List (List Char)
  | [] => []
  | '\r' :: '\n' :: s => [] :: splitLines s
  | c :: s =>
    if isLineBreak c then [] :: splitLines s
    else match splitLines s with
      | [] => [[c]]
      | line :: lines => (c :: line) :: lines

/-- Reads `\r\n` and a lone `\r` as `\n`. -/
def normalizeNewlines : List Char → List Char
  | [] => []
  | '\r' :: '\n' :: s => '\n' :: normalizeNewlines s
  | '\r' :: s => '\n' :: normalizeNewlines s
  | c :: s => c :: normalizeNewlines s

end Ferrotype.Text
