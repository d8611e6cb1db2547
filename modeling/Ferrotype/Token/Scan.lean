import Ferrotype.Token.Partition
import Ferrotype.SyntaxError

/-! # From text to tokens -/

namespace Ferrotype

open Text

/-- The lexemes of a text that starts at `p`, each with its place. -/
def lexemesFrom (p : Position) (s : List Char) :
    Except (LexFault × Position) (List (Lexeme × Position)) :=
  match s with
  | [] => .ok []
  | c :: t =>
    match _h : firstLexeme c t with
    | .error fault => .error (fault, p)
    | .ok (l, rest) => (lexemesFrom (p.after l.chars) rest).map ((l, p) :: ·)
termination_by s.length
decreasing_by exact firstLexeme_length _h

/-- The interpreter line of a script. `#![` opens an attribute instead. -/
def shebang (s : List Char) : List Char :=
  match s with
  | '#' :: '!' :: t =>
    if (t.dropWhile isBlank).head? = some '[' then [] else s.takeWhile (· ≠ '\n')
  | _ => []

/-- The lexemes of a whole file, the first of which may be an interpreter line. -/
def lexemes (s : List Char) : Except (LexFault × Position) (List (Lexeme × Position)) :=
  match shebang s with
  | [] => lexemesFrom .start s
  | line =>
    (lexemesFrom (Position.start.after line) (s.drop line.length)).map
      ((.skipped line, .start) :: ·)

/-- The token that a lexeme stands for, at the place of the lexeme. -/
def Lexeme.token? (l : Lexeme) (p : Position) : Option Token :=
  l.token.map fun t => ⟨t.1, t.2, p⟩

def tokenize (source : String) : Except SyntaxError Tokens :=
  match lexemes source.toList with
  | .error (fault, p) => .error ⟨.lexical fault, some p⟩
  | .ok ls =>
    .ok ⟨ls.filterMap fun l => l.1.token? l.2, Position.start.after source.toList⟩

end Ferrotype
