import Ferrotype.Grammar.Item
import Ferrotype.Token.Scan

/-! # Reading a file -/

namespace Ferrotype

structure Cursor where
  tokens : Tokens
  rest : List Token

namespace Cursor

def start (tokens : Tokens) : Cursor := ⟨tokens, tokens.list⟩

def position (c : Cursor) : Nat := c.tokens.list.length - c.rest.length

/-- Reads by a rule. A fault at the end of the file is placed behind the last character. -/
def read (c : Cursor) (rule : Rule α) : Except SyntaxError (α × Cursor) :=
  match rule c.rest with
  | .ok (a, rest) => .ok (a, { c with rest })
  | .error fault => .error (.ofGrammar c.tokens.finish fault)

/--
The token `offset` places from here. Behind the last token there is none, and the places before
the first one count back from there.
-/
def peek (c : Cursor) (offset : Int) : Option Token :=
  let i := c.position + offset
  let n := c.tokens.list.length + 1
  c.tokens.list[((if i < 0 then i + n else i) : Int).toNat]?

def placeOf (c : Cursor) (t : Option Token) : Position := t.elim c.tokens.finish Token.place

/-- Whether the token at `offset` starts where the text of the one before it ends. -/
def isAdjacent (c : Cursor) (offset : Int) : Bool :=
  let before := c.peek (offset - 1)
  let p := c.placeOf before
  let q := c.placeOf (c.peek offset)
  p.line == q.line && q.column == p.column + before.elim 0 fun t => t.text.length

/-- The texts of the tokens from one index up to another. The end of the file is empty text. -/
def textBetween (c : Cursor) (first last : Nat) : String :=
  " ".intercalate (((c.tokens.list.map Token.text ++ [""]).take last).drop first)

end Cursor

namespace SourceFile

def ofTokens (tokens : Tokens) : Except SyntaxError SourceFile :=
  ((Cursor.start tokens).read Grammar.sourceFile).map Prod.fst

def ofText (source : String) : Except SyntaxError SourceFile := do
  ofTokens (← tokenize source)

end SourceFile

end Ferrotype
