import Ferrotype.Grammar.TokenTree

/-!
# Rules

A rule of the grammar reads tokens from the front of a list. It yields what it found and the
tokens that are left, or a fault.
-/

namespace Ferrotype

abbrev Rule (α : Type) := StateT (List Token) (Except GrammarFault) α

namespace Rule

/-! ## Looking ahead -/

/-- The kind of the `k`-th token from here; nothing at the end of the file. -/
def kindAt (k : Nat) : Rule (Option Kind) := return ((← get)[k]?).map Token.kind

/-- Whether the next token has a kind of a class. -/
def nextIs (p : Kind → Bool) : Rule Bool := return (← kindAt 0).any p

def isAt (kind : Kind) : Rule Bool := nextIs (· == kind)

def ahead (test : List Token → Bool) : Rule Bool := return test (← get)

/-- The text of the next token; empty at the end of the file. -/
def nextText : Rule String := return ((← get).head?).elim "" Token.text

def refuse (what : Expectation) (note : String) : Rule α := do
  throw (.expected what (← get).head? note)

/-! ## Reading -/

/-- Reads a token; at the end of the file there is none. -/
def advance : Rule (Option Token) := do
  match ← get with
  | [] => return none
  | t :: ts =>
    set ts
    return some t

/-- Reads over a token of a kind, if there is one. -/
def accept (kind : Kind) : Rule Bool := do
  if ← isAt kind then
    discard advance
    return true
  else return false

def expect (kind : Kind) (note : String) : Rule Token := do
  match ← get with
  | t :: ts =>
    if t.kind = kind then
      set ts
      return t
    else throw (.expected (.token kind) (some t) note)
  | [] => throw (.expected (.token kind) none note)

/-- The end of the file, which is no token. -/
def expectFinish (note : String) : Rule Unit := do
  match ← get with
  | [] => return ()
  | t :: _ => throw (.expected .finish (some t) note)

def expectName : Rule String := return (← expect .identifier "identifier").text

/-! ## Reading over -/

def dropping (drop : List Token → Except GrammarFault (List Token)) : Rule Unit := do
  set (← drop (← get))

def skipTree : Rule Unit := dropping Grammar.dropTree

def skipTo (stop : Kind → Bool) : Rule Unit := dropping (Grammar.dropTreesUntil stop)

/-- Reads over token trees, up to and with a semicolon. -/
def skipToSemicolon : Rule Unit := do
  skipTo (· == .punct .semicolon)
  discard advance

/-- Reads over token trees, up to and with a semicolon or a block. -/
def skipToBlockOrSemicolon : Rule Unit := do
  skipTo fun kind => kind == .punct .semicolon || kind == .opener .brace
  skipTree

/-! ## Texts -/

/-- The texts of tokens, apart by one space. -/
def textOf (ts : List Token) : String := " ".intercalate (ts.map Token.text)

/-- What a rule finds, with the text that it reads. -/
def withText (rule : Rule α) : Rule (α × String) := do
  let before ← get
  let a ← rule
  let after ← get
  return (a, textOf (before.take (before.length - after.length)))

end Rule

/-! ## Repetition -/

inductive Turn (α : Type) where
  | stop
  | last (a : α)
  | more (a : α)

/-- Repeats a turn. A turn that reads nothing would come again and again. -/
def repeatTurns (turn : Rule (Turn α)) (ts : List Token) :
    Except GrammarFault (List α × List Token) :=
  match turn ts with
  | .error fault => .error fault
  | .ok (.stop, rest) => .ok ([], rest)
  | .ok (.last a, rest) => .ok ([a], rest)
  | .ok (.more a, rest) =>
    if _h : rest.length < ts.length then
      match repeatTurns turn rest with
      | .error fault => .error fault
      | .ok (as, rest) => .ok (a :: as, rest)
    else .error .endless
termination_by ts.length

namespace Rule

def many (turn : Rule (Turn α)) : Rule (List α) := repeatTurns turn

/-- Elements with commas between them, up to a closer. The last one may have a comma too. -/
def commaList (closer : Kind) (element : Rule α) : Rule (List α) :=
  many do
    if ← isAt closer then return .stop
    let a ← element
    if ← accept (.punct .comma) then return .more a else return .last a

/-- As `commaList`, but an element must be followed by a comma or the closer. -/
def strictCommaList (closer : Kind) (fault : Expectation) (element : Rule α) : Rule (List α) :=
  many do
    if ← isAt closer then return .stop
    let a ← element
    if ← accept (.punct .comma) then return .more a
    else if ← isAt closer then return .last a
    else refuse fault ""

end Rule

end Ferrotype
