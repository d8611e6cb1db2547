/-! # Places in a text -/

namespace Ferrotype

/-- Line and column, in characters, both from 1. -/
structure Position where
  line : Nat
  column : Nat
  deriving Repr, DecidableEq, Inhabited

namespace Position

def start : Position := ⟨1, 1⟩

/-- Only `\n` starts a line. -/
def next (p : Position) (c : Char) : Position :=
  if c = '\n' then ⟨p.line + 1, 1⟩ else ⟨p.line, p.column + 1⟩

/-- The place behind a text that starts at `p`. -/
def after (p : Position) (s : List Char) : Position := s.foldl next p

@[simp] theorem after_nil (p : Position) : p.after [] = p := rfl

@[simp] theorem after_cons (p : Position) (c : Char) (s : List Char) :
    p.after (c :: s) = (p.next c).after s := rfl

theorem after_append (p : Position) (s t : List Char) : p.after (s ++ t) = (p.after s).after t :=
  List.foldl_append

end Position

end Ferrotype
