import Ferrotype.Grammar.Type

/-!
# The rules together

A rule uses the others only behind a token that it has read. So as many layers of rules as there
are tokens left are enough, and no rule gets to what is below them.
-/

namespace Ferrotype

/-- Below the last layer there are no rules, and a recursion that got there would go on for ever. -/
def Rules.none : Rules where
  type _ := throw .endless
  bounds := throw .endless
  unary := throw .endless
  binary _ := throw .endless

/-- The rules for lists of at most a number of tokens. -/
def rules : Nat → Rules
  | 0 => .none
  | n + 1 => {
      type := fun allowPlus ts => Grammar.type (rules n) allowPlus ts
      bounds := fun ts => Grammar.bounds (rules n) true ts
      unary := fun ts => Grammar.unary (rules n) ts
      binary := fun least ts => Grammar.binary (rules n) least ts }

namespace Rule

def whole (rule : Rules → Rule α) : Rule α := fun ts => rule (rules ts.length) ts

end Rule

end Ferrotype
