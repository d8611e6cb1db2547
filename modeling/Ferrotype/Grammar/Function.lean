import Ferrotype.Grammar.Basic

/-! # Function signatures -/

namespace Ferrotype.Grammar

open Rule

/-! ## Receivers -/

def dropIf (p : Kind → Bool) : List Token → List Token
  | [] => []
  | t :: ts => if p t.kind then ts else t :: ts

def headIs (kind : Kind) (ts : List Token) : Bool := ts.head?.any fun t => t.kind == kind

/-- What follows `self`, unless `self` only starts a path. -/
def behindSelf? : List Token → Option (List Token)
  | t :: ts =>
    if t.kind = .keyword .selfValueKw ∧ !headIs (.punct .colonColon) ts then some ts else none
  | [] => none

/-- `&self`, with a lifetime and `mut` or without: whether `mut` is there, and what follows. -/
def refReceiver? : List Token → Option (Bool × List Token)
  | t :: ts =>
    if t.kind = .punct .and then
      let ts := dropIf (· == .lifetime) ts
      (behindSelf? (dropIf (· == .keyword .mutKw) ts)).map fun rest =>
        (headIs (.keyword .mutKw) ts, rest)
    else none
  | [] => none

/-- `self` or `mut self`: whether `mut` is there, and what follows. -/
def plainReceiver? (ts : List Token) : Option (Bool × List Token) :=
  (behindSelf? (dropIf (· == .keyword .mutKw) ts)).map fun rest =>
    (headIs (.keyword .mutKw) ts, rest)

/-! ## Patterns -/

/--
Whether a colon comes before the end of an input, outside of groups. `depth` counts the groups
that are open, of whatever kind.
-/
def hasPattern (depth : Nat) : List Token → Bool
  | [] => false
  | t :: ts =>
    match t.kind with
    | .opener _ => hasPattern (depth + 1) ts
    | .closer _ => if depth = 0 then false else hasPattern (depth - 1) ts
    | .punct .comma => if depth = 0 then false else hasPattern depth ts
    | .punct .colon => if depth = 0 then true else hasPattern depth ts
    | _ => hasPattern depth ts

/-! ## Inputs -/

def wholeType (allowPlus : Bool) : Rule Ty := whole fun R => type R allowPlus

/-- A receiver, a pattern with its type, or a type alone. -/
def param : Rule Param := do
  let ts ← get
  match refReceiver? ts with
  | some (mutable, rest) =>
    set rest
    return .receiver true mutable none
  | none =>
    match plainReceiver? ts with
    | some (mutable, rest) =>
      set rest
      let type ← if ← accept (.punct .colon) then pure (some (← wholeType true)) else pure none
      return .receiver false mutable type
    | none =>
      if hasPattern 0 ts then
        let (_, pattern) ← withText <| skipTo (· == .punct .colon)
        discard advance
        return .typed pattern (← wholeType true)
      else return .typed "" (← wholeType true)

/-- An input with its attributes; `...` is none. -/
def fnInput : Rule (Option FnInput) := do
  let attributes ← whole outerAttributes
  if ← accept (.punct .dotDotDot) then return none else return some ⟨attributes, ← param⟩

/-- Reads over a `where` clause, if there is one. -/
def skipWhere : Rule Unit := do
  if ← accept (.keyword .whereKw) then
    skipTo fun kind => kind == .opener .brace || kind == .punct .semicolon

/-- A signature, from the words before `fn` to the end of the `where` clause. -/
def signature : Rule Signature := do
  let qualifiers ← fnQualifiers
  discard <| expect (.keyword .fnKw) ""
  let name ← expectName
  let generics ← whole generics
  discard <| expect (.opener .paren) ""
  let inputs ← commaList (.closer .paren) fnInput
  discard <| expect (.closer .paren) ""
  let output ← if ← accept (.punct .arrow) then pure (some (← wholeType true)) else pure none
  skipWhere
  return ⟨name, inputs.filterMap id, output, generics, qualifiers, inputs.any Option.isNone⟩

end Ferrotype.Grammar
