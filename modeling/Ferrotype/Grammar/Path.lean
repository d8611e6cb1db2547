import Ferrotype.Grammar.Rule
import Ferrotype.Tree.Basic

/-!
# Paths and generic arguments

Types, bounds and expressions contain each other. Each rule takes the rules for its parts as an
argument, and `Rules` ties them together.
-/

namespace Ferrotype

/-- The rules that a rule may use on what follows its first token. -/
structure Rules where
  /-- A type; the argument says whether a path may start a list of bounds. -/
  type : Bool → Rule Ty
  bounds : Rule (List String)
  unary : Rule Expr
  /-- An expression of operators of at least a precedence. -/
  binary : Nat → Rule Expr

namespace Grammar

open Rule

/-! ## Lookahead -/

/-- Whether a path goes on: `::` and a word. -/
def pathContinues : List Token → Bool
  | c :: w :: _ => c.kind == .punct .colonColon && w.kind.isPathWord
  | _ => false

/-- Whether generic arguments follow in the form `::<`. -/
def startsTurbofish : List Token → Bool
  | c :: l :: _ => c.kind == .punct .colonColon && l.kind == .punct .lt
  | _ => false

/-- Drops words and the `::` between them. -/
def dropPathWords : List Token → List Token
  | [] => []
  | [w] => if w.kind.isPathWord then [] else [w]
  | w :: c :: ts =>
    if w.kind.isPathWord then
      if c.kind = .punct .colonColon then dropPathWords ts else c :: ts
    else w :: c :: ts

/-- Whether a macro is called here: a path and `!`. -/
def startsMacro (ts : List Token) : Bool :=
  match ts with
  | [] => false
  | t :: rest =>
    let behind :=
      if t.kind = .punct .colonColon then dropPathWords rest
      else if t.kind.isPathWord then dropPathWords ts
      else []
    behind.head?.any fun t => t.kind == .punct .bang

/-! ## Paths -/

def pathWord (fault : Expectation) : Rule String := do
  if ← nextIs Kind.isPathWord then
    let word ← nextText
    discard advance
    return word
  else refuse fault ""

/-- A path without generic arguments. A leading `::` makes the first word empty. -/
def simplePath : Rule String := do
  let leading ← accept (.punct .colonColon)
  let words ← many do
    let word ← pathWord .path
    if ← ahead pathContinues then
      discard advance
      return .more word
    else return .last word
  return "::".intercalate (if leading then "" :: words else words)

/-- The path of a macro call; its arguments are read over. -/
def macroCall : Rule String := do
  let name ← simplePath
  discard <| expect (.punct .bang) ""
  if ← nextIs Kind.isOpener then
    skipTree
    return name
  else refuse .macroArguments ""

/-! ## Generic arguments -/

def startsConst : Kind → Bool
  | .punct .minus | .keyword .trueKw | .keyword .falseKw | .string | .int | .float | .char | .byte
  | .byteString => true
  | _ => false

def genericArg (R : Rules) : Rule GenericArg := do
  let here ← kindAt 0
  let next ← kindAt 1
  if here = some .lifetime then
    let name ← nextText
    discard advance
    return .lifetime name
  else if here = some (.opener .brace) then
    skipTree
    return .const .block
  else if here.any startsConst then
    return .const (← R.unary)
  else if here = some .identifier ∧ next = some (.punct .eq) then
    let name ← nextText
    discard advance
    discard advance
    return .binding name (← R.type true)
  else if here = some .identifier ∧ next = some (.punct .colon) then
    let name ← nextText
    discard advance
    discard advance
    discard R.bounds
    return .constraint name
  else return .type (← R.type true)

def genericArgs (R : Rules) : Rule (List GenericArg) := do
  discard <| expect (.punct .lt) ""
  let arguments ← strictCommaList (.punct .gt) .argumentEnd (genericArg R)
  discard <| expect (.punct .gt) ""
  return arguments

/-- `-> T`, if it is there; `T` starts no list of bounds. -/
def arrowType (R : Rules) : Rule (Option Ty) := do
  if ← accept (.punct .arrow) then return some (← R.type false) else return none

def segment (R : Rules) : Rule Segment := do
  let name ← pathWord .pathWord
  if ← ahead startsTurbofish then
    discard advance
  if ← isAt (.punct .lt) then
    return .mk name (.angle (← genericArgs R))
  else if ← accept (.opener .paren) then
    let inputs ← commaList (.closer .paren) (R.type true)
    discard <| expect (.closer .paren) ""
    return .mk name (.paren inputs (← arrowType R))
  else return .mk name .none

def segments (R : Rules) : Rule (List Segment) :=
  many do
    let s ← segment R
    if ← ahead pathContinues then
      discard advance
      return .more s
    else return .last s

def typePath (R : Rules) : Rule Ty := do
  let leading ← accept (.punct .colonColon)
  return .path none leading (← segments R)

/-- The type and the segments of `<T as P>::Q` or `<T>::Q`. -/
def qualifiedPath (R : Rules) : Rule (Ty × List Segment) := do
  discard <| expect (.punct .lt) ""
  let qualifier ← R.type true
  let ofTrait ←
    if ← accept (.keyword .asKw) then
      discard <| accept (.punct .colonColon)
      segments R
    else pure []
  discard <| expect (.punct .gt) ""
  discard <| expect (.punct .colonColon) ""
  discard <| accept (.punct .colonColon)
  return (qualifier, ofTrait ++ (← segments R))

/-! ## Lists in brackets -/

/-- The elements behind the first one, each behind a comma. A last comma may stand alone. -/
def moreElements (closer : Kind) (element : Rule α) : Rule (List α) :=
  many do
    if ← accept (.punct .comma) then
      if ← isAt closer then return .stop else return .more (← element)
    else return .stop

/-- What stands in round brackets: one element alone, or a tuple. -/
def parenOrTuple (element : Rule α) (paren : α → α) (tuple : List α → α) : Rule α := do
  discard <| expect (.opener .paren) ""
  if ← accept (.closer .paren) then return tuple []
  let first ← element
  if ← accept (.closer .paren) then return paren first
  let more ← moreElements (.closer .paren) element
  discard <| expect (.closer .paren) ""
  return tuple (first :: more)

end Grammar

end Ferrotype
