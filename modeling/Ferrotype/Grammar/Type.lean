import Ferrotype.Grammar.Attribute

/-! # Types, bounds and generic parameters -/

namespace Ferrotype.Grammar

open Rule

/-! ## Generic parameters and bounds -/

def parameterName : Rule String := do
  if ← isAt .lifetime then
    let name ← nextText
    discard advance
    return name
  else
    discard <| accept (.keyword .constKw)
    expectName

def generics (R : Rules) : Rule (List String) := do
  if ← accept (.punct .lt) then
    let names ← strictCommaList (.punct .gt) .parameterEnd do
      discard <| outerAttributes R
      let name ← parameterName
      dropping (dropParameterRest 0)
      return name
    discard <| expect (.punct .gt) ""
    return names
  else return []

def bound (R : Rules) : Rule Unit := do
  if ← accept .lifetime then return ()
  else if ← accept (.opener .paren) then
    discard R.bounds
    discard <| expect (.closer .paren) ""
  else
    if ← nextIs fun kind => kind == .punct .question || kind == .punct .tilde then
      discard advance
      discard <| accept (.keyword .constKw)
    if ← accept (.keyword .forKw) then
      discard <| generics R
    discard <| typePath R

/-- Tokens before which a list of bounds may end with `+`. -/
def endsBounds : Kind → Bool
  | .punct .gt | .punct .comma | .closer .paren | .opener .brace | .keyword .whereKw
  | .punct .semicolon | .punct .eq => true
  | _ => false

/-- The texts of bounds; without `allowPlus` there is one. -/
def bounds (R : Rules) (allowPlus : Bool) : Rule (List String) :=
  many do
    let (_, text) ← withText (bound R)
    if allowPlus then
      if ← accept (.punct .plus) then
        if ← nextIs endsBounds then return .last text else return .more text
      else return .last text
    else return .last text

/-! ## Types -/

/-- Words before `fn`. The text that may follow `extern` is read over. -/
def fnQualifiers : Rule (List String) :=
  many do
    let here ← kindAt 0
    let word ← nextText
    if here = some (.keyword .constKw) ∨ here = some (.keyword .asyncKw) ∨
        here = some (.keyword .unsafeKw) then
      discard advance
      return .more word
    else if here = some (.keyword .externKw) then
      discard advance
      discard <| accept .string
      return .more word
    else return .stop

def startsNamed : List Token → Bool
  | t :: u :: _ => (t.kind == .identifier || t.kind == .underscore) && u.kind == .punct .colon
  | _ => false

/-- A parameter of a function pointer; `...` has no type. -/
def bareParam (R : Rules) : Rule (Option Ty) := do
  discard <| outerAttributes R
  if ← accept (.punct .dotDotDot) then return none
  else
    if ← ahead startsNamed then
      discard advance
      discard advance
    return some (← R.type true)

def bareFn (R : Rules) : Rule Ty := do
  discard fnQualifiers
  discard <| expect (.keyword .fnKw) ""
  discard <| expect (.opener .paren) ""
  let inputs ← commaList (.closer .paren) (bareParam R)
  discard <| expect (.closer .paren) ""
  return .bareFn (inputs.filterMap id) (← arrowType R)

/-- A reference, from behind its mark on. -/
def referenceRest (R : Rules) : Rule Ty := do
  let lifetime ←
    if ← isAt .lifetime then
      let name ← nextText
      discard advance
      pure (some name)
    else pure none
  let mutable ← accept (.keyword .mutKw)
  return .reference lifetime mutable (← R.type false)

/-- A raw pointer, from behind its mark on. -/
def pointerRest (R : Rules) : Rule Ty := do
  if ← accept (.keyword .constKw) then return .pointer false (← R.type false)
  else if ← accept (.keyword .mutKw) then return .pointer true (← R.type false)
  else refuse .pointerKind ""

def sliceOrArray (R : Rules) : Rule Ty := do
  discard <| expect (.opener .bracket) ""
  let element ← R.type true
  if ← accept (.punct .semicolon) then
    let length ← R.binary 1
    discard <| expect (.closer .bracket) ""
    return .array element length
  else
    discard <| expect (.closer .bracket) ""
    return .slice element

def pathOrBounds (R : Rules) (allowPlus : Bool) : Rule Ty := do
  let (path, text) ← withText (typePath R)
  if allowPlus then
    if ← accept (.punct .plus) then return .traitObject (text :: (← bounds R true)) false
    else return path
  else return path

def type (R : Rules) (allowPlus : Bool) : Rule Ty := do
  if ← isAt (.opener .paren) then parenOrTuple (R.type true) .paren .tuple
  else if ← isAt (.opener .bracket) then sliceOrArray R
  else if ← accept (.punct .and) then referenceRest R
  else if ← accept (.punct .andAnd) then return .reference none false (← referenceRest R)
  else if ← accept (.punct .star) then pointerRest R
  else if ← accept (.punct .bang) then return .never
  else if ← accept .underscore then return .infer
  else if ← accept (.keyword .dynKw) then return .traitObject (← bounds R allowPlus) true
  else if ← accept (.keyword .implKw) then return .implTrait (← bounds R allowPlus)
  else if ← accept (.keyword .forKw) then
    discard <| generics R
    R.type allowPlus
  else if ← nextIs fun kind =>
      kind == .keyword .fnKw || kind == .keyword .unsafeKw || kind == .keyword .externKw then
    bareFn R
  else if ← isAt (.punct .lt) then
    let (qualifier, segments) ← qualifiedPath R
    return .path (some qualifier) false segments
  else if ← ahead startsMacro then return .macroCall (← macroCall)
  else if ← nextIs fun kind => kind.isPathWord || kind == .punct .colonColon then
    pathOrBounds R allowPlus
  else refuse .type ""

end Ferrotype.Grammar
