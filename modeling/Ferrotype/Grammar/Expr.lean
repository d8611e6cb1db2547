import Ferrotype.Grammar.Path

/-! # Expressions -/

namespace Ferrotype.Grammar

open Rule

/-! ## Operators -/

/-- Whether a token starts where the text of the one before it ends. -/
def adjacent (t u : Token) : Bool :=
  t.place.line == u.place.line && u.place.column == t.place.column + t.text.length

/-- A shift at the start of a list: two angle brackets of one kind without a gap. -/
def shiftAt? : List Token → Option BinaryOp
  | t :: u :: _ =>
    if u.kind = t.kind ∧ adjacent t u then
      if t.kind = .punct .lt then some .shl
      else if t.kind = .punct .gt then some .shr
      else none
    else none
  | _ => none

/--
The operator at the start of a list, and the number of its tokens. Any token but a name is taken
by its text.
-/
def operatorAt? (ts : List Token) : Option (BinaryOp × Nat) :=
  match shiftAt? ts with
  | some op => some (op, 2)
  | none =>
    match ts with
    | t :: _ =>
      if t.kind = .identifier then none else (BinaryOp.ofText? t.text).map fun op => (op, 1)
    | [] => none

/-! ## Operands -/

def pathExpr (R : Rules) : Rule Expr := do
  let leading ← accept (.punct .colonColon)
  let words ← many do
    let word ← pathWord .pathWord
    let generic ← ahead startsTurbofish
    if generic then
      discard advance
      discard <| genericArgs R
    if ← ahead pathContinues then
      discard advance
      return .more (word, generic)
    else return .last (word, generic)
  return .path (words.map Prod.fst) leading (words.any Prod.snd)

def callArgs (R : Rules) : Rule (List Expr) := do
  discard <| expect (.opener .paren) ""
  let arguments ← commaList (.closer .paren) (R.binary 1)
  discard <| expect (.closer .paren) ""
  return arguments

/-- The elements of `[a, b]`, or the value and the count of `[a; n]`. -/
def arrayElements (R : Rules) : Rule (List Expr) := do
  discard <| expect (.opener .bracket) ""
  if ← accept (.closer .bracket) then return []
  let first ← R.binary 1
  let more ←
    if ← accept (.punct .semicolon) then pure [← R.binary 1]
    else moreElements (.closer .bracket) (R.binary 1)
  discard <| expect (.closer .bracket) ""
  return first :: more

def literalKind? : Kind → Option LiteralKind
  | .int => some .int
  | .float => some .float
  | .char => some .char
  | .byte => some .byte
  | .byteString => some .byteStr
  | .keyword .trueKw | .keyword .falseKw => some .bool
  | _ => none

def plainLiteral (kind : LiteralKind) : Rule Expr := do
  let text ← nextText
  discard advance
  return .literal text kind

def stringLiteral : Rule Expr := do
  let t ← expect .string ""
  match cookString t.text with
  | .ok value => return .literal value .str
  | .error fault => throw (.badString fault t)

/-- Whether a block starts here. A word may stand before it. -/
def startsBlock : List Token → Bool
  | t :: ts =>
    t.kind == .opener .brace ||
      ((t.kind == .keyword .unsafeKw || t.kind == .keyword .constKw) &&
        ts.head?.any fun u => u.kind == .opener .brace)
  | [] => false

def blockExpr : Rule Expr := do
  unless ← isAt (.opener .brace) do
    discard advance
  skipTree
  return .block

def primary (R : Rules) : Rule Expr := do
  if ← isAt .string then stringLiteral
  else if let some kind := (← kindAt 0).bind literalKind? then plainLiteral kind
  else if ← isAt (.opener .paren) then parenOrTuple (R.binary 1) .paren .tuple
  else if ← isAt (.opener .bracket) then return .array (← arrayElements R)
  else if ← ahead startsBlock then blockExpr
  else if ← ahead startsMacro then return .macroCall (← macroCall)
  else if ← nextIs fun kind => kind.isPathWord || kind == .punct .colonColon then pathExpr R
  else if ← isAt (.punct .lt) then
    return .path ((← qualifiedPath R).2.map Segment.name) false true
  else refuse .expression ""

inductive Suffix where
  | member (name : String)
  | call (arguments : List Expr)
  | index (index : Expr)
  | question

def Suffix.apply (e : Expr) : Suffix → Expr
  | member name => .member e name
  | call arguments => .call e arguments
  | index i => .index e i
  | question => .question e

def memberName : Rule String := do
  if ← nextIs fun kind => kind == .identifier || kind == .int then
    let name ← nextText
    discard advance
    return name
  else refuse .member ""

def suffixTurn (R : Rules) : Rule (Turn Suffix) := do
  if ← accept (.punct .dot) then
    let name ← memberName
    if ← ahead startsTurbofish then
      discard advance
      discard <| genericArgs R
    return .more (.member name)
  else if ← isAt (.opener .paren) then return .more (.call (← callArgs R))
  else if ← accept (.opener .bracket) then
    let i ← R.binary 1
    discard <| expect (.closer .bracket) ""
    return .more (.index i)
  else if ← accept (.punct .question) then return .more .question
  else return .stop

def suffixed (R : Rules) : Rule Expr := do
  let e ← primary R
  return (← many (suffixTurn R)).foldl Suffix.apply e

def unaryTurn : Rule (Turn UnaryOp) := do
  if ← accept (.punct .minus) then return .more .neg
  else if ← accept (.punct .bang) then return .more .not
  else if ← accept (.punct .star) then return .more .deref
  else if ← accept (.punct .and) then return .more (.ref false (← accept (.keyword .mutKw)))
  else if ← accept (.punct .andAnd) then return .more (.ref true (← accept (.keyword .mutKw)))
  else return .stop

/-- An operand behind its unary operators, the last of which applies first. -/
def unary (R : Rules) : Rule Expr := do
  let ops ← many unaryTurn
  return ops.foldr .unary (← suffixed R)

def cast (R : Rules) : Rule Expr := do
  let e ← unary R
  let types ← many do
    if ← accept (.keyword .asKw) then return .more (← R.type false) else return .stop
  return types.foldl .cast e

/-- Operands and operators of at least a precedence. The right operand binds tighter. -/
def binary (R : Rules) (least : Nat) : Rule Expr := do
  let left ← cast R
  let more ← many do
    match operatorAt? (← get) with
    | some (op, width) =>
      if least ≤ op.precedence then
        modify (List.drop width)
        return .more (op, ← R.binary (op.precedence + 1))
      else return .stop
    | none => return .stop
  return more.foldl (fun left next => .binary left next.1 next.2) left

end Ferrotype.Grammar
