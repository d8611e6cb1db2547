/-!
# Types and expressions of the source language

Types and expressions contain each other: an array type has a length, a cast has a type.
-/

namespace Ferrotype

/-! ## Operators and literals -/

inductive LiteralKind where
  | str | int | float | char | bool | byte | byteStr
  deriving Repr, DecidableEq

namespace LiteralKind

def name : LiteralKind → String
  | str => "str"
  | int => "int"
  | float => "float"
  | char => "char"
  | bool => "bool"
  | byte => "byte"
  | byteStr => "byte_str"

end LiteralKind

/-- A reference operator may be written twice, and may ask for a mutable reference. -/
inductive UnaryOp where
  | neg | not | deref
  | ref (double mutable : Bool)
  deriving Repr, DecidableEq

namespace UnaryOp

def text : UnaryOp → String
  | neg => "-"
  | not => "!"
  | deref => "*"
  | ref double mutable =>
    (if double then "&&" else "&") ++ if mutable then "mut " else ""

end UnaryOp

inductive BinaryOp where
  | or | and
  | eq | ne | lt | gt | le | ge
  | bitOr | bitXor | bitAnd
  | shl | shr
  | add | sub
  | mul | div | rem
  deriving Repr, DecidableEq

namespace BinaryOp

def all : List BinaryOp :=
  [.or, .and, .eq, .ne, .lt, .gt, .le, .ge, .bitOr, .bitXor, .bitAnd, .shl, .shr, .add, .sub,
    .mul, .div, .rem]

def text : BinaryOp → String
  | or => "||"
  | and => "&&"
  | eq => "=="
  | ne => "!="
  | lt => "<"
  | gt => ">"
  | le => "<="
  | ge => ">="
  | bitOr => "|"
  | bitXor => "^"
  | bitAnd => "&"
  | shl => "<<"
  | shr => ">>"
  | add => "+"
  | sub => "-"
  | mul => "*"
  | div => "/"
  | rem => "%"

/-- An operator of higher precedence binds tighter. All of them associate to the left. -/
def precedence : BinaryOp → Nat
  | or => 1
  | and => 2
  | eq | ne | lt | gt | le | ge => 3
  | bitOr => 4
  | bitXor => 5
  | bitAnd => 6
  | shl | shr => 7
  | add | sub => 8
  | mul | div | rem => 9

def ofText? (text : String) : Option BinaryOp := all.find? fun op => op.text == text

theorem ofText?_text (op : BinaryOp) : ofText? op.text = some op := by cases op <;> decide

end BinaryOp

/-! ## The trees -/

mutual

inductive Ty where
  | path (qualifier : Option Ty) (leadingColon : Bool) (segments : List Segment)
  | reference (lifetime : Option String) (mutable : Bool) (element : Ty)
  | pointer (mutable : Bool) (element : Ty)
  | tuple (elements : List Ty)
  | slice (element : Ty)
  | array (element : Ty) (length : Expr)
  | paren (element : Ty)
  | traitObject (bounds : List String) (hasDyn : Bool)
  | implTrait (bounds : List String)
  | bareFn (inputs : List Ty) (output : Option Ty)
  | never
  | infer
  | macroCall (name : String)

inductive Segment where
  | mk (name : String) (arguments : Arguments)

/-- What follows the name of a segment: nothing, `<…>`, or `(…) -> …`. -/
inductive Arguments where
  | none
  | angle (arguments : List GenericArg)
  | paren (inputs : List Ty) (output : Option Ty)

inductive GenericArg where
  | type (type : Ty)
  | lifetime (name : String)
  | const (value : Expr)
  | binding (name : String) (type : Ty)
  | constraint (name : String)

/-- The contents of blocks, macros and generic arguments of paths are not kept. -/
inductive Expr where
  | literal (value : String) (kind : LiteralKind)
  | path (segments : List String) (leadingColon hasGenerics : Bool)
  | unary (op : UnaryOp) (operand : Expr)
  | binary (left : Expr) (op : BinaryOp) (right : Expr)
  | cast (expression : Expr) (type : Ty)
  | call (function : Expr) (arguments : List Expr)
  | member (expression : Expr) (name : String)
  | index (base index : Expr)
  | paren (expression : Expr)
  | tuple (elements : List Expr)
  | array (elements : List Expr)
  | block
  | macroCall (name : String)
  | question (expression : Expr)

end

namespace Segment

def name : Segment → String
  | mk name _ => name

def arguments : Segment → Arguments
  | mk _ arguments => arguments

end Segment

namespace Ty

/-- The last segment of a path type; no other type has one. -/
def lastSegment? : Ty → Option Segment
  | path _ _ segments => segments.getLast?
  | _ => none

end Ty

namespace Expr

/-- The name that an expression is, if it is one plain word. -/
def name? : Expr → Option String
  | path [name] false false => some name
  | _ => none

end Expr

namespace Segment

/-- The argument of a segment that has exactly one, a type between angle brackets. -/
def typeArgument? (s : Segment) : Option Ty :=
  match s.arguments with
  | .angle [.type t] => some t
  | _ => none

end Segment

end Ferrotype
