import Ferrotype.Token.Basic
import Ferrotype.Tree.Basic

/-! # Items of a source file -/

namespace Ferrotype

/--
An attribute, written as such or as a doc comment. A doc comment is the attribute `doc` with the
comment's text as its value.
-/
structure Attribute where
  path : String
  style : DocStyle
  value : Option Expr
  /-- The text of what follows the path, tokens apart by one space. -/
  tokens : String
  isDocComment : Bool
  line : Nat

inductive Visibility where
  | inherited
  | everywhere
  /-- `pub(crate)`, `pub(super)` or `pub(self)`. -/
  | scope (word : String)
  | restricted (path : String)
  deriving Repr, DecidableEq

namespace Visibility

def text : Visibility → String
  | inherited => ""
  | everywhere => "pub"
  | scope word => "pub(" ++ word ++ ")"
  | restricted path => "pub(in " ++ path ++ ")"

end Visibility

/-! ## Structs and enums -/

/-- A field; the fields of a tuple have no name. -/
structure Field where
  name : Option String
  type : Ty
  visibility : Visibility
  attributes : List Attribute
  line : Nat

inductive Payload where
  | unit
  | tuple (fields : List Field)
  | named (fields : List Field)

namespace Payload

def fields : Payload → List Field
  | unit => []
  | tuple fields => fields
  | named fields => fields

def kindName : Payload → String
  | unit => "unit"
  | tuple _ => "tuple"
  | named _ => "named"

end Payload

structure StructDef where
  name : String
  payload : Payload
  generics : List String

structure Variant where
  name : String
  payload : Payload
  discriminant : Option Expr
  attributes : List Attribute
  line : Nat

structure EnumDef where
  name : String
  variants : List Variant
  generics : List String

/-! ## Traits -/

inductive Param where
  /-- `self`, by value or by reference, with an optional type. -/
  | receiver (reference mutable : Bool) (type : Option Ty)
  /-- A pattern, which may be missing, and a type. -/
  | typed (pattern : String) (type : Ty)

structure FnInput where
  attributes : List Attribute
  param : Param

structure Signature where
  name : String
  inputs : List FnInput
  output : Option Ty
  generics : List String
  qualifiers : List String
  isVariadic : Bool

/-- What a trait holds besides functions. -/
inductive MemberKind where
  | type | const | macroCall
  deriving Repr, DecidableEq

namespace MemberKind

def name : MemberKind → String
  | type => "type"
  | const => "const"
  | macroCall => "macro"

end MemberKind

inductive MemberBody where
  | fn (signature : Signature) (hasDefault : Bool)
  | other (kind : MemberKind) (name : String)

structure Member where
  attributes : List Attribute
  line : Nat
  body : MemberBody

structure TraitDef where
  name : String
  members : List Member
  generics : List String
  supertraits : List String
  isUnsafe : Bool
  isAuto : Bool

/-! ## Files -/

inductive OtherKind where
  | macroRules | macroCall | union | use | static | type | module | const | crateImport | fn
  | implementation | foreignBlock
  deriving Repr, DecidableEq

namespace OtherKind

def name : OtherKind → String
  | macroRules => "macro_rules"
  | macroCall => "macro"
  | union => "union"
  | use => "use"
  | static => "static"
  | type => "type"
  | module => "mod"
  | const => "const"
  | crateImport => "extern crate"
  | fn => "fn"
  | implementation => "impl"
  | foreignBlock => "extern block"

end OtherKind

inductive ItemBody where
  | structDef (definition : StructDef)
  | enumDef (definition : EnumDef)
  | traitDef (definition : TraitDef)
  | other (kind : OtherKind) (name : String)

structure Item where
  attributes : List Attribute
  visibility : Visibility
  line : Nat
  body : ItemBody

structure SourceFile where
  attributes : List Attribute
  items : List Item

namespace SourceFile

def structs (file : SourceFile) : List StructDef :=
  file.items.filterMap fun item =>
    match item.body with
    | .structDef definition => some definition
    | _ => none

def enums (file : SourceFile) : List EnumDef :=
  file.items.filterMap fun item =>
    match item.body with
    | .enumDef definition => some definition
    | _ => none

def traits (file : SourceFile) : List TraitDef :=
  file.items.filterMap fun item =>
    match item.body with
    | .traitDef definition => some definition
    | _ => none

end SourceFile

end Ferrotype
