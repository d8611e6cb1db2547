import Ferrotype.Text.JsonString

/-! # Declarations -/

namespace Ferrotype

/-! ## Enums -/

/-- The value that a variant has instead of its position. -/
inductive EnumValue where
  | string (value : String)
  | number (value : Int)
  | identifier (name : String)
  deriving Repr, DecidableEq

def EnumValue.text : EnumValue → String
  | string value => Text.jsonString value
  | number value => toString value
  | identifier name => name

structure EnumMember where
  name : String
  value : Option EnumValue
  doc : Option String
  deriving Repr, DecidableEq

/-! ## Interfaces and traits -/

/-- Types are kept as their text. -/
structure InterfaceField where
  name : String
  type : String
  optional : Bool
  doc : Option String
  deriving Repr, DecidableEq

structure MethodParam where
  name : String
  type : String
  deriving Repr, DecidableEq

structure Method where
  name : String
  params : List MethodParam
  result : String
  doc : Option String
  deriving Repr, DecidableEq

/-! ## Declarations -/

inductive Declaration where
  | interface (name : String) (fields : List InterfaceField) (doc : Option String)
  | enumeration (name : String) (members : List EnumMember) (doc : Option String)
  | trait (name : String) (methods : List Method) (doc : Option String)
  deriving Repr, DecidableEq

def Declaration.name : Declaration → String
  | interface name _ _ | enumeration name _ _ | trait name _ _ => name

/-- Declarations by name, in order. -/
abbrev Schema := List (String × Declaration)

/-- Puts a declaration at the end; an earlier one of its name is dropped. -/
def Schema.put (schema : Schema) (d : Declaration) : Schema :=
  schema.filter (·.1 != d.name) ++ [(d.name, d)]

end Ferrotype
