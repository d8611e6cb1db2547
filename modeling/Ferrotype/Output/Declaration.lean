import Ferrotype.Output.Doc
import Ferrotype.Options
import Ferrotype.Schema.Declaration

/-! # The text of declarations -/

namespace Ferrotype.Output

def indent : String := "    "

/-- Elements by name, in the order of code points; equal names keep their order. -/
def sortByName (name : α → String) (as : List α) : List α :=
  as.mergeSort fun a b => decide (name a ≤ name b)

def ordered (sort : Bool) (name : α → String) (as : List α) : List α :=
  if sort then sortByName name as else as

def unlines (lines : List String) : String := "\n".intercalate lines

/-! ## Interfaces and traits -/

def fieldLines (f : InterfaceField) : List String :=
  docLines 1 f.doc ++ [indent ++ f.name ++ (if f.optional then "?" else "") ++ ": " ++ f.type]

def methodLine (m : Method) : String :=
  let params := m.params.map fun p => p.name ++ ": " ++ p.type
  indent ++ m.name ++ "(" ++ ", ".intercalate params ++ "): " ++ m.result

def methodLines (m : Method) : List String := docLines 1 m.doc ++ [methodLine m]

def interfaceLines (name : String) (doc : Option String) (members : List String) : List String :=
  docLines 0 doc ++ ("export interface " ++ name ++ " \x7b") :: members ++ ["\x7d"]

/-! ## Enums -/

/-- A variant without a value has its position, which is `index` for the first. -/
def ordinalLines : Nat → List EnumMember → List String
  | _, [] => []
  | index, m :: ms =>
    let value := m.value.elim (toString index) EnumValue.text
    docLines 1 m.doc ++ (indent ++ m.name ++ " = " ++ value ++ ",") :: ordinalLines (index + 1) ms

def enumLines (name : String) (members : List EnumMember) (doc : Option String) : List String :=
  docLines 0 doc ++ ("export enum " ++ name ++ " \x7b") :: ordinalLines 0 members ++ ["\x7d"]

/-- A variant without a value has its name. -/
def unionText (m : EnumMember) : String := m.value.elim ("\"" ++ m.name ++ "\"") EnumValue.text

def unionMembers : List String → List String
  | [] => []
  | [text] => [indent ++ text ++ ";"]
  | text :: texts => (indent ++ text ++ " |") :: unionMembers texts

def unionLines (name : String) (members : List EnumMember) (doc : Option String) : List String :=
  docLines 0 doc ++
    match members with
    | [] => ["export type " ++ name ++ " = never;"]
    | _ => ("export type " ++ name ++ " =") :: unionMembers (members.map unionText)

/-! ## Declarations -/

def declarationLines (options : RenderOptions) : Declaration → List String
  | .interface name fields doc =>
    interfaceLines name doc
      ((ordered options.sortAlphabetically InterfaceField.name fields).flatMap fieldLines)
  | .enumeration name members doc =>
    if options.sumTypes then unionLines name members doc else enumLines name members doc
  | .trait name methods doc =>
    interfaceLines name doc
      ((ordered options.sortAlphabetically Method.name methods).flatMap methodLines)

/-- The text of a declaration, without a line break at the end. -/
def declarationText (options : RenderOptions) (d : Declaration) : String :=
  unlines (declarationLines options d)

end Ferrotype.Output
