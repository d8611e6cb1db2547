import Ferrotype.Text.Quoted

/-!
# Types of declarations

The types that declarations are written with, and their text.
-/

namespace Ferrotype

inductive Primitive where
  | string | number | boolean | any | void | null | undefined
  deriving Repr, DecidableEq

namespace Primitive

def name : Primitive → String
  | string => "string"
  | number => "number"
  | boolean => "boolean"
  | any => "any"
  | void => "void"
  | null => "null"
  | undefined => "undefined"

end Primitive

mutual

/-- A type. A value of type `ρ` may stand where a type should be; the empty type allows none. -/
inductive TsType (ρ : Type) where
  | primitive (p : Primitive)
  | array (element : TsType ρ)
  | object (properties : List (TsProperty ρ))
  | union (members : List (TsType ρ))
  | reference (name : String)
  | function (params : List (TsParam ρ)) (result : TsType ρ)
  | generic (base : String) (arguments : List (TsType ρ))
  | foreign (value : ρ)

inductive TsProperty (ρ : Type) where
  | mk (name : String) (type : TsType ρ) (optional readonly : Bool)

inductive TsParam (ρ : Type) where
  | mk (name : String) (type : TsType ρ) (optional : Bool)

end

namespace TsType

def optional (t : TsType ρ) : TsType ρ := union [t, primitive .undefined]

/-- Types whose text is not one word, as the element of an array needs. -/
def isLoose : TsType ρ → Bool
  | union _ | function _ _ => true
  | _ => false

def mark (optional : Bool) : String := if optional then "?" else ""

mutual

/-- The text of a type, or the first value in it that is no type. -/
def render : TsType ρ → Except ρ String
  | primitive p => .ok p.name
  | array element => do
    let text ← render element
    return (if element.isLoose then "(" ++ text ++ ")" else text) ++ "[]"
  | object properties => do
    return "\x7b " ++ ", ".intercalate (← renderProperties properties) ++ " \x7d"
  | union members => return " | ".intercalate (← renderAll members)
  | reference name => .ok name
  | function params result => do
    let params ← renderParams params
    return "(" ++ ", ".intercalate params ++ ") => " ++ (← render result)
  | generic base arguments => do
    return base ++ "<" ++ ", ".intercalate (← renderAll arguments) ++ ">"
  | foreign value => .error value

def renderAll : List (TsType ρ) → Except ρ (List String)
  | [] => .ok []
  | t :: ts => do
    let text ← render t
    return text :: (← renderAll ts)

def renderProperties : List (TsProperty ρ) → Except ρ (List String)
  | [] => .ok []
  | .mk name type optional readonly :: ps => do
    let text ← render type
    let text := (if readonly then "readonly " else "") ++ name ++ mark optional ++ ": " ++ text
    return text :: (← renderProperties ps)

def renderParams : List (TsParam ρ) → Except ρ (List String)
  | [] => .ok []
  | .mk name type optional :: ps => do
    let text ← render type
    return (name ++ mark optional ++ ": " ++ text) :: (← renderParams ps)

end

/-- The text of a type in which nothing else than types stands. -/
def text (t : TsType Empty) : String :=
  match t.render with
  | .ok text => text
  | .error value => nomatch value

end TsType

/-! ## Values that are no types -/

inductive Scalar where
  | none
  | bool (value : Bool)
  | int (value : Int)
  | str (value : String)
  deriving Repr, DecidableEq

def Scalar.debugText : Scalar → String
  | none => "None"
  | bool true => "True"
  | bool false => "False"
  | int n => toString n
  | str s => Text.quoted s

end Ferrotype
