import Ferrotype.Text.Character
import Ferrotype.Text.Parts

/-! # Names of fields -/

namespace Ferrotype

open Text

def capitalize : List Char → List Char
  | [] => []
  | c :: s => upper c ++ s

/-- The first part stays, each later one is capitalized, and nothing stands between them. -/
def camelChars (name : List Char) : List Char :=
  match splitAtChar '_' name with
  | [] => []
  | first :: later => first ++ later.flatMap capitalize

def camelCase (name : String) : String := String.ofList (camelChars name.toList)

end Ferrotype
