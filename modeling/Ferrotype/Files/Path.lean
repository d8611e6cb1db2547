import Ferrotype.Text.Parts

/-! # Paths -/

namespace Ferrotype

/-- A path in lexical normal form: no empty parts and no `.` parts, and `..` kept. -/
structure Path where
  absolute : Bool
  parts : List String
  deriving Repr, DecidableEq

namespace Path

def ofString (text : String) : Path where
  absolute := text.toList.head? = some '/'
  parts :=
    ((Text.splitAtChar '/' text.toList).map String.ofList).filter fun p => p != "" && p != "."

/-- The path as text; `.` where nothing is left. -/
def toText (p : Path) : String :=
  match p.absolute, p.parts with
  | false, [] => "."
  | absolute, parts => (if absolute then "/" else "") ++ "/".intercalate parts

def parent (p : Path) : Path := { p with parts := p.parts.dropLast }

/-- A name without its suffix. A point at either end starts no suffix. -/
def stem (name : String) : String :=
  let reversed := name.toList.reverse
  let suffix := reversed.takeWhile (· ≠ '.')
  match suffix, reversed.drop suffix.length with
  | _ :: _, '.' :: c :: rest => String.ofList (c :: rest).reverse
  | _, _ => name

/-- The path with the suffix of its last part replaced. -/
def withSuffix (p : Path) (suffix : String) : Path :=
  match p.parts.getLast? with
  | some name => { p with parts := p.parts.dropLast ++ [stem name ++ suffix] }
  | none => p

end Path

end Ferrotype
