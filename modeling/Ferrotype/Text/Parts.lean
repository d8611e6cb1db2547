/-! # Parts of texts -/

namespace Ferrotype.Text

/-- Splits at every occurrence of a character. There is always a first part. -/
def splitAtChar (separator : Char) : List Char → List (List Char)
  | [] => [[]]
  | c :: s =>
    match splitAtChar separator s with
    | [] => [[c]]
    | part :: parts => if c = separator then [] :: part :: parts else (c :: part) :: parts

def occursIn (part : List Char) : List Char → Bool
  | [] => part.isEmpty
  | c :: s => part.isPrefixOf (c :: s) || occursIn part s

end Ferrotype.Text
