import Ferrotype.Text.Lines

/-! # Doc comments of the output -/

namespace Ferrotype.Output

open Text

/-- Writes `*/` in a way that does not close a comment. -/
def guardCloser : List Char → List Char
  | [] => []
  | '*' :: '/' :: s => '*' :: '\\' :: '/' :: guardCloser s
  | c :: s => c :: guardCloser s

/-- A line without the star that a block comment puts before it. -/
def dropStar (line : List Char) : List Char :=
  match line with
  | '*' :: s => trim s
  | s => s

def docTexts (doc : List Char) : List (List Char) :=
  match (splitLines (guardCloser doc)).map trim with
  | [] => []
  | first :: later => first :: later.map dropStar

def docLine (indent text : List Char) : List Char :=
  if text = [] then indent ++ " *".toList else indent ++ " * ".toList ++ text

/-- The lines of a doc comment. No text, or an empty one, has none. -/
def docBlock (indent : List Char) (doc : Option (List Char)) : List (List Char) :=
  match doc with
  | none | some [] => []
  | some doc =>
    (indent ++ "/**".toList) :: (docTexts doc).map (docLine indent) ++ [indent ++ " */".toList]

/-- The lines of a doc comment that is indented by levels. -/
def docLines (level : Nat) (doc : Option String) : List String :=
  (docBlock (List.replicate (4 * level) ' ') (doc.map String.toList)).map String.ofList

end Ferrotype.Output
