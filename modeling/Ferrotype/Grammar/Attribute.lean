import Ferrotype.Grammar.Expr
import Ferrotype.Text.Quoted
import Ferrotype.Tree.Item

/-! # Attributes -/

namespace Ferrotype.Grammar

open Rule

def docAttribute (style : DocStyle) (t : Token) : Attribute where
  path := "doc"
  style := style
  value := some (.literal t.text .str)
  tokens := "= " ++ Text.quoted t.text
  isDocComment := true
  line := t.place.line

/-- A path, and behind it `= value` or a group of tokens. -/
def attributeMeta (R : Rules) (style : DocStyle) (line : Nat) : Rule Attribute := do
  let path ← simplePath
  if ← isAt (.punct .eq) then
    let (value, tokens) ← withText do
      discard advance
      R.binary 1
    return ⟨path, style, some value, tokens, false, line⟩
  else if ← nextIs Kind.isOpener then
    let (_, tokens) ← withText skipTree
    return ⟨path, style, none, tokens, false, line⟩
  else return ⟨path, style, none, "", false, line⟩

/-- Whether the rest of an attribute is wrapped as in `unsafe(…)`. -/
def startsUnsafe : List Token → Bool
  | t :: u :: _ =>
    (t.kind == .keyword .unsafeKw || (t.kind == .identifier && t.text == "unsafe")) &&
      u.kind == .opener .paren
  | _ => false

def attributeBody (R : Rules) (style : DocStyle) : Rule Attribute := do
  let line := (← expect (.opener .bracket) "").place.line
  if ← ahead startsUnsafe then
    discard advance
    discard advance
    let a ← attributeMeta R style line
    discard <| expect (.closer .paren) ""
    discard <| expect (.closer .bracket) ""
    return a
  else
    let a ← attributeMeta R style line
    discard <| expect (.closer .bracket) ""
    return a

/-- Whether kinds stand at the start of a list. -/
def startsWith (kinds : List Kind) (ts : List Token) : Bool :=
  (ts.take kinds.length).map Token.kind == kinds

/-- Doc comments of a style, and attributes that open with `marks` and a bracket. -/
def attributes (R : Rules) (style : DocStyle) (marks : List Kind) : Rule (List Attribute) :=
  many do
    match ← get with
    | t :: ts =>
      if t.kind = .doc style then
        set ts
        return .more (docAttribute style t)
      else if startsWith (marks ++ [.opener .bracket]) (t :: ts) then
        modify (List.drop marks.length)
        return .more (← attributeBody R style)
      else return .stop
    | [] => return .stop

def outerAttributes (R : Rules) : Rule (List Attribute) :=
  attributes R .outer [.punct .pound]

def innerAttributes (R : Rules) : Rule (List Attribute) :=
  attributes R .inner [.punct .pound, .punct .bang]

end Ferrotype.Grammar
