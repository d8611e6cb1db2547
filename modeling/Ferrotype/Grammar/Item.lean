import Ferrotype.Grammar.Function

/-! # Items -/

namespace Ferrotype.Grammar

open Rule

/-! ## Visibility -/

/-- The word of `(crate)`, `(super)` or `(self)`. -/
def scopeWord? : List Token → Option String
  | o :: w :: c :: _ =>
    if o.kind = .opener .paren ∧ c.kind = .closer .paren ∧ (w.kind = .keyword .crateKw ∨
        w.kind = .keyword .superKw ∨ w.kind = .keyword .selfValueKw) then some w.text
    else none
  | _ => none

def visibility : Rule Visibility := do
  if ← accept (.keyword .pubKw) then
    let ts ← get
    match scopeWord? ts with
    | some word =>
      set (ts.drop 3)
      return .scope word
    | none =>
      if startsWith [.opener .paren, .keyword .inKw] ts then
        set (ts.drop 2)
        let path ← simplePath
        discard <| expect (.closer .paren) ""
        return .restricted path
      else return .everywhere
  else return .inherited

/-! ## Structs and enums -/

/-- The line of the next token; the end of the file starts nothing that has a line. -/
def nextLine : Rule Nat := return ((← get).head?).elim 0 fun t => t.place.line

def namedField : Rule Field := do
  let attributes ← whole outerAttributes
  let visibility ← visibility
  let name ← expect .identifier "identifier"
  discard <| expect (.punct .colon) ""
  return ⟨name.text, ← wholeType true, visibility, attributes, name.place.line⟩

def namedFields : Rule (List Field) := do
  discard <| expect (.opener .brace) ""
  let fields ← commaList (.closer .brace) namedField
  discard <| expect (.closer .brace) ""
  return fields

def tupleField : Rule Field := do
  let attributes ← whole outerAttributes
  let visibility ← visibility
  let line ← nextLine
  return ⟨none, ← wholeType true, visibility, attributes, line⟩

def tupleFields : Rule (List Field) := do
  discard <| expect (.opener .paren) ""
  let fields ← commaList (.closer .paren) tupleField
  discard <| expect (.closer .paren) ""
  return fields

def structDef : Rule StructDef := do
  discard <| expect (.keyword .structKw) ""
  let name ← expectName
  let generics ← whole generics
  skipWhere
  if ← isAt (.opener .brace) then return ⟨name, .named (← namedFields), generics⟩
  else if ← isAt (.opener .paren) then
    let fields ← tupleFields
    skipWhere
    discard <| expect (.punct .semicolon) ""
    return ⟨name, .tuple fields, generics⟩
  else if ← accept (.punct .semicolon) then return ⟨name, .unit, generics⟩
  else refuse .structBody ""

/-- A variant; a visibility before it is read over. -/
def variant : Rule Variant := do
  let attributes ← whole outerAttributes
  discard visibility
  let name ← expect .identifier "identifier"
  let payload ←
    if ← isAt (.opener .brace) then pure (Payload.named (← namedFields))
    else if ← isAt (.opener .paren) then pure (Payload.tuple (← tupleFields))
    else pure Payload.unit
  let discriminant ←
    if ← accept (.punct .eq) then pure (some (← whole fun R => binary R 1)) else pure none
  return ⟨name.text, payload, discriminant, attributes, name.place.line⟩

def enumDef : Rule EnumDef := do
  discard <| expect (.keyword .enumKw) ""
  let name ← expectName
  let generics ← whole generics
  skipWhere
  discard <| expect (.opener .brace) ""
  let variants ← commaList (.closer .brace) variant
  discard <| expect (.closer .brace) ""
  return ⟨name, variants, generics⟩

/-! ## Macros -/

/-- A group of tokens; behind round and square brackets a semicolon must follow. -/
def macroBody : Rule Unit := do
  if ← nextIs Kind.isOpener then
    let braced ← isAt (.opener .brace)
    skipTree
    unless braced do
      discard <| expect (.punct .semicolon) ""
  else refuse .macroBody ""

/-! ## Traits -/

def isWord (word : String) (t : Token) : Bool := t.kind == .identifier && t.text == word

def startsTrait (ts : List Token) : Bool :=
  let ts := dropIf (· == .keyword .unsafeKw) ts
  let ts := if ts.head?.any (isWord "auto") then ts.drop 1 else ts
  headIs (.keyword .traitKw) ts

/-- Whether a constant starts here, and not a qualifier of a function. -/
def startsConstItem : List Token → Bool
  | t :: u :: _ =>
    t.kind == .keyword .constKw && (u.kind == .identifier || u.kind == .underscore)
  | _ => false

def memberBody : Rule MemberBody := do
  if ← accept (.keyword .typeKw) then
    let name ← expectName
    skipToSemicolon
    return .other .type name
  else if ← ahead startsConstItem then
    discard advance
    let name ← nextText
    discard advance
    skipToSemicolon
    return .other .const name
  else if ← ahead startsMacro then
    let name ← simplePath
    discard <| expect (.punct .bang) ""
    macroBody
    return .other .macroCall name
  else if ← nextIs fun kind => kind == .keyword .fnKw || kind == .keyword .constKw ||
      kind == .keyword .asyncKw || kind == .keyword .unsafeKw || kind == .keyword .externKw then
    let signature ← signature
    if ← isAt (.opener .brace) then
      skipTree
      return .fn signature true
    else
      discard <| expect (.punct .semicolon) ""
      return .fn signature false
  else refuse .traitMember ""

def traitMember : Rule Member := do
  let attributes ← whole outerAttributes
  let line ← nextLine
  return ⟨attributes, line, ← memberBody⟩

/-- The bounds behind the colon of a trait, which may be missing. -/
def supertraits : Rule (List String) := do
  if ← accept (.punct .colon) then
    if ← nextIs fun kind => kind == .keyword .whereKw || kind == .opener .brace then return []
    else whole fun R => bounds R true
  else return []

def traitDef : Rule TraitDef := do
  let isUnsafe ← accept (.keyword .unsafeKw)
  let isAuto ← ahead fun ts => ts.head?.any (isWord "auto")
  if isAuto then
    discard advance
  discard <| expect (.keyword .traitKw) ""
  let name ← expectName
  let generics ← whole generics
  let supertraits ← supertraits
  skipWhere
  discard <| expect (.opener .brace) ""
  discard <| whole innerAttributes
  let members ← many do
    if ← isAt (.closer .brace) then return .stop else return .more (← traitMember)
  discard <| expect (.closer .brace) ""
  return ⟨name, members, generics, supertraits, isUnsafe, isAuto⟩

/-! ## Items that are read over -/

/-- Whether a word and a kind stand at the start of a list. -/
def startsWordThen (word : String) (kind : Kind) : List Token → Bool
  | t :: u :: _ => isWord word t && u.kind == kind
  | _ => false

def moduleBody : Rule Unit := do
  if ← accept (.punct .semicolon) then return ()
  else if ← isAt (.opener .brace) then skipTree
  else refuse .moduleBody ""

/-- A function, an implementation or a foreign block, behind their qualifiers. -/
def qualifiedItem : Rule ItemBody := do
  let first := (← get).head?
  let qualifiers ← fnQualifiers
  if ← accept (.keyword .fnKw) then
    let name ← expectName
    skipToBlockOrSemicolon
    return .other .fn name
  else if ← isAt (.keyword .implKw) then
    skipToBlockOrSemicolon
    return .other .implementation ""
  else if (← isAt (.opener .brace)) && qualifiers.getLast? == some "extern" then
    skipTree
    return .other .foreignBlock ""
  else throw (.expected .item first "")

def otherItem : Rule ItemBody := do
  if ← ahead (startsWordThen "macro_rules" (.punct .bang)) then
    discard advance
    discard advance
    let name ← expectName
    macroBody
    return .other .macroRules name
  else if ← ahead startsMacro then
    let name ← simplePath
    discard <| expect (.punct .bang) ""
    discard <| accept .identifier
    macroBody
    return .other .macroCall name
  else if ← ahead (startsWordThen "union" .identifier) then
    discard advance
    let name ← nextText
    discard advance
    skipToBlockOrSemicolon
    return .other .union name
  else if ← isAt (.keyword .useKw) then
    skipToSemicolon
    return .other .use ""
  else if ← accept (.keyword .staticKw) then
    discard <| accept (.keyword .mutKw)
    let name ← nextText
    skipToSemicolon
    return .other .static name
  else if ← accept (.keyword .typeKw) then
    let name ← expectName
    skipToSemicolon
    return .other .type name
  else if ← accept (.keyword .modKw) then
    let name ← expectName
    moduleBody
    return .other .module name
  else if ← ahead startsConstItem then
    discard advance
    let name ← nextText
    discard advance
    skipToSemicolon
    return .other .const name
  else if ← ahead (startsWith [.keyword .externKw, .keyword .crateKw]) then
    discard advance
    discard advance
    let name ← nextText
    skipToSemicolon
    return .other .crateImport name
  else qualifiedItem

/-! ## Items and files -/

def item : Rule Item := do
  let attributes ← whole outerAttributes
  let visibility ← visibility
  let line ← nextLine
  let body ←
    if ← isAt (.keyword .structKw) then pure (ItemBody.structDef (← structDef))
    else if ← isAt (.keyword .enumKw) then pure (ItemBody.enumDef (← enumDef))
    else if ← ahead startsTrait then pure (ItemBody.traitDef (← traitDef))
    else otherItem
  return ⟨attributes, visibility, line, body⟩

/-- A whole file: attributes of its own, then items up to its end. -/
def sourceFile : Rule SourceFile := do
  let attributes ← whole innerAttributes
  let items ← many do
    if (← get).isEmpty then return .stop else return .more (← item)
  return ⟨attributes, items⟩

end Ferrotype.Grammar
