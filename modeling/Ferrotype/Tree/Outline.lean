import Ferrotype.Text.Quoted
import Ferrotype.Tree.Item

/-!
# Outlines

The outline of a tree gives each node its published name and its fields in their published
order. Dumps of every form are made from it.
-/

namespace Ferrotype

inductive Outline where
  | absent
  | flag (value : Bool)
  | number (value : Nat)
  | text (value : String)
  | list (elements : List Outline)
  | node (name : String) (fields : List (String × Outline))

namespace Outline

def ofOption (outline : α → Outline) : Option α → Outline
  | none => absent
  | some a => outline a

def texts (words : List String) : Outline := list (words.map text)

/-! ## The text of an outline -/

mutual

/-- An outline on one line, with every text quoted. -/
def debugText : Outline → String
  | absent => "None"
  | flag true => "True"
  | flag false => "False"
  | number n => toString n
  | text s => Text.quoted s
  | list elements => "[" ++ ", ".intercalate (debugTexts elements) ++ "]"
  | node name fields => name ++ "(" ++ ", ".intercalate (debugFields fields) ++ ")"

def debugTexts : List Outline → List String
  | [] => []
  | o :: os => debugText o :: debugTexts os

def debugFields : List (String × Outline) → List String
  | [] => []
  | (name, o) :: fields => (name ++ "=" ++ debugText o) :: debugFields fields

end

end Outline

/-! ## Types and expressions -/

mutual

def Ty.outline : Ty → Outline
  | .path qualifier leadingColon segments =>
    .node "TypePath" [("segments", .list (Segment.outlines segments)),
      ("leading_colon", .flag leadingColon), ("qself", Ty.outlineOption qualifier)]
  | .reference lifetime mutable element =>
    .node "TypeReference" [("element", element.outline), ("lifetime", .ofOption .text lifetime),
      ("mutable", .flag mutable)]
  | .pointer mutable element =>
    .node "TypePointer" [("element", element.outline), ("mutable", .flag mutable)]
  | .tuple elements => .node "TypeTuple" [("elements", .list (Ty.outlines elements))]
  | .slice element => .node "TypeSlice" [("element", element.outline)]
  | .array element length =>
    .node "TypeArray" [("element", element.outline), ("length", length.outline)]
  | .paren element => .node "TypeParen" [("element", element.outline)]
  | .traitObject bounds hasDyn =>
    .node "TypeTraitObject" [("bounds", .texts bounds), ("has_dyn", .flag hasDyn)]
  | .implTrait bounds => .node "TypeImplTrait" [("bounds", .texts bounds)]
  | .bareFn inputs output =>
    .node "TypeBareFn" [("inputs", .list (Ty.outlines inputs)),
      ("output", Ty.outlineOption output)]
  | .never => .node "TypeNever" []
  | .infer => .node "TypeInfer" []
  | .macroCall name => .node "TypeMacro" [("name", .text name)]

def Ty.outlines : List Ty → List Outline
  | [] => []
  | t :: ts => t.outline :: Ty.outlines ts

def Ty.outlineOption : Option Ty → Outline
  | none => .absent
  | some t => t.outline

def Segment.outline : Segment → Outline
  | .mk name arguments => .node "PathSegment" (("name", .text name) :: arguments.outline)

def Segment.outlines : List Segment → List Outline
  | [] => []
  | s :: ss => s.outline :: Segment.outlines ss

/-- The fields that the arguments of a segment give it. -/
def Arguments.outline : Arguments → List (String × Outline)
  | .none =>
    [("arguments", .list []), ("argument_style", .text "none"), ("inputs", .list []),
      ("output", .absent)]
  | .angle arguments =>
    [("arguments", .list (GenericArg.outlines arguments)), ("argument_style", .text "angle"),
      ("inputs", .list []), ("output", .absent)]
  | .paren inputs output =>
    [("arguments", .list []), ("argument_style", .text "paren"),
      ("inputs", .list (Ty.outlines inputs)), ("output", Ty.outlineOption output)]

def GenericArg.outline : GenericArg → Outline
  | .type t =>
    .node "GenericArgument" [("kind", .text "type"), ("type", t.outline), ("name", .text ""),
      ("value", .absent)]
  | .lifetime name =>
    .node "GenericArgument" [("kind", .text "lifetime"), ("type", .absent), ("name", .text name),
      ("value", .absent)]
  | .const value =>
    .node "GenericArgument" [("kind", .text "const"), ("type", .absent), ("name", .text ""),
      ("value", value.outline)]
  | .binding name t =>
    .node "GenericArgument" [("kind", .text "binding"), ("type", t.outline), ("name", .text name),
      ("value", .absent)]
  | .constraint name =>
    .node "GenericArgument" [("kind", .text "constraint"), ("type", .absent),
      ("name", .text name), ("value", .absent)]

def GenericArg.outlines : List GenericArg → List Outline
  | [] => []
  | a :: as => a.outline :: GenericArg.outlines as

def Expr.outline : Expr → Outline
  | .literal value kind =>
    .node "Literal" [("value", .text value), ("kind", .text kind.name)]
  | .path segments leadingColon hasGenerics =>
    .node "PathExpression" [("segments", .texts segments), ("leading_colon", .flag leadingColon),
      ("has_generics", .flag hasGenerics)]
  | .unary op operand =>
    .node "UnaryExpression" [("operator", .text op.text), ("operand", operand.outline)]
  | .binary left op right =>
    .node "BinaryExpression" [("left", left.outline), ("operator", .text op.text),
      ("right", right.outline)]
  | .cast expression type =>
    .node "CastExpression" [("expression", expression.outline), ("type", type.outline)]
  | .call function arguments =>
    .node "CallExpression" [("function", function.outline),
      ("arguments", .list (Expr.outlines arguments))]
  | .member expression name =>
    .node "FieldExpression" [("expression", expression.outline), ("member", .text name)]
  | .index base index =>
    .node "IndexExpression" [("base", base.outline), ("index", index.outline)]
  | .paren expression => .node "ParenExpression" [("expression", expression.outline)]
  | .tuple elements => .node "TupleExpression" [("elements", .list (Expr.outlines elements))]
  | .array elements => .node "ArrayExpression" [("elements", .list (Expr.outlines elements))]
  | .block => .node "BlockExpression" []
  | .macroCall name => .node "MacroExpression" [("name", .text name)]
  | .question expression => .node "TryExpression" [("expression", expression.outline)]

def Expr.outlines : List Expr → List Outline
  | [] => []
  | e :: es => e.outline :: Expr.outlines es

end

/-! ## Attributes and items -/

def DocStyle.name : DocStyle → String
  | .outer => "outer"
  | .inner => "inner"

namespace Attribute

def outline (a : Attribute) : Outline :=
  .node "Attribute" [("path", .text a.path), ("style", .text a.style.name),
    ("value", .ofOption Expr.outline a.value), ("tokens", .text a.tokens),
    ("is_sugared_doc", .flag a.isDocComment), ("line", .number a.line)]

def debugText (a : Attribute) : String :=
  let value := match a.value with
    | some e => ", value: " ++ e.outline.debugText
    | none => ""
  "Attribute \x7b style: " ++ a.style.name ++ ", path: " ++ a.path ++ ", tokens: " ++
    Text.quoted a.tokens ++ value ++ " \x7d"

def outlines (attributes : List Attribute) : Outline := .list (attributes.map outline)

end Attribute

def Field.outline (f : Field) : Outline :=
  .node "FieldDefinition" [("name", .ofOption .text f.name), ("type", f.type.outline),
    ("visibility", .text f.visibility.text), ("attributes", Attribute.outlines f.attributes),
    ("line", .number f.line)]

def Payload.outline (p : Payload) : List (String × Outline) :=
  [("kind", .text p.kindName), ("fields", .list (p.fields.map Field.outline))]

def Variant.outline (v : Variant) : Outline :=
  .node "VariantDefinition" (("name", .text v.name) :: v.payload.outline ++
    [("discriminant", .ofOption Expr.outline v.discriminant),
      ("attributes", Attribute.outlines v.attributes), ("line", .number v.line)])

def FnInput.outline (i : FnInput) : Outline :=
  .node "FnArgument" <|
    match i.param with
    | .receiver reference mutable type =>
      [("is_receiver", .flag true), ("pattern", .text "self"),
        ("type", .ofOption Ty.outline type), ("reference", .flag reference),
        ("mutable", .flag mutable), ("attributes", Attribute.outlines i.attributes)]
    | .typed pattern type =>
      [("is_receiver", .flag false), ("pattern", .text pattern), ("type", type.outline),
        ("reference", .flag false), ("mutable", .flag false),
        ("attributes", Attribute.outlines i.attributes)]

def Signature.outline (s : Signature) : Outline :=
  .node "FnSignature" [("name", .text s.name), ("inputs", .list (s.inputs.map FnInput.outline)),
    ("output", .ofOption Ty.outline s.output), ("generics", .texts s.generics),
    ("qualifiers", .texts s.qualifiers), ("is_variadic", .flag s.isVariadic)]

def Member.outline (m : Member) : Outline :=
  let tail := [("attributes", Attribute.outlines m.attributes), ("line", .number m.line)]
  match m.body with
  | .fn signature hasDefault =>
    .node "TraitFn" (("signature", signature.outline) :: ("has_default", .flag hasDefault) :: tail)
  | .other kind name =>
    .node "TraitOther" (("kind", .text kind.name) :: ("name", .text name) :: tail)

def Item.outline (item : Item) : Outline :=
  let tail := [("attributes", Attribute.outlines item.attributes), ("line", .number item.line)]
  let visible := ("visibility", .text item.visibility.text) :: tail
  match item.body with
  | .structDef s =>
    .node "StructItem" (("name", .text s.name) :: s.payload.outline ++
      ("generics", .texts s.generics) :: visible)
  | .enumDef e =>
    .node "EnumItem" (("name", .text e.name) :: ("variants", .list (e.variants.map Variant.outline))
      :: ("generics", .texts e.generics) :: visible)
  | .traitDef t =>
    .node "TraitItem" (("name", .text t.name) :: ("items", .list (t.members.map Member.outline))
      :: ("generics", .texts t.generics) :: ("supertraits", .texts t.supertraits)
      :: ("is_unsafe", .flag t.isUnsafe) :: ("is_auto", .flag t.isAuto) :: visible)
  | .other kind name =>
    .node "OtherItem" (("kind", .text kind.name) :: ("name", .text name) :: tail)

def SourceFile.outline (file : SourceFile) : Outline :=
  .node "SourceFile" [("attributes", Attribute.outlines file.attributes),
    ("items", .list (file.items.map Item.outline))]

end Ferrotype
