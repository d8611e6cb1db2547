import Ferrotype.Noted
import Ferrotype.Options
import Ferrotype.Schema.Declaration
import Ferrotype.Schema.Name
import Ferrotype.Schema.Resolve
import Ferrotype.SyntaxError
import Ferrotype.Text.Parts
import Ferrotype.Tree.Outline

/-!
# From source files to declarations

Structs become interfaces, enums keep their variants, and traits become interfaces of methods.
What is skipped or loosened is noted in the order of the source.
-/

namespace Ferrotype

/-! ## Runs -/

inductive ExtractError where
  | source (error : SyntaxError)
  /-- An integer above the 64-bit range. -/
  | range (literal declaration variant : String)
  /-- An integer of more decimal digits than are read. -/
  | tooManyDigits (count : Nat)
  deriving Repr, DecidableEq

def ExtractError.message : ExtractError → String
  | source error => error.message
  | range literal declaration variant =>
    "discriminant " ++ literal ++ " of " ++ declaration ++ "::" ++ variant ++
      " does not fit in a 64-bit signed integer"
  | tooManyDigits count => Text.tooManyDigits count

/-- A run that may fail, and keeps its notices when it does. -/
abbrev Extraction := ExceptT ExtractError Noted

namespace Extraction

theorem run_lift (x : Noted α) : (ExceptT.lift x : Extraction α).run = ⟨.ok x.value, x.notices⟩ :=
  Noted.ext rfl (List.append_nil x.notices)

theorem run_bind_ok {x : Extraction α} {a : α} {notices : List Notice}
    (h : x.run = ⟨.ok a, notices⟩) (f : α → Extraction β) :
    (x >>= f).run = ⟨(f a).run.value, notices ++ (f a).run.notices⟩ := by
  change x.run >>= ExceptT.bindCont f = _
  rw [h]
  rfl

theorem run_bind_error {x : Extraction α} {error : ExtractError} {notices : List Notice}
    (h : x.run = ⟨.error error, notices⟩) (f : α → Extraction β) :
    (x >>= f).run = ⟨.error error, notices⟩ := by
  change x.run >>= ExceptT.bindCont f = _
  rw [h]
  exact Noted.ext rfl (List.append_nil notices)

theorem run_map (x : Extraction α) (f : α → β) :
    (f <$> x).run = ⟨x.run.value.map f, x.run.notices⟩ := by
  rw [← bind_pure_comp]
  cases hv : x.run.value with
  | ok a =>
    have h : x.run = ⟨.ok a, x.run.notices⟩ := Noted.ext hv rfl
    rw [run_bind_ok h]
    exact Noted.ext rfl (List.append_nil _)
  | error error =>
    have h : x.run = ⟨.error error, x.run.notices⟩ := Noted.ext hv rfl
    rw [run_bind_error h]
    rfl

theorem run_map_ok {x : Extraction α} {a : α} {notices : List Notice}
    (h : x.run = ⟨.ok a, notices⟩) (f : α → β) : (f <$> x).run = ⟨.ok (f a), notices⟩ := by
  rw [run_map, h]
  rfl

end Extraction

/-! ## Attributes -/

/-- The text of an attribute that documents. -/
def Attribute.doc? (a : Attribute) : Option String :=
  if a.path = "doc" then
    match a.value with
    | some (.literal value .str) => some (String.ofList (Text.trim value.toList))
    | _ => none
  else none

/-- The first documentation; more of it is not appended. -/
def docOf (attributes : List Attribute) : Option String := attributes.findSome? Attribute.doc?

/-- Whether an attribute lets the serializer leave the field out. -/
def Attribute.allowsAbsence (a : Attribute) : Bool :=
  a.path == "serde" && Text.occursIn "skip_serializing_if".toList a.debugText.toList

def Field.isOptional (f : Field) : Bool :=
  f.type.isOption || f.attributes.any Attribute.allowsAbsence

/-! ## Types -/

/-- The text of a type. A shape that had to become `any` is noted. -/
def typeText (t : Ty) (declaration : String) (line : Nat) : Noted String := do
  let r := t.resolve
  if let some shape := r.unsupported then
    Noted.note (.unsupportedType shape declaration (some line))
  return r.type.text

/-! ## Structs -/

/-- The fields that have names. `index` is the position of the first one. -/
def extractFields (declaration : String) : Nat → List Field → Noted (List InterfaceField)
  | _, [] => return []
  | index, f :: fs => do
    match f.name with
    | none =>
      Noted.note (.unnamedFieldSkipped index declaration (some f.line))
      extractFields declaration (index + 1) fs
    | some name =>
      let type ← typeText f.type declaration f.line
      let field : InterfaceField := ⟨camelCase name, type, f.isOptional, docOf f.attributes⟩
      return field :: (← extractFields declaration (index + 1) fs)

def extractStruct (s : StructDef) (attributes : List Attribute) : Noted Declaration := do
  return .interface s.name (← extractFields s.name 0 s.payload.fields) (docOf attributes)

/-! ## Enums -/

/-- The largest signed 64-bit integer. -/
def maxDiscriminant : Nat := 0x7FFFFFFFFFFFFFFF

/-- The value of an integer literal at a place. -/
def intValueAt (text : String) (place : Option Position) : Except ExtractError Nat :=
  match intValue text with
  | .ok n => .ok n
  | .error .noDigits => .error (.source ⟨.integer text, place⟩)
  | .error (.tooManyDigits count) => .error (.tooManyDigits count)

def intDiscriminant (text declaration variant : String) : Except ExtractError EnumValue :=
  match intValueAt text none with
  | .error error => .error error
  | .ok n =>
    if n ≤ maxDiscriminant then .ok (.number n) else .error (.range text declaration variant)

/-- The value that a variant has instead of its position. An expression that is none is noted. -/
def variantValue (v : Variant) (declaration : String) : Extraction (Option EnumValue) :=
  match v.discriminant with
  | none => return none
  | some (.literal value .str) => return some (.string value)
  | some (.literal text .int) =>
    ExceptT.mk (pure ((intDiscriminant text declaration v.name).map some))
  | some e =>
    match e.name? with
    | some name => return some (.identifier name)
    | none => do
      ExceptT.lift (Noted.note (.discriminantIgnored v.name declaration (some v.line)))
      return none

def extractVariants (declaration : String) : List Variant → Extraction (List EnumMember)
  | [] => return []
  | v :: vs => do
    let value ← variantValue v declaration
    return ⟨v.name, value, docOf v.attributes⟩ :: (← extractVariants declaration vs)

def extractEnum (e : EnumDef) (attributes : List Attribute) : Extraction Declaration := do
  return .enumeration e.name (← extractVariants e.name e.variants) (docOf attributes)

/-! ## Traits -/

/-- Parameters get names by position, and a receiver is none. -/
def extractParams (declaration : String) (line : Nat) :
    Nat → List FnInput → Noted (List MethodParam)
  | _, [] => return []
  | index, i :: is => do
    match i.param with
    | .receiver .. => extractParams declaration line index is
    | .typed _ t =>
      let type ← typeText t declaration line
      let param : MethodParam := ⟨"arg" ++ toString index, type⟩
      return param :: (← extractParams declaration line (index + 1) is)

def extractMethod (declaration : String) (m : Member) (s : Signature) : Noted Method := do
  let params ← extractParams declaration m.line 0 s.inputs
  let result ← match s.output with
    | none => pure Primitive.void.name
    | some t => typeText t declaration m.line
  return ⟨s.name, params, result, docOf m.attributes⟩

def extractMembers (declaration : String) : List Member → Noted (List Method)
  | [] => return []
  | m :: ms => do
    match m.body with
    | .fn signature _ =>
      let method ← extractMethod declaration m signature
      return method :: (← extractMembers declaration ms)
    | .other kind _ =>
      Noted.note (.traitItemSkipped kind.name declaration (some m.line))
      extractMembers declaration ms

def extractTrait (t : TraitDef) (attributes : List Attribute) : Noted Declaration := do
  return .trait t.name (← extractMembers t.name t.members) (docOf attributes)

/-! ## Files -/

/-- The declaration of an item; an item without one is noted. -/
def extractItem (item : Item) : Extraction (Option Declaration) := do
  match item.body with
  | .structDef s => return some (← ExceptT.lift (extractStruct s item.attributes))
  | .enumDef e => return some (← extractEnum e item.attributes)
  | .traitDef t => return some (← ExceptT.lift (extractTrait t item.attributes))
  | .other kind _ =>
    ExceptT.lift (Noted.note (.itemSkipped kind.name (some item.line)))
    return none

/-- Of two declarations of one name the later one counts, in its later place. -/
def extractItems (schema : Schema) : List Item → Extraction Schema
  | [] => return schema
  | item :: items => do
    match ← extractItem item with
    | some d => extractItems (schema.put d) items
    | none => extractItems schema items

/-- The declarations of a file. Options that are set without an effect are noted first. -/
def extractFile (options : ExtractOptions) (file : SourceFile) : Extraction Schema := do
  ExceptT.lift ⟨(), options.flagsSet.map .reservedOption⟩
  extractItems [] file.items

end Ferrotype
