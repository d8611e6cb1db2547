import Ferrotype.Schema.Extract

/-!
# What the declarations of a file depend on

Most of a tree says nothing about the declarations. Of the attributes only the first documentation
counts, and at a field what the serializer is told. Who may see an item, what it is generic over,
how a parameter is called and what a variant holds do not count at all.
-/

namespace Ferrotype

/-! ## Attributes -/

/-- The first documentation, and the attributes that are kept besides. -/
def relevantAttributes (keep : Attribute → Bool) : List Attribute → List Attribute
  | [] => []
  | a :: as =>
    if a.doc?.isSome then a :: as.filter keep
    else if keep a then a :: relevantAttributes keep as
    else relevantAttributes keep as

/-- The first documentation, if there is one. -/
def relevantDoc : List Attribute → List Attribute := relevantAttributes fun _ => false

/-- The first documentation, and what the serializer is told. -/
def relevantAtField : List Attribute → List Attribute := relevantAttributes (·.path == "serde")

theorem docOf_relevantAttributes (keep : Attribute → Bool) (as : List Attribute) :
    docOf (relevantAttributes keep as) = docOf as := by
  induction as with
  | nil => rfl
  | cons a as ih =>
    rw [docOf] at ih
    cases hd : a.doc? with
    | some doc => simp [relevantAttributes, docOf, hd]
    | none => by_cases hk : keep a <;> simp [relevantAttributes, docOf, hd, hk, ih]

@[simp] theorem docOf_relevantDoc (as : List Attribute) : docOf (relevantDoc as) = docOf as :=
  docOf_relevantAttributes _ as

@[simp] theorem docOf_relevantAtField (as : List Attribute) :
    docOf (relevantAtField as) = docOf as :=
  docOf_relevantAttributes _ as

/-- A question that only kept attributes can answer is answered without the others. -/
theorem any_relevantAttributes {keep p : Attribute → Bool} (h : ∀ a, p a → keep a)
    (as : List Attribute) : (relevantAttributes keep as).any p = as.any p := by
  have hp : ∀ a, (keep a && p a) = p a := fun a => by
    cases hpa : p a with
    | false => simp
    | true => simp [h a hpa]
  induction as with
  | nil => rfl
  | cons a as ih =>
    unfold relevantAttributes
    split
    · simp only [List.any_cons, List.any_filter, hp]
    · split
      · simp only [List.any_cons, ih]
      · next hk =>
        have hpa : p a = false := by
          rw [← hp a, eq_false_of_ne_true hk, Bool.false_and]
        simp only [List.any_cons, ih, hpa, Bool.false_or]

/-! ## Structs -/

def Field.relevant (f : Field) : Field :=
  { f with visibility := .inherited, attributes := relevantAtField f.attributes }

def Payload.relevant : Payload → Payload
  | unit => unit
  | tuple fields => tuple (fields.map Field.relevant)
  | named fields => named (fields.map Field.relevant)

def StructDef.relevant (s : StructDef) : StructDef :=
  { s with payload := s.payload.relevant, generics := [] }

@[simp] theorem Field.relevant_isOptional (f : Field) : f.relevant.isOptional = f.isOptional := by
  have ha : f.relevant.attributes.any Attribute.allowsAbsence =
      f.attributes.any Attribute.allowsAbsence :=
    any_relevantAttributes (fun a h => (Bool.and_eq_true_iff.mp h).1) f.attributes
  rw [isOptional, isOptional, ha]
  rfl

@[simp] theorem Payload.relevant_fields (p : Payload) :
    p.relevant.fields = p.fields.map Field.relevant := by
  cases p <;> rfl

theorem extractFields_relevant (declaration : String) (index : Nat) (fs : List Field) :
    extractFields declaration index (fs.map Field.relevant) =
      extractFields declaration index fs := by
  induction fs generalizing index with
  | nil => rfl
  | cons f fs ih =>
    have hn : f.relevant.name = f.name := rfl
    have ht : f.relevant.type = f.type := rfl
    have hl : f.relevant.line = f.line := rfl
    have hd : docOf f.relevant.attributes = docOf f.attributes := docOf_relevantAtField _
    simp only [List.map_cons, extractFields, hn, ht, hl, hd, ih, Field.relevant_isOptional]

theorem extractStruct_relevant (s : StructDef) (as : List Attribute) :
    extractStruct s.relevant (relevantDoc as) = extractStruct s as := by
  simp [extractStruct, StructDef.relevant, extractFields_relevant]

/-! ## Enums -/

/-- What a variant holds does not count, only what it is called and set to. -/
def Variant.relevant (v : Variant) : Variant :=
  { v with payload := .unit, attributes := relevantDoc v.attributes }

def EnumDef.relevant (e : EnumDef) : EnumDef :=
  { e with variants := e.variants.map Variant.relevant, generics := [] }

theorem variantValue_relevant (v : Variant) (declaration : String) :
    variantValue v.relevant declaration = variantValue v declaration := rfl

theorem extractVariants_relevant (declaration : String) (vs : List Variant) :
    extractVariants declaration (vs.map Variant.relevant) = extractVariants declaration vs := by
  induction vs with
  | nil => rfl
  | cons v vs ih =>
    have hd : docOf v.relevant.attributes = docOf v.attributes := docOf_relevantDoc _
    have hn : v.relevant.name = v.name := rfl
    simp only [List.map_cons, extractVariants, variantValue_relevant, hd, hn, ih]

theorem extractEnum_relevant (e : EnumDef) (as : List Attribute) :
    extractEnum e.relevant (relevantDoc as) = extractEnum e as := by
  simp [extractEnum, EnumDef.relevant, extractVariants_relevant]

/-! ## Traits -/

/-- The type of a parameter; a receiver has no relevant part. -/
def FnInput.relevant? (i : FnInput) : Option FnInput :=
  match i.param with
  | .receiver .. => none
  | .typed _ t => some ⟨[], .typed "" t⟩

def Signature.relevant (s : Signature) : Signature :=
  { s with
    inputs := s.inputs.filterMap FnInput.relevant?
    generics := []
    qualifiers := []
    isVariadic := false }

def Member.relevant (m : Member) : Member :=
  match m.body with
  | .fn s _ => ⟨relevantDoc m.attributes, m.line, .fn s.relevant false⟩
  | .other kind name => ⟨[], m.line, .other kind name⟩

def TraitDef.relevant (t : TraitDef) : TraitDef :=
  { t with
    members := t.members.map Member.relevant
    generics := []
    supertraits := []
    isUnsafe := false
    isAuto := false }

/-- Receivers are not counted, so the parameters keep their numbers without them. -/
theorem extractParams_relevant (declaration : String) (line index : Nat) (is : List FnInput) :
    extractParams declaration line index (is.filterMap FnInput.relevant?) =
      extractParams declaration line index is := by
  induction is generalizing index with
  | nil => rfl
  | cons i is ih =>
    cases hi : i.param with
    | receiver reference mutable type => simp [FnInput.relevant?, extractParams, hi, ih]
    | typed pattern t => simp [FnInput.relevant?, extractParams, hi, ih]

theorem extractMethod_relevant (declaration : String) (as : List Attribute) (line : Nat)
    (s : Signature) (hasDefault : Bool) :
    extractMethod declaration ⟨relevantDoc as, line, .fn s.relevant false⟩ s.relevant =
      extractMethod declaration ⟨as, line, .fn s hasDefault⟩ s := by
  simp only [extractMethod, Signature.relevant, extractParams_relevant, docOf_relevantDoc]

theorem extractMembers_relevant (declaration : String) (ms : List Member) :
    extractMembers declaration (ms.map Member.relevant) = extractMembers declaration ms := by
  induction ms with
  | nil => rfl
  | cons m ms ih =>
    obtain ⟨as, line, body⟩ := m
    cases body with
    | fn s hasDefault =>
      simp only [List.map_cons, Member.relevant, extractMembers, ih,
        extractMethod_relevant declaration as line s hasDefault]
    | other kind name => simp only [List.map_cons, Member.relevant, extractMembers, ih]

theorem extractTrait_relevant (t : TraitDef) (as : List Attribute) :
    extractTrait t.relevant (relevantDoc as) = extractTrait t as := by
  simp [extractTrait, TraitDef.relevant, extractMembers_relevant]

/-! ## Files -/

def ItemBody.relevant : ItemBody → ItemBody
  | structDef s => structDef s.relevant
  | enumDef e => enumDef e.relevant
  | traitDef t => traitDef t.relevant
  | other kind name => other kind name

def Item.relevant (i : Item) : Item :=
  { i with
    attributes := relevantDoc i.attributes
    visibility := .inherited
    body := i.body.relevant }

/-- The part of a file that its declarations depend on. -/
def SourceFile.relevant (f : SourceFile) : SourceFile := ⟨[], f.items.map Item.relevant⟩

theorem extractItem_relevant (i : Item) : extractItem i.relevant = extractItem i := by
  have ha : i.relevant.attributes = relevantDoc i.attributes := rfl
  have hl : i.relevant.line = i.line := rfl
  have hb : i.relevant.body = i.body.relevant := rfl
  rw [extractItem, extractItem, ha, hl, hb]
  cases i.body with
  | structDef s => simp only [ItemBody.relevant, extractStruct_relevant]
  | enumDef e => simp only [ItemBody.relevant, extractEnum_relevant]
  | traitDef t => simp only [ItemBody.relevant, extractTrait_relevant]
  | other kind name => rfl

theorem extractItems_relevant (schema : Schema) (items : List Item) :
    extractItems schema (items.map Item.relevant) = extractItems schema items := by
  induction items generalizing schema with
  | nil => rfl
  | cons i items ih => simp only [List.map_cons, extractItems, extractItem_relevant, ih]

/--
The relevant part of a file gives the declarations of the file with the same notices, or fails in
the same way with the same notices.
-/
theorem extractFile_relevant (options : ExtractOptions) (file : SourceFile) :
    extractFile options file.relevant = extractFile options file := by
  simp only [extractFile, SourceFile.relevant, extractItems_relevant]

end Ferrotype
