import Ferrotype.Proofs.Reworded.Outlines
import Ferrotype.Schema.Extract

/-!
# Declarations of lines that end in another way

Trees that differ in the ends of lines give the same declarations but for the ends of the lines of
their docs, with the same notices.
-/

namespace Ferrotype

open Text

variable {α β γ δ : Type}

/-! ## Runs -/

/-- Runs with the same notices, and with values that `P` relates. -/
structure Noted.Agree (P : α → β → Prop) (x : Noted α) (y : Noted β) : Prop where
  value : P x.value y.value
  notices : x.notices = y.notices

namespace Noted.Agree

variable {P : α → β → Prop} {Q : γ → δ → Prop} {x : Noted α} {y : Noted β}

theorem refl (x : Noted α) : Agree Eq x x := ⟨rfl, rfl⟩

theorem pure {a : α} {b : β} (h : P a b) : Agree P (Pure.pure a) (Pure.pure b) := ⟨h, rfl⟩

theorem bind {f : α → Noted γ} {g : β → Noted δ} (hx : Agree P x y)
    (hf : ∀ a b, P a b → Agree Q (f a) (g b)) : Agree Q (x >>= f) (y >>= g) := by
  have h := hf _ _ hx.value
  constructor
  · exact h.value
  · rw [notices_bind, notices_bind, hx.notices, h.notices]

end Noted.Agree

/-- Outcomes with values that `P` relates, or the same error twice. -/
inductive OutcomesAgree (P : α → β → Prop) :
    Except ExtractError α → Except ExtractError β → Prop where
  | ok {a : α} {b : β} (h : P a b) : OutcomesAgree P (.ok a) (.ok b)
  | error (e : ExtractError) : OutcomesAgree P (.error e) (.error e)

def Extraction.Agree (P : α → β → Prop) (x : Extraction α) (y : Extraction β) : Prop :=
  Noted.Agree (OutcomesAgree P) x.run y.run

namespace Extraction.Agree

variable {P : α → β → Prop} {Q : γ → δ → Prop} {x : Extraction α} {y : Extraction β}

theorem refl (x : Extraction α) : Agree Eq x x := by
  constructor
  · cases x.run.value with
    | ok a => exact .ok rfl
    | error e => exact .error e
  · rfl

theorem pure {a : α} {b : β} (h : P a b) : Agree P (Pure.pure a) (Pure.pure b) :=
  Noted.Agree.pure (.ok h)

theorem bind {f : α → Extraction γ} {g : β → Extraction δ} (hx : Agree P x y)
    (hf : ∀ a b, P a b → Agree Q (f a) (g b)) : Agree Q (x >>= f) (y >>= g) := by
  apply Noted.Agree.bind hx
  intro r s hr
  cases hr with
  | ok h => exact hf _ _ h
  | error e => exact .pure (.error e)

theorem lift {x : Noted α} {y : Noted β} (h : Noted.Agree P x y) :
    Agree P (ExceptT.lift x) (ExceptT.lift y) := by
  have hb := h.bind (Q := OutcomesAgree P) fun a b hab => .pure (.ok hab)
  rw [bind_pure_comp, bind_pure_comp] at hb
  exact hb

theorem run_eq {x y : Extraction α} (h : Agree Eq x y) : x.run = y.run := by
  obtain ⟨hv, hn⟩ := h
  ext1
  · generalize x.run.value = r at hv ⊢
    generalize y.run.value = s at hv ⊢
    cases hv with
    | ok h => rw [h]
    | error => rfl
  · exact hn

end Extraction.Agree

/-! ## Declarations -/

/-- With `\n` at the end of every line of the doc. -/
def InterfaceField.withNewlines (f : InterfaceField) : InterfaceField :=
  { f with doc := f.doc.map Text.withNewlines }

def EnumMember.withNewlines (m : EnumMember) : EnumMember :=
  { m with doc := m.doc.map Text.withNewlines }

def Method.withNewlines (m : Method) : Method := { m with doc := m.doc.map Text.withNewlines }

def Declaration.withNewlines : Declaration → Declaration
  | interface name fields doc =>
    interface name (fields.map InterfaceField.withNewlines) (doc.map Text.withNewlines)
  | enumeration name members doc =>
    enumeration name (members.map EnumMember.withNewlines) (doc.map Text.withNewlines)
  | trait name methods doc =>
    trait name (methods.map Method.withNewlines) (doc.map Text.withNewlines)

@[simp] theorem Declaration.name_withNewlines (d : Declaration) : d.withNewlines.name = d.name := by
  cases d <;> rfl

def Schema.withNewlines (s : Schema) : Schema := s.map fun e => (e.1, e.2.withNewlines)

theorem Schema.withNewlines_put (s : Schema) (d : Declaration) :
    (s.put d).withNewlines = s.withNewlines.put d.withNewlines := by
  simp only [withNewlines, put, List.map_append, List.filter_map, Declaration.name_withNewlines]
  rfl

/-! ## Docs -/

theorem SameLines.withNewlines_trim {x y : String} (h : SameLines x y) :
    withNewlines (String.ofList (trim x.toList)) =
      withNewlines (String.ofList (trim y.toList)) := by
  obtain rfl | ⟨hx, rfl⟩ := h
  · rfl
  · simp only [withNewlines, withReturns, String.toList_ofList, normalizeNewlines_trim_crlf hx]

theorem Attribute.Alike.doc? {a a' : Attribute} (h : Attribute.Alike SameLines a a') :
    a.doc?.map withNewlines = a'.doc?.map withNewlines := by
  cases h with
  | comment h => simp [Attribute.doc?, h.withNewlines_trim]
  | written hv =>
    cases hv with
    | none => rfl
    | some he => cases he <;> rfl

theorem docOf_alike {as as' : List Attribute} (h : Attribute.AllAlike SameLines as as') :
    (docOf as).map withNewlines = (docOf as').map withNewlines := by
  induction h with
  | nil => rfl
  | @cons a a' as as' ha _ ih =>
    have hd := ha.doc?
    unfold docOf at ih ⊢
    rw [List.findSome?_cons, List.findSome?_cons]
    cases h : a.doc? with
    | none =>
      cases h' : a'.doc? with
      | none => exact ih
      | some d' => simp [h, h'] at hd
    | some d =>
      cases h' : a'.doc? with
      | none => simp [h, h'] at hd
      | some d' => simpa [h, h'] using hd

/-! ## Types and fields -/

theorem typeText_alike {t t' : Ty} (h : Ty.Alike SameLines t t') (declaration : String)
    (line : Nat) : typeText t declaration line = typeText t' declaration line := by
  unfold typeText
  rw [Ty.resolve_alike t h]

theorem any_allowsAbsence_alike {as as' : List Attribute}
    (h : Attribute.AllAlike SameLines as as') :
    as.any Attribute.allowsAbsence = as'.any Attribute.allowsAbsence := by
  induction h with
  | nil => rfl
  | cons ha _ ih => rw [List.any_cons, List.any_cons, ha.allowsAbsence_eq, ih]

theorem Field.Alike.isOptional_eq {f f' : Field} (h : Field.Alike SameLines f f') :
    f.isOptional = f'.isOptional := by
  rw [Field.isOptional, Field.isOptional, h.type.isOption_eq, any_allowsAbsence_alike h.attributes]

theorem extractFields_alike {fs fs' : List Field} (h : List.Forall₂ (Field.Alike SameLines) fs fs')
    (declaration : String) (index : Nat) :
    Noted.Agree (fun a b => a.map InterfaceField.withNewlines = b.map InterfaceField.withNewlines)
      (extractFields declaration index fs) (extractFields declaration index fs') := by
  induction h generalizing index with
  | nil => exact .pure rfl
  | @cons f f' fs fs' hf _ ih =>
    simp only [extractFields, ← hf.name, ← hf.line]
    cases f.name with
    | none => exact (Noted.Agree.refl _).bind fun _ _ _ => ih (index + 1)
    | some name =>
      rw [typeText_alike hf.type, hf.isOptional_eq]
      apply (Noted.Agree.refl _).bind
      rintro type _ rfl
      apply (ih (index + 1)).bind
      intro rest rest' hr
      apply Noted.Agree.pure
      simp only [List.map_cons, InterfaceField.withNewlines, docOf_alike hf.attributes, hr]

theorem Payload.Alike.fields {p p' : Payload} (h : Payload.Alike SameLines p p') :
    List.Forall₂ (Field.Alike SameLines) p.fields p'.fields := by
  cases h with
  | unit => exact .nil
  | tuple h | named h => exact h

section

variable {as as' : List Attribute} (ha : Attribute.AllAlike SameLines as as')
include ha

theorem extractStruct_alike {s s' : StructDef} (h : StructDef.Alike SameLines s s') :
    Noted.Agree (fun d d' => d.withNewlines = d'.withNewlines) (extractStruct s as)
      (extractStruct s' as') := by
  rw [extractStruct, extractStruct, ← h.name]
  apply (extractFields_alike h.payload.fields _ _).bind
  intro fields fields' hf
  apply Noted.Agree.pure
  rw [Declaration.withNewlines, Declaration.withNewlines, hf, docOf_alike ha]

/-! ## Enums -/

omit ha in
theorem variantValue_alike {v v' : Variant} (h : Variant.Alike SameLines v v')
    (declaration : String) : variantValue v declaration = variantValue v' declaration := by
  have hd := h.discriminant
  unfold variantValue
  rw [← h.name, ← h.line]
  generalize v.discriminant = d at hd
  generalize v'.discriminant = d' at hd
  cases hd with
  | none => rfl
  | some he => cases he <;> rfl

omit ha in
theorem extractVariants_alike {vs vs' : List Variant}
    (h : List.Forall₂ (Variant.Alike SameLines) vs vs') (declaration : String) :
    Extraction.Agree (fun a b => a.map EnumMember.withNewlines = b.map EnumMember.withNewlines)
      (extractVariants declaration vs) (extractVariants declaration vs') := by
  induction h with
  | nil => exact .pure rfl
  | cons hv _ ih =>
    simp only [extractVariants, ← hv.name, variantValue_alike hv]
    apply (Extraction.Agree.refl _).bind
    rintro value _ rfl
    apply ih.bind
    intro rest rest' hr
    apply Extraction.Agree.pure
    simp only [List.map_cons, EnumMember.withNewlines, docOf_alike hv.attributes, hr]

theorem extractEnum_alike {e e' : EnumDef} (h : EnumDef.Alike SameLines e e') :
    Extraction.Agree (fun d d' => d.withNewlines = d'.withNewlines) (extractEnum e as)
      (extractEnum e' as') := by
  rw [extractEnum, extractEnum, ← h.name]
  apply (extractVariants_alike h.variants _).bind
  intro members members' hm
  apply Extraction.Agree.pure
  rw [Declaration.withNewlines, Declaration.withNewlines, hm, docOf_alike ha]

/-! ## Traits -/

omit ha in
theorem extractParams_alike {is is' : List FnInput}
    (h : List.Forall₂ (FnInput.Alike SameLines) is is') (declaration : String) (line index : Nat) :
    extractParams declaration line index is = extractParams declaration line index is' := by
  induction h generalizing index with
  | nil => rfl
  | @cons i i' is is' hi _ ih =>
    have hp := hi.param
    simp only [extractParams]
    generalize i.param = p at hp
    generalize i'.param = p' at hp
    cases hp with
    | receiver => exact ih index
    | typed _ ht => simp only [typeText_alike ht, ih]

omit ha in
theorem extractMethod_alike {m m' : Member} {s s' : Signature} (hm : Member.Alike SameLines m m')
    (hs : Signature.Alike SameLines s s') (declaration : String) :
    Noted.Agree (fun a b => a.withNewlines = b.withNewlines) (extractMethod declaration m s)
      (extractMethod declaration m' s') := by
  have ho := hs.output
  simp only [extractMethod, ← hm.line, ← hs.name, extractParams_alike hs.inputs]
  generalize s.output = o at ho
  generalize s'.output = o' at ho
  apply (Noted.Agree.refl _).bind
  rintro params _ rfl
  have hdoc (result : String) : Noted.Agree (fun a b : Method => a.withNewlines = b.withNewlines)
      (pure ⟨s.name, params, result, docOf m.attributes⟩)
      (pure ⟨s.name, params, result, docOf m'.attributes⟩) := by
    apply Noted.Agree.pure
    rw [Method.withNewlines, Method.withNewlines, docOf_alike hm.attributes]
  cases ho with
  | none => exact (Noted.Agree.refl (pure Primitive.void.name)).bind fun _ _ h => h ▸ hdoc _
  | some ht =>
    simp only [typeText_alike ht]
    exact (Noted.Agree.refl _).bind fun _ _ h => h ▸ hdoc _

omit ha in
theorem extractMembers_alike {ms ms' : List Member}
    (h : List.Forall₂ (Member.Alike SameLines) ms ms') (declaration : String) :
    Noted.Agree (fun a b => a.map Method.withNewlines = b.map Method.withNewlines)
      (extractMembers declaration ms) (extractMembers declaration ms') := by
  induction h with
  | nil => exact .pure rfl
  | @cons m m' ms ms' hm _ ih =>
    have hb := hm.body
    simp only [extractMembers, ← hm.line]
    generalize m.body = b at hb
    generalize m'.body = b' at hb
    cases hb with
    | fn hs =>
      apply (extractMethod_alike hm hs declaration).bind
      intro method method' hmethod
      apply ih.bind
      intro rest rest' hr
      apply Noted.Agree.pure
      rw [List.map_cons, List.map_cons, hmethod, hr]
    | other => exact (Noted.Agree.refl _).bind fun _ _ _ => ih

theorem extractTrait_alike {t t' : TraitDef} (h : TraitDef.Alike SameLines t t') :
    Noted.Agree (fun d d' => d.withNewlines = d'.withNewlines) (extractTrait t as)
      (extractTrait t' as') := by
  rw [extractTrait, extractTrait, ← h.name]
  apply (extractMembers_alike h.members _).bind
  intro methods methods' hm
  apply Noted.Agree.pure
  rw [Declaration.withNewlines, Declaration.withNewlines, hm, docOf_alike ha]

end

/-! ## Files -/

theorem extractItem_alike {i i' : Item} (h : Item.Alike SameLines i i') :
    Extraction.Agree (fun d d' => d.map Declaration.withNewlines = d'.map Declaration.withNewlines)
      (extractItem i) (extractItem i') := by
  have hb := h.body
  have hsome {d d' : Declaration} (hd : d.withNewlines = d'.withNewlines) :
      (some d).map Declaration.withNewlines = (some d').map Declaration.withNewlines :=
    congrArg some hd
  simp only [extractItem, ← h.line]
  generalize i.body = b at hb
  generalize i'.body = b' at hb
  cases hb with
  | structDef hs =>
    exact (Extraction.Agree.lift (extractStruct_alike h.attributes hs)).bind
      fun _ _ hd => .pure (hsome hd)
  | enumDef he =>
    exact (extractEnum_alike h.attributes he).bind fun _ _ hd => .pure (hsome hd)
  | traitDef ht =>
    exact (Extraction.Agree.lift (extractTrait_alike h.attributes ht)).bind
      fun _ _ hd => .pure (hsome hd)
  | other => exact (Extraction.Agree.refl _).bind fun _ _ _ => .pure rfl
  | anyName => exact (Extraction.Agree.refl _).bind fun _ _ _ => .pure rfl

theorem extractItems_alike {is is' : List Item} (h : List.Forall₂ (Item.Alike SameLines) is is')
    {s s' : Schema} (hs : s.withNewlines = s'.withNewlines) :
    Extraction.Agree (fun a b => a.withNewlines = b.withNewlines) (extractItems s is)
      (extractItems s' is') := by
  induction h generalizing s s' with
  | nil => exact .pure hs
  | cons hi _ ih =>
    simp only [extractItems]
    apply (extractItem_alike hi).bind
    intro d d' hd
    cases d with
    | none =>
      cases d' with
      | none => exact ih hs
      | some => cases hd
    | some d =>
      cases d' with
      | none => cases hd
      | some d' =>
        apply ih
        rw [Schema.withNewlines_put, Schema.withNewlines_put, hs, Option.some.inj hd]

/-- Files that differ in the ends of lines give declarations that differ in those of docs only. -/
theorem extractFile_alike {f f' : SourceFile} (h : SourceFile.Alike SameLines f f')
    (options : ExtractOptions) :
    Extraction.Agree (fun a b => a.withNewlines = b.withNewlines) (extractFile options f)
      (extractFile options f') := by
  unfold extractFile
  exact (Extraction.Agree.refl _).bind fun _ _ _ => extractItems_alike h.items rfl

end Ferrotype
