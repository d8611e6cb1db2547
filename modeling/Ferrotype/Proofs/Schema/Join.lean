import Ferrotype.Proofs.Grammar.Items
import Ferrotype.Schema.Extract

/-!
# Declarations of items behind items

Items that are moved down give the same declarations, with notices of the lines further down.
The declarations of a list of items do not depend on those before it, except that they take the
place of earlier ones of their names.
-/

namespace Ferrotype

variable {α β : Type}

/-! ## Notices further down -/

/-- A notice of a line `k` lines further down. -/
def Notice.down (k : Nat) : Notice → Notice
  | unsupportedType shape declaration line => unsupportedType shape declaration (line.map (· + ↑k))
  | traitItemSkipped kind declaration line => traitItemSkipped kind declaration (line.map (· + ↑k))
  | discriminantIgnored variant declaration line =>
    discriminantIgnored variant declaration (line.map (· + ↑k))
  | unnamedFieldSkipped index declaration line =>
    unnamedFieldSkipped index declaration (line.map (· + ↑k))
  | itemSkipped kind line => itemSkipped kind (line.map (· + ↑k))
  | reservedOption option => reservedOption option

def Noted.down (k : Nat) (x : Noted α) : Noted α := ⟨x.value, x.notices.map (Notice.down k)⟩

@[simp] theorem Noted.down_pure (k : Nat) (a : α) : (pure a : Noted α).down k = pure a := rfl

@[simp] theorem Noted.down_bind (k : Nat) (x : Noted α) (f : α → Noted β) :
    (x >>= f).down k = x.down k >>= fun a => (f a).down k := by
  ext1
  · rfl
  · exact List.map_append

@[simp] theorem Noted.down_map (k : Nat) (f : α → β) (x : Noted α) :
    (f <$> x).down k = f <$> x.down k := by
  simp only [← bind_pure_comp, down_bind, down_pure]

@[simp] theorem Noted.down_note (k : Nat) (n : Notice) : (note n).down k = note (n.down k) := rfl

def Extraction.down (k : Nat) (x : Extraction α) : Extraction α := ExceptT.mk (x.run.down k)

@[simp] theorem Extraction.down_pure (k : Nat) (a : α) :
    Extraction.down k (pure a) = pure a := rfl

@[simp] theorem Extraction.down_bind (k : Nat) (x : Extraction α) (f : α → Extraction β) :
    Extraction.down k (x >>= f) = Extraction.down k x >>= fun a => Extraction.down k (f a) := by
  change Noted.down k (x.run >>= ExceptT.bindCont f) = _
  rw [Noted.down_bind]
  congr 1
  funext r
  cases r <;> rfl

@[simp] theorem Extraction.down_map (k : Nat) (f : α → β) (x : Extraction α) :
    Extraction.down k (f <$> x) = f <$> Extraction.down k x := by
  simp only [← bind_pure_comp, down_bind, down_pure]

@[simp] theorem Extraction.down_lift (k : Nat) (x : Noted α) :
    Extraction.down k (ExceptT.lift x) = ExceptT.lift (x.down k) :=
  Noted.down_map k Except.ok x

theorem Extraction.run_down (k : Nat) (x : Extraction α) :
    (Extraction.down k x).run = x.run.down k := rfl

/-! ## Items further down -/

@[simp] theorem Field.down_name (k : Nat) (f : Field) : (f.down k).name = f.name := rfl

@[simp] theorem Field.down_type (k : Nat) (f : Field) : (f.down k).type = f.type := rfl

@[simp] theorem Field.down_line (k : Nat) (f : Field) : (f.down k).line = f.line + k := rfl

@[simp] theorem Field.down_attributes (k : Nat) (f : Field) :
    (f.down k).attributes = f.attributes.map (Attribute.down k) := rfl

@[simp] theorem Field.down_isOptional (k : Nat) (f : Field) :
    (f.down k).isOptional = f.isOptional := by
  simp only [isOptional, down, List.any_map]
  rfl

@[simp] theorem docOf_down (k : Nat) (as : List Attribute) :
    docOf (as.map (Attribute.down k)) = docOf as := by
  induction as with
  | nil => rfl
  | cons a as ih =>
    simp only [docOf, List.map_cons, List.findSome?_cons] at ih ⊢
    rw [ih]
    rfl

@[simp] theorem typeText_down (t : Ty) (declaration : String) (line k : Nat) :
    (typeText t declaration line).down k = typeText t declaration (line + k) := by
  unfold typeText
  cases hu : t.resolve.unsupported <;> simp [hu, Notice.down]

theorem extractFields_down (k : Nat) (declaration : String) (index : Nat) (fs : List Field) :
    extractFields declaration index (fs.map (Field.down k)) =
      (extractFields declaration index fs).down k := by
  induction fs generalizing index with
  | nil => rfl
  | cons f fs ih =>
    simp only [extractFields, List.map_cons, Field.down_name]
    cases f.name with
    | none => simp [ih, Notice.down]
    | some name => simp [ih]

theorem extractStruct_down (k : Nat) (s : StructDef) (as : List Attribute) :
    extractStruct (s.down k) (as.map (Attribute.down k)) = (extractStruct s as).down k := by
  have hf : (s.payload.down k).fields = s.payload.fields.map (Field.down k) := by
    cases s.payload <;> rfl
  simp [extractStruct, StructDef.down, hf, extractFields_down]

theorem variantValue_down (k : Nat) (v : Variant) (declaration : String) :
    variantValue (v.down k) declaration = (variantValue v declaration).down k := by
  have hd : (v.down k).discriminant = v.discriminant := rfl
  have hn : (v.down k).name = v.name := rfl
  unfold variantValue
  rw [hd, hn]
  split
  · rfl
  · rfl
  · rfl
  · next e _ _ _ => cases e.name? <;> simp [Notice.down, Variant.down]

theorem extractVariants_down (k : Nat) (declaration : String) (vs : List Variant) :
    extractVariants declaration (vs.map (Variant.down k)) =
      (extractVariants declaration vs).down k := by
  induction vs with
  | nil => rfl
  | cons v vs ih =>
    simp only [extractVariants, List.map_cons, variantValue_down, ih, Extraction.down_bind,
      Extraction.down_pure]
    simp [Variant.down]

theorem extractEnum_down (k : Nat) (e : EnumDef) (as : List Attribute) :
    extractEnum (e.down k) (as.map (Attribute.down k)) = (extractEnum e as).down k := by
  simp [extractEnum, EnumDef.down, extractVariants_down]

theorem extractParams_down (k : Nat) (declaration : String) (line index : Nat) (is : List FnInput) :
    extractParams declaration (line + k) index (is.map (FnInput.down k)) =
      (extractParams declaration line index is).down k := by
  induction is generalizing index with
  | nil => rfl
  | cons i is ih =>
    simp only [extractParams, List.map_cons, FnInput.down]
    cases i.param <;> simp [ih]

theorem extractMethod_down (k : Nat) (declaration : String) (m : Member) (s : Signature) :
    extractMethod declaration (m.down k) (s.down k) = (extractMethod declaration m s).down k := by
  have ho : (s.down k).output = s.output := rfl
  simp only [extractMethod, ho]
  cases s.output <;> simp [Member.down, Signature.down, extractParams_down]

theorem extractMembers_down (k : Nat) (declaration : String) (ms : List Member) :
    extractMembers declaration (ms.map (Member.down k)) = (extractMembers declaration ms).down k := by
  induction ms with
  | nil => rfl
  | cons m ms ih =>
    have hb : (m.down k).body = m.body.down k := rfl
    simp only [extractMembers, List.map_cons, hb]
    cases m.body with
    | fn s hasDefault => simp [MemberBody.down, extractMethod_down, ih]
    | other kind name => simp [MemberBody.down, ih, Notice.down, Member.down]

theorem extractTrait_down (k : Nat) (t : TraitDef) (as : List Attribute) :
    extractTrait (t.down k) (as.map (Attribute.down k)) = (extractTrait t as).down k := by
  simp [extractTrait, TraitDef.down, extractMembers_down]

theorem extractItem_down (k : Nat) (i : Item) :
    extractItem (i.down k) = (extractItem i).down k := by
  have hb : (i.down k).body = i.body.down k := rfl
  have ha : (i.down k).attributes = i.attributes.map (Attribute.down k) := rfl
  simp only [extractItem, hb, ha]
  cases i.body with
  | structDef s => simp [ItemBody.down, extractStruct_down]
  | enumDef e => simp [ItemBody.down, extractEnum_down]
  | traitDef t => simp [ItemBody.down, extractTrait_down]
  | other kind name => simp [ItemBody.down, Notice.down, Item.down]

theorem extractItems_down (k : Nat) (schema : Schema) (items : List Item) :
    extractItems schema (items.map (Item.down k)) = (extractItems schema items).down k := by
  induction items generalizing schema with
  | nil => rfl
  | cons i items ih =>
    simp only [extractItems, List.map_cons, extractItem_down, Extraction.down_bind]
    congr 1
    funext d
    cases d <;> simp [ih]

/-! ## Items behind items -/

/-- The declarations of `s` that have no later one in `t`, and then those of `t`. -/
def Schema.merge (s t : Schema) : Schema := s.filter (fun e => e.1 ∉ t.map Prod.fst) ++ t

theorem Schema.merge_nil (s : Schema) : s.merge [] = s := by
  simp [merge]

theorem Schema.merge_put (s t : Schema) (d : Declaration) :
    (s.merge t).put d = s.merge (t.put d) := by
  simp only [merge, put, List.filter_append, List.filter_filter, List.append_assoc]
  congr 1
  refine List.filter_congr fun e _ => ?_
  rw [Bool.eq_iff_iff]
  by_cases he : e.1 = d.name
  · simp [he]
  · have hm : e.1 ∈ (t.filter (·.1 != d.name) ++ [(d.name, d)]).map Prod.fst ↔
        e.1 ∈ t.map Prod.fst := by
      simp [he]
    simp only [decide_eq_true_eq, Bool.and_eq_true, hm]
    simp [he]

theorem extractItems_append (schema : Schema) (items items' : List Item) :
    extractItems schema (items ++ items') =
      extractItems schema items >>= fun s => extractItems s items' := by
  induction items generalizing schema with
  | nil => simp [extractItems]
  | cons i items ih =>
    simp only [extractItems, List.cons_append, bind_assoc]
    congr 1
    funext d
    cases d <;> exact ih _

/-- What comes before does not matter to later declarations, but they may take its place. -/
theorem extractItems_merge (s t : Schema) (items : List Item) :
    extractItems (s.merge t) items = s.merge <$> extractItems t items := by
  induction items generalizing t with
  | nil => simp [extractItems]
  | cons i items ih =>
    simp only [extractItems, map_bind]
    congr 1
    funext d
    cases d with
    | none => exact ih t
    | some d =>
      simp only [Schema.merge_put]
      exact ih (t.put d)

end Ferrotype
