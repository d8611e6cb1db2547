import Ferrotype.Schema.Extract
import Mathlib.Data.List.Basic

/-!
# Each construct is accounted for

An extraction goes over the constructs of a file, which are the fields, variants and members of its
items, and the items that hold none. A construct is declared, or a notice tells why not. Only a
variant may have a fault, and then the run stops there and keeps the notices of what stands before.
-/

namespace Ferrotype

variable {α β : Type}

/-! ## Steps -/

/-- One construct: its line, its notices, and its fault if it has one. -/
structure Step where
  line : Nat
  notices : List Notice
  fault : Option ExtractError

namespace Step

def isFine (s : Step) : Bool := s.fault.isNone

/-- The notices of what stands before the first fault. -/
def noticesOf (steps : List Step) : List Notice := (steps.takeWhile isFine).flatMap notices

def firstFault (steps : List Step) : Option ExtractError := steps.findSome? fault

variable {steps more : List Step} {e : ExtractError}

theorem firstFault_append : firstFault (steps ++ more) = (firstFault steps).or (firstFault more) :=
  List.findSome?_append

theorem isFine_of_firstFault (h : firstFault steps = none) : ∀ s ∈ steps, isFine s := fun s hs =>
  Option.isNone_iff_eq_none.2 (List.findSome?_eq_none_iff.1 h s hs)

/-- Steps without a fault have all their notices. -/
theorem noticesOf_fine (h : firstFault steps = none) : noticesOf steps = steps.flatMap notices := by
  have ht : (steps ++ []).takeWhile isFine = steps ++ [].takeWhile isFine :=
    List.takeWhile_append_of_pos (isFine_of_firstFault h)
  rw [List.append_nil, List.takeWhile_nil, List.append_nil] at ht
  rw [noticesOf, ht]

theorem noticesOf_append (h : firstFault steps = none) :
    noticesOf (steps ++ more) = noticesOf steps ++ noticesOf more := by
  rw [noticesOf_fine h, noticesOf, List.takeWhile_append_of_pos (isFine_of_firstFault h),
    List.flatMap_append]
  rfl

/-- What stands behind a fault adds nothing. -/
theorem noticesOf_append_fault (h : firstFault steps = some e) :
    noticesOf (steps ++ more) = noticesOf steps := by
  induction steps with
  | nil => cases h
  | cons s steps ih =>
    cases hs : s.fault with
    | some e => simp [noticesOf, isFine, hs]
    | none =>
      have hr : firstFault steps = some e := by simpa [firstFault, hs] using h
      have hi : isFine s := by simp [isFine, hs]
      have := ih hr
      unfold noticesOf at this ⊢
      rw [List.cons_append, List.takeWhile_cons_of_pos hi, List.takeWhile_cons_of_pos hi,
        List.flatMap_cons, List.flatMap_cons, this]

end Step

namespace Extraction

/-- A run over steps comes to `a`, unless one of them has a fault. -/
def Accounts (x : Extraction α) (steps : List Step) (a : α) : Prop :=
  x.run = ⟨(Step.firstFault steps).elim (.ok a) .error, Step.noticesOf steps⟩

variable {x : Extraction α} {f : α → Extraction β} {steps more : List Step} {a : α} {b : β}

theorem accounts_pure (a : α) : Accounts (pure a) [] a := rfl

theorem Accounts.bind (hx : Accounts x steps a) (hf : Accounts (f a) more b) :
    Accounts (x >>= f) (steps ++ more) b := by
  unfold Accounts at hx hf ⊢
  rw [Step.firstFault_append]
  cases h : Step.firstFault steps with
  | none =>
    rw [h] at hx
    rw [run_bind_ok hx, hf, Step.noticesOf_append h]
    rfl
  | some e =>
    -- `f` is not run, and no notice of `more` counts.
    rw [h] at hx
    rw [run_bind_error hx, Step.noticesOf_append_fault h]
    rfl

theorem Accounts.map (hx : Accounts x steps a) (g : α → β) : Accounts (g <$> x) steps (g a) := by
  have hb := hx.bind (f := fun a => pure (g a)) (accounts_pure (g a))
  rw [List.append_nil] at hb
  rwa [← bind_pure_comp]

/-- Steps without faults, which need no run that may fail. -/
theorem accounts_lift {x : Noted α} (hf : Step.firstFault steps = none)
    (hn : x.notices = steps.flatMap Step.notices) : Accounts (ExceptT.lift x) steps x.value := by
  unfold Accounts
  rw [hf, Step.noticesOf_fine hf, ← hn]
  exact run_lift x

end Extraction

open Extraction

/-! ## Types -/

def Ty.isPath : Ty → Bool
  | .path .. => true
  | _ => false

/-- The second type is the first one, or stands in it inside `Option`s and `Vec`s only. -/
inductive Ty.Wraps : Ty → Ty → Prop where
  | self (t : Ty) : Wraps t t
  | wrapped {qualifier : Option Ty} {leading : Bool} {segments : List Segment} {s : Segment}
    {t u : Ty} (hs : segments.getLast? = some s) (hn : s.name = "Option" ∨ s.name = "Vec")
    (ha : s.typeArgument? = some t) (h : Wraps t u) : Wraps (.path qualifier leading segments) u

theorem sizeOf_typeArgument {segments : List Segment} {s : Segment} {t : Ty}
    (hs : segments.getLast? = some s) (ha : s.typeArgument? = some t) :
    sizeOf t < sizeOf segments := by
  have hm := List.sizeOf_lt_of_mem (List.mem_of_getLast? hs)
  obtain ⟨name, arguments⟩ := s
  unfold Segment.typeArgument? at ha
  split at ha
  · next u hu =>
    cases ha
    obtain rfl : arguments = _ := hu
    simp at hm
    omega
  · cases ha

theorem Ty.Wraps.unsupported {t u : Ty} (h : t.Wraps u) (hu : u.isPath = false) :
    t.resolve.unsupported = some u.shapeName := by
  induction h with
  | self t =>
    cases t with
    | path => cases hu
    | _ => rfl
  | wrapped hs hn ha _ ih =>
    rw [Ty.resolve_path _ _ hs, Segment.resolve_wrapper hn ha]
    exact ih hu

theorem Ty.exists_wraps {shape : String} (t : Ty) (h : t.resolve.unsupported = some shape) :
    ∃ u, t.Wraps u ∧ u.isPath = false ∧ u.shapeName = shape := by
  match t, h with
  | .path qualifier leading segments, h =>
    cases hs : segments.getLast? with
    | none =>
      obtain rfl := List.getLast?_eq_none_iff.1 hs
      cases h
    | some s =>
      rw [Ty.resolve_path qualifier leading hs] at h
      obtain ⟨hn, t, ha⟩ := Segment.exists_wrapped h
      rw [Segment.resolve_wrapper hn ha] at h
      obtain ⟨u, hw, hu⟩ := Ty.exists_wraps t h
      exact ⟨u, .wrapped hs hn ha hw, hu⟩
  | .reference .., h | .pointer .., h | .tuple .., h | .slice .., h | .array .., h | .paren .., h
  | .traitObject .., h | .implTrait .., h | .bareFn .., h | .never, h | .infer, h
  | .macroCall .., h => exact ⟨_, .self _, rfl, Option.some.inj h⟩
termination_by sizeOf t
decreasing_by
  have := sizeOf_typeArgument hs ha
  simp
  omega

/-- A shape that has to become `any` is noted. -/
def Ty.notices (t : Ty) (declaration : String) (line : Nat) : List Notice :=
  (t.resolve.unsupported.map fun shape => .unsupportedType shape declaration (some line)).toList

theorem Ty.length_notices (t : Ty) (declaration : String) (line : Nat) :
    (t.notices declaration line).length ≤ 1 := by
  unfold notices
  cases t.resolve.unsupported <;> simp

/-- The shape is that of the innermost type, if it is no path. -/
theorem Ty.mem_notices {t : Ty} {declaration : String} {line : Nat} {n : Notice} :
    n ∈ t.notices declaration line ↔
      ∃ u, t.Wraps u ∧ u.isPath = false ∧
        n = .unsupportedType u.shapeName declaration (some line) := by
  rw [notices, Option.mem_toList, Option.map_eq_some_iff]
  constructor
  · rintro ⟨shape, hs, rfl⟩
    obtain ⟨u, hw, hu, rfl⟩ := t.exists_wraps hs
    exact ⟨u, hw, hu, rfl⟩
  · rintro ⟨u, hw, hu, rfl⟩
    exact ⟨_, hw.unsupported hu, rfl⟩

theorem typeText_eq (t : Ty) (declaration : String) (line : Nat) :
    typeText t declaration line = ⟨t.resolve.type.text, t.notices declaration line⟩ := by
  unfold typeText Ty.notices
  dsimp only
  cases t.resolve.unsupported <;> rfl

/-! ## Structs -/

def Field.declared? (f : Field) : Option InterfaceField :=
  f.name.map fun name =>
    ⟨camelCase name, f.type.resolve.type.text, f.isOptional, docOf f.attributes⟩

/-- A field, and its position among all fields. -/
def Field.step (declaration : String) (f : Field × Nat) : Step where
  line := f.1.line
  notices :=
    match f.1.name with
    | none => [.unnamedFieldSkipped f.2 declaration (some f.1.line)]
    | some _ => f.1.type.notices declaration f.1.line
  fault := none

theorem extractFields_eq (declaration : String) (index : Nat) (fs : List Field) :
    extractFields declaration index fs =
      ⟨fs.filterMap Field.declared?,
        ((fs.zipIdx index).map (Field.step declaration)).flatMap Step.notices⟩ := by
  induction fs generalizing index with
  | nil => rfl
  | cons f fs ih =>
    rw [extractFields, ih, typeText_eq, List.zipIdx_cons, List.map_cons, List.flatMap_cons]
    unfold Field.step Field.declared?
    cases hn : f.name with
    | none =>
      rw [List.filterMap_cons_none (by rw [hn]; rfl)]
      rfl
    | some name =>
      rw [List.filterMap_cons_some (by rw [hn]; rfl)]
      exact Noted.bind_cons ⟨_, _⟩ _ _ _

/-! ## Enums -/

/-- A string, an integer, or one plain name. -/
def Expr.isValue : Expr → Bool
  | .literal _ .str | .literal _ .int | .path [_] false false => true
  | _ => false

def Expr.value? : Expr → Option EnumValue
  | .literal value .str => some (.string value)
  | .literal text .int => (intValueAt text none).toOption.map fun n => .number n
  | e => e.name?.map .identifier

def Variant.declared (v : Variant) : EnumMember :=
  ⟨v.name, v.discriminant.bind Expr.value?, docOf v.attributes⟩

/-- An integer that cannot be read, or is above the 64-bit range. -/
def Variant.fault? (declaration : String) (v : Variant) : Option ExtractError :=
  match v.discriminant with
  | some (.literal text .int) =>
    match intValueAt text none with
    | .error error => some error
    | .ok n => if n ≤ maxDiscriminant then none else some (.range text declaration v.name)
  | _ => none

def Variant.step (declaration : String) (v : Variant) : Step where
  line := v.line
  notices :=
    if v.discriminant.all Expr.isValue then []
    else [.discriminantIgnored v.name declaration (some v.line)]
  fault := v.fault? declaration

theorem variantValue_accounts (v : Variant) (declaration : String) :
    Accounts (variantValue v declaration) [v.step declaration]
      (v.discriminant.bind Expr.value?) := by
  unfold variantValue Variant.step Variant.fault?
  cases v.discriminant with
  | none => rfl
  | some e =>
    cases e with
    | literal text kind =>
      cases kind with
      | str => rfl
      | int =>
        dsimp only [Option.bind_some, Expr.value?, intDiscriminant]
        cases intValueAt text none with
        | error error => rfl
        | ok n =>
          dsimp only
          split <;> rfl
      | _ => rfl
    | path segments leadingColon hasGenerics =>
      match segments, leadingColon, hasGenerics with
      | [name], false, false => rfl
      | [], _, _ | _ :: _ :: _, _, _ | [_], true, _ | [_], false, true => rfl
    | _ => rfl

theorem extractVariants_accounts (declaration : String) (vs : List Variant) :
    Accounts (extractVariants declaration vs) (vs.map (Variant.step declaration))
      (vs.map Variant.declared) := by
  induction vs with
  | nil => exact accounts_pure []
  | cons v vs ih => exact (variantValue_accounts v declaration).bind (ih.map _)

/-! ## Traits -/

/-- The type of a parameter; a receiver is none. -/
def FnInput.type? (i : FnInput) : Option Ty :=
  match i.param with
  | .receiver .. => none
  | .typed _ t => some t

/-- The types of the parameters, and then the one that is returned. -/
def Signature.types (s : Signature) : List Ty := s.inputs.filterMap FnInput.type? ++ s.output.toList

/-- Parameters are counted without the receiver. -/
def Signature.params (s : Signature) : List MethodParam :=
  (s.inputs.filterMap FnInput.type?).zipIdx.map fun t =>
    ⟨"arg" ++ toString t.2, t.1.resolve.type.text⟩

def Member.declared? (m : Member) : Option Method :=
  match m.body with
  | .fn s _ =>
    some ⟨s.name, s.params, s.output.elim "void" fun t => t.resolve.type.text, docOf m.attributes⟩
  | .other .. => none

def Member.step (declaration : String) (m : Member) : Step where
  line := m.line
  notices :=
    match m.body with
    | .fn s _ => s.types.flatMap fun t => t.notices declaration m.line
    | .other kind _ => [.traitItemSkipped kind.name declaration (some m.line)]
  fault := none

theorem extractParams_eq (declaration : String) (line index : Nat) (is : List FnInput) :
    extractParams declaration line index is =
      ⟨((is.filterMap FnInput.type?).zipIdx index).map fun t =>
          ⟨"arg" ++ toString t.2, t.1.resolve.type.text⟩,
        (is.filterMap FnInput.type?).flatMap fun t => t.notices declaration line⟩ := by
  induction is generalizing index with
  | nil => rfl
  | cons i is ih =>
    rw [extractParams]
    cases hp : i.param with
    | receiver reference mutable type =>
      rw [List.filterMap_cons_none (by rw [FnInput.type?, hp]), ih]
    | typed pattern t =>
      rw [List.filterMap_cons_some (by rw [FnInput.type?, hp])]
      dsimp only
      rw [typeText_eq, ih]
      exact Noted.bind_cons ⟨_, _⟩ _ _ _

theorem extractMethod_eq (declaration : String) (m : Member) (s : Signature) :
    extractMethod declaration m s =
      ⟨⟨s.name, s.params, s.output.elim "void" fun t => t.resolve.type.text, docOf m.attributes⟩,
        s.types.flatMap fun t => t.notices declaration m.line⟩ := by
  rw [extractMethod, extractParams_eq, Signature.types, List.flatMap_append]
  cases s.output with
  | none => rfl
  | some t =>
    dsimp only
    rw [typeText_eq]
    rfl

theorem extractMembers_eq (declaration : String) (ms : List Member) :
    extractMembers declaration ms =
      ⟨ms.filterMap Member.declared?,
        (ms.map (Member.step declaration)).flatMap Step.notices⟩ := by
  induction ms with
  | nil => rfl
  | cons m ms ih =>
    rw [extractMembers, ih, List.map_cons, List.flatMap_cons]
    unfold Member.step
    cases hb : m.body with
    | fn s hasDefault =>
      rw [List.filterMap_cons_some (by rw [Member.declared?, hb])]
      dsimp only
      rw [extractMethod_eq]
      exact Noted.bind_cons ⟨_, _⟩ _ _ _
    | other kind name =>
      rw [List.filterMap_cons_none (by rw [Member.declared?, hb])]
      rfl

/-! ## Items -/

/-- The constructs of an item, or the item itself if it gives no declaration. -/
def Item.steps (item : Item) : List Step :=
  match item.body with
  | .structDef s => s.payload.fields.zipIdx.map (Field.step s.name)
  | .enumDef e => e.variants.map (Variant.step e.name)
  | .traitDef t => t.members.map (Member.step t.name)
  | .other kind _ => [⟨item.line, [.itemSkipped kind.name (some item.line)], none⟩]

def Item.declared? (item : Item) : Option Declaration :=
  match item.body with
  | .structDef s =>
    some (.interface s.name (s.payload.fields.filterMap Field.declared?) (docOf item.attributes))
  | .enumDef e =>
    some (.enumeration e.name (e.variants.map Variant.declared) (docOf item.attributes))
  | .traitDef t =>
    some (.trait t.name (t.members.filterMap Member.declared?) (docOf item.attributes))
  | .other .. => none

theorem firstFault_map {f : α → Step} (h : ∀ a, (f a).fault = none) (as : List α) :
    Step.firstFault (as.map f) = none := by
  refine List.findSome?_eq_none_iff.2 fun s hs => ?_
  obtain ⟨a, -, rfl⟩ := List.mem_map.1 hs
  exact h a

theorem extractItem_accounts (item : Item) :
    Accounts (extractItem item) item.steps item.declared? := by
  unfold extractItem Item.steps Item.declared?
  cases item.body with
  | structDef s =>
    dsimp only
    rw [extractStruct, extractFields_eq]
    exact (accounts_lift (firstFault_map (fun _ => rfl) _) (List.append_nil _)).map some
  | enumDef e =>
    exact ((extractVariants_accounts e.name e.variants).map _).map some
  | traitDef t =>
    dsimp only
    rw [extractTrait, extractMembers_eq]
    exact (accounts_lift (firstFault_map (fun _ => rfl) _) (List.append_nil _)).map some
  | other kind name => rfl

/-! ## Files -/

theorem extractItems_accounts (schema : Schema) (items : List Item) :
    Accounts (extractItems schema items) (items.flatMap Item.steps)
      ((items.filterMap Item.declared?).foldl Schema.put schema) := by
  induction items generalizing schema with
  | nil => exact accounts_pure schema
  | cons item items ih =>
    rw [extractItems, List.flatMap_cons]
    refine (extractItem_accounts item).bind ?_
    cases hd : item.declared? with
    | none =>
      rw [List.filterMap_cons_none hd]
      exact ih schema
    | some d =>
      rw [List.filterMap_cons_some hd]
      exact ih (schema.put d)

/-- Options that are set are noted first, whatever comes of the items. -/
theorem extractFile_run (options : ExtractOptions) (file : SourceFile) :
    (extractFile options file).run =
      ⟨(Step.firstFault (file.items.flatMap Item.steps)).elim
          (.ok ((file.items.filterMap Item.declared?).foldl Schema.put [])) .error,
        options.flagsSet.map .reservedOption ++
          Step.noticesOf (file.items.flatMap Item.steps)⟩ := by
  have hi : (extractItems [] file.items).run = _ := extractItems_accounts [] file.items
  rw [extractFile, run_bind_ok (run_lift _), hi]

/-! ## Lines -/

theorem Ty.line_of_notices {t : Ty} {declaration : String} {line : Nat} {n : Notice}
    (h : n ∈ t.notices declaration line) : n.line = some ↑line := by
  obtain ⟨shape, -, rfl⟩ := Option.map_eq_some_iff.1 (Option.mem_toList.1 h)
  rfl

/-- A notice has the line of the construct that it is of. -/
theorem Item.line_of_steps {item : Item} {s : Step} {n : Notice} (hs : s ∈ item.steps)
    (hn : n ∈ s.notices) : n.line = some ↑s.line := by
  unfold Item.steps at hs
  cases hb : item.body with
  | structDef d =>
    rw [hb] at hs
    obtain ⟨f, -, rfl⟩ := List.mem_map.1 hs
    simp only [Field.step] at hn ⊢
    split at hn
    · rw [List.mem_singleton.1 hn]
      rfl
    · exact Ty.line_of_notices hn
  | enumDef d =>
    rw [hb] at hs
    obtain ⟨v, -, rfl⟩ := List.mem_map.1 hs
    simp only [Variant.step] at hn ⊢
    split at hn
    · cases hn
    · rw [List.mem_singleton.1 hn]
      rfl
  | traitDef d =>
    rw [hb] at hs
    obtain ⟨m, -, rfl⟩ := List.mem_map.1 hs
    simp only [Member.step] at hn ⊢
    split at hn
    · obtain ⟨t, -, ht⟩ := List.mem_flatMap.1 hn
      exact Ty.line_of_notices ht
    · rw [List.mem_singleton.1 hn]
      rfl
  | other kind name =>
    rw [hb] at hs
    rw [List.mem_singleton.1 hs] at hn ⊢
    rw [List.mem_singleton.1 hn]
    rfl

end Ferrotype
