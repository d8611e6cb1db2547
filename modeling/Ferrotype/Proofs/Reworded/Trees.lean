import Ferrotype.Tree.Item
import Ferrotype.Text.Quoted
import Mathlib.Data.List.Forall2

/-!
# Trees that differ in copied texts

Most of what a tree holds are words. A few fields copy a stretch of the source: bounds, what an
attribute holds, patterns, and the names of two kinds of items that may be any token. Trees are
alike if they differ nowhere else, and there only as the tokens do.
-/

namespace Ferrotype

variable (T : String → String → Prop)

/-- Texts of tokens that differ as `T` says, apart by one space. -/
def Joined (x y : String) : Prop :=
  ∃ xs ys, List.Forall₂ T xs ys ∧ x = " ".intercalate xs ∧ y = " ".intercalate ys

/-! ## Types and expressions -/

mutual

inductive Ty.Alike : Ty → Ty → Prop where
  | path {q q' : Option Ty} {leading : Bool} {ss ss' : List Segment}
    (hq : Option.Rel Ty.Alike q q') (hs : List.Forall₂ Segment.Alike ss ss') :
    Ty.Alike (.path q leading ss) (.path q' leading ss')
  | reference {lifetime : Option String} {mutable : Bool} {t t' : Ty} (h : Ty.Alike t t') :
    Ty.Alike (.reference lifetime mutable t) (.reference lifetime mutable t')
  | pointer {mutable : Bool} {t t' : Ty} (h : Ty.Alike t t') :
    Ty.Alike (.pointer mutable t) (.pointer mutable t')
  | tuple {ts ts' : List Ty} (h : List.Forall₂ Ty.Alike ts ts') : Ty.Alike (.tuple ts) (.tuple ts')
  | slice {t t' : Ty} (h : Ty.Alike t t') : Ty.Alike (.slice t) (.slice t')
  | array {t t' : Ty} {e e' : Expr} (ht : Ty.Alike t t') (he : Expr.Alike e e') :
    Ty.Alike (.array t e) (.array t' e')
  | paren {t t' : Ty} (h : Ty.Alike t t') : Ty.Alike (.paren t) (.paren t')
  | traitObject {bs bs' : List String} {hasDyn : Bool} (h : List.Forall₂ (Joined T) bs bs') :
    Ty.Alike (.traitObject bs hasDyn) (.traitObject bs' hasDyn)
  | implTrait {bs bs' : List String} (h : List.Forall₂ (Joined T) bs bs') :
    Ty.Alike (.implTrait bs) (.implTrait bs')
  | bareFn {ts ts' : List Ty} {o o' : Option Ty} (ht : List.Forall₂ Ty.Alike ts ts')
    (ho : Option.Rel Ty.Alike o o') : Ty.Alike (.bareFn ts o) (.bareFn ts' o')
  | never : Ty.Alike .never .never
  | infer : Ty.Alike .infer .infer
  | macroCall {name : String} : Ty.Alike (.macroCall name) (.macroCall name)

inductive Segment.Alike : Segment → Segment → Prop where
  | mk {name : String} {a a' : Arguments} (h : Arguments.Alike a a') :
    Segment.Alike (.mk name a) (.mk name a')

inductive Arguments.Alike : Arguments → Arguments → Prop where
  | none : Arguments.Alike .none .none
  | angle {as as' : List GenericArg} (h : List.Forall₂ GenericArg.Alike as as') :
    Arguments.Alike (.angle as) (.angle as')
  | paren {ts ts' : List Ty} {o o' : Option Ty} (ht : List.Forall₂ Ty.Alike ts ts')
    (ho : Option.Rel Ty.Alike o o') : Arguments.Alike (.paren ts o) (.paren ts' o')

inductive GenericArg.Alike : GenericArg → GenericArg → Prop where
  | type {t t' : Ty} (h : Ty.Alike t t') : GenericArg.Alike (.type t) (.type t')
  | lifetime {name : String} : GenericArg.Alike (.lifetime name) (.lifetime name)
  | const {e e' : Expr} (h : Expr.Alike e e') : GenericArg.Alike (.const e) (.const e')
  | binding {name : String} {t t' : Ty} (h : Ty.Alike t t') :
    GenericArg.Alike (.binding name t) (.binding name t')
  | constraint {name : String} : GenericArg.Alike (.constraint name) (.constraint name)

inductive Expr.Alike : Expr → Expr → Prop where
  | literal {value : String} {kind : LiteralKind} :
    Expr.Alike (.literal value kind) (.literal value kind)
  | path {words : List String} {leading generic : Bool} :
    Expr.Alike (.path words leading generic) (.path words leading generic)
  | unary {op : UnaryOp} {e e' : Expr} (h : Expr.Alike e e') :
    Expr.Alike (.unary op e) (.unary op e')
  | binary {l l' : Expr} {op : BinaryOp} {r r' : Expr} (hl : Expr.Alike l l')
    (hr : Expr.Alike r r') : Expr.Alike (.binary l op r) (.binary l' op r')
  | cast {e e' : Expr} {t t' : Ty} (he : Expr.Alike e e') (ht : Ty.Alike t t') :
    Expr.Alike (.cast e t) (.cast e' t')
  | call {f f' : Expr} {as as' : List Expr} (hf : Expr.Alike f f')
    (ha : List.Forall₂ Expr.Alike as as') : Expr.Alike (.call f as) (.call f' as')
  | member {e e' : Expr} {name : String} (h : Expr.Alike e e') :
    Expr.Alike (.member e name) (.member e' name)
  | index {e e' i i' : Expr} (he : Expr.Alike e e') (hi : Expr.Alike i i') :
    Expr.Alike (.index e i) (.index e' i')
  | paren {e e' : Expr} (h : Expr.Alike e e') : Expr.Alike (.paren e) (.paren e')
  | tuple {es es' : List Expr} (h : List.Forall₂ Expr.Alike es es') :
    Expr.Alike (.tuple es) (.tuple es')
  | array {es es' : List Expr} (h : List.Forall₂ Expr.Alike es es') :
    Expr.Alike (.array es) (.array es')
  | block : Expr.Alike .block .block
  | macroCall {name : String} : Expr.Alike (.macroCall name) (.macroCall name)
  | question {e e' : Expr} (h : Expr.Alike e e') : Expr.Alike (.question e) (.question e')

end

variable {T}

theorem Segment.Alike.name_eq {s s' : Segment} (h : Segment.Alike T s s') : s.name = s'.name := by
  cases h
  rfl

theorem Segment.Alike.map_name {ss ss' : List Segment}
    (h : List.Forall₂ (Segment.Alike T) ss ss') : ss.map Segment.name = ss'.map Segment.name := by
  induction h with
  | nil => rfl
  | cons hs _ ih => rw [List.map_cons, List.map_cons, hs.name_eq, ih]

variable (T)

/-! ## Attributes -/

/-- A comment gives an attribute its value and its text. -/
inductive Attribute.Alike : Attribute → Attribute → Prop where
  | comment {style : DocStyle} {line : Nat} {x y : String} (h : T x y) :
    Attribute.Alike ⟨"doc", style, some (.literal x .str), "= " ++ Text.quoted x, true, line⟩
      ⟨"doc", style, some (.literal y .str), "= " ++ Text.quoted y, true, line⟩
  | written {path : String} {style : DocStyle} {v v' : Option Expr} {x y : String} {line : Nat}
    (hv : Option.Rel (Expr.Alike T) v v') (ht : Joined T x y) :
    Attribute.Alike ⟨path, style, v, x, false, line⟩ ⟨path, style, v', y, false, line⟩

abbrev Attribute.AllAlike (as as' : List Attribute) : Prop := List.Forall₂ (Attribute.Alike T) as as'

/-! ## Items -/

structure Field.Alike (f f' : Field) : Prop where
  name : f.name = f'.name
  type : Ty.Alike T f.type f'.type
  visibility : f.visibility = f'.visibility
  attributes : Attribute.AllAlike T f.attributes f'.attributes
  line : f.line = f'.line

inductive Payload.Alike : Payload → Payload → Prop where
  | unit : Payload.Alike .unit .unit
  | tuple {fs fs' : List Field} (h : List.Forall₂ (Field.Alike T) fs fs') :
    Payload.Alike (.tuple fs) (.tuple fs')
  | named {fs fs' : List Field} (h : List.Forall₂ (Field.Alike T) fs fs') :
    Payload.Alike (.named fs) (.named fs')

structure StructDef.Alike (s s' : StructDef) : Prop where
  name : s.name = s'.name
  payload : Payload.Alike T s.payload s'.payload
  generics : s.generics = s'.generics

structure Variant.Alike (v v' : Variant) : Prop where
  name : v.name = v'.name
  payload : Payload.Alike T v.payload v'.payload
  discriminant : Option.Rel (Expr.Alike T) v.discriminant v'.discriminant
  attributes : Attribute.AllAlike T v.attributes v'.attributes
  line : v.line = v'.line

structure EnumDef.Alike (e e' : EnumDef) : Prop where
  name : e.name = e'.name
  variants : List.Forall₂ (Variant.Alike T) e.variants e'.variants
  generics : e.generics = e'.generics

inductive Param.Alike : Param → Param → Prop where
  | receiver {reference mutable : Bool} {t t' : Option Ty} (h : Option.Rel (Ty.Alike T) t t') :
    Param.Alike (.receiver reference mutable t) (.receiver reference mutable t')
  | typed {x y : String} {t t' : Ty} (hp : Joined T x y) (ht : Ty.Alike T t t') :
    Param.Alike (.typed x t) (.typed y t')

structure FnInput.Alike (i i' : FnInput) : Prop where
  attributes : Attribute.AllAlike T i.attributes i'.attributes
  param : Param.Alike T i.param i'.param

structure Signature.Alike (s s' : Signature) : Prop where
  name : s.name = s'.name
  inputs : List.Forall₂ (FnInput.Alike T) s.inputs s'.inputs
  output : Option.Rel (Ty.Alike T) s.output s'.output
  generics : s.generics = s'.generics
  qualifiers : s.qualifiers = s'.qualifiers
  isVariadic : s.isVariadic = s'.isVariadic

inductive MemberBody.Alike : MemberBody → MemberBody → Prop where
  | fn {s s' : Signature} {hasDefault : Bool} (h : Signature.Alike T s s') :
    MemberBody.Alike (.fn s hasDefault) (.fn s' hasDefault)
  | other {kind : MemberKind} {name : String} : MemberBody.Alike (.other kind name) (.other kind name)

structure Member.Alike (m m' : Member) : Prop where
  attributes : Attribute.AllAlike T m.attributes m'.attributes
  line : m.line = m'.line
  body : MemberBody.Alike T m.body m'.body

structure TraitDef.Alike (t t' : TraitDef) : Prop where
  name : t.name = t'.name
  members : List.Forall₂ (Member.Alike T) t.members t'.members
  generics : t.generics = t'.generics
  supertraits : List.Forall₂ (Joined T) t.supertraits t'.supertraits
  isUnsafe : t.isUnsafe = t'.isUnsafe
  isAuto : t.isAuto = t'.isAuto

/-- The name of a static item, or of a crate, is the next token, whatever that is. -/
inductive ItemBody.Alike : ItemBody → ItemBody → Prop where
  | structDef {s s' : StructDef} (h : StructDef.Alike T s s') :
    ItemBody.Alike (.structDef s) (.structDef s')
  | enumDef {e e' : EnumDef} (h : EnumDef.Alike T e e') : ItemBody.Alike (.enumDef e) (.enumDef e')
  | traitDef {t t' : TraitDef} (h : TraitDef.Alike T t t') :
    ItemBody.Alike (.traitDef t) (.traitDef t')
  | other {kind : OtherKind} {name : String} : ItemBody.Alike (.other kind name) (.other kind name)
  | anyName {kind : OtherKind} {x y : String} (hk : kind = .static ∨ kind = .crateImport)
    (h : T x y) : ItemBody.Alike (.other kind x) (.other kind y)

structure Item.Alike (i i' : Item) : Prop where
  attributes : Attribute.AllAlike T i.attributes i'.attributes
  visibility : i.visibility = i'.visibility
  line : i.line = i'.line
  body : ItemBody.Alike T i.body i'.body

structure SourceFile.Alike (f f' : SourceFile) : Prop where
  attributes : Attribute.AllAlike T f.attributes f'.attributes
  items : List.Forall₂ (Item.Alike T) f.items f'.items

end Ferrotype
