import Ferrotype.Grammar.Basic
import Ferrotype.Proofs.Grammar.Run

/-!
# The shape of trees

How tightly the root of an expression binds, and the trees in which no part binds looser than
its place allows.
-/

namespace Ferrotype

/-! ## Ranks -/

/--
How tightly the root of an expression binds: as its operator does, which is 9 at most, or as a
cast, a unary operator, or anything else.
-/
def Expr.rank : Expr → Nat
  | binary _ op _ => op.precedence
  | cast .. => 10
  | unary .. => 11
  | _ => 12

theorem BinaryOp.precedence_le (op : BinaryOp) : op.precedence ≤ 9 := by cases op <;> decide

theorem BinaryOp.precedence_pos (op : BinaryOp) : 1 ≤ op.precedence := by cases op <;> decide

/-! ## Trees -/

mutual

/-- The expressions in a type are shaped. -/
inductive Ty.Shaped : Ty → Prop where
  | path {qualifier : Option Ty} {leading : Bool} {segments : List Segment}
    (hq : ∀ t ∈ qualifier, t.Shaped) (hs : ∀ s ∈ segments, s.Shaped) :
    Ty.Shaped (.path qualifier leading segments)
  | reference {lifetime : Option String} {mutable : Bool} {t : Ty} (h : t.Shaped) :
    Ty.Shaped (.reference lifetime mutable t)
  | pointer {mutable : Bool} {t : Ty} (h : t.Shaped) : Ty.Shaped (.pointer mutable t)
  | tuple {ts : List Ty} (h : ∀ t ∈ ts, t.Shaped) : Ty.Shaped (.tuple ts)
  | slice {t : Ty} (h : t.Shaped) : Ty.Shaped (.slice t)
  | array {t : Ty} {length : Expr} (ht : t.Shaped) (hl : length.Shaped) :
    Ty.Shaped (.array t length)
  | paren {t : Ty} (h : t.Shaped) : Ty.Shaped (.paren t)
  | traitObject {bounds : List String} {hasDyn : Bool} : Ty.Shaped (.traitObject bounds hasDyn)
  | implTrait {bounds : List String} : Ty.Shaped (.implTrait bounds)
  | bareFn {inputs : List Ty} {output : Option Ty} (hi : ∀ t ∈ inputs, t.Shaped)
    (ho : ∀ t ∈ output, t.Shaped) : Ty.Shaped (.bareFn inputs output)
  | never : Ty.Shaped .never
  | infer : Ty.Shaped .infer
  | macroCall {name : String} : Ty.Shaped (.macroCall name)

inductive Segment.Shaped : Segment → Prop where
  | mk {name : String} {arguments : Arguments} (h : arguments.Shaped) :
    Segment.Shaped (.mk name arguments)

inductive Arguments.Shaped : Arguments → Prop where
  | none : Arguments.Shaped .none
  | angle {arguments : List GenericArg} (h : ∀ a ∈ arguments, a.Shaped) :
    Arguments.Shaped (.angle arguments)
  | paren {inputs : List Ty} {output : Option Ty} (hi : ∀ t ∈ inputs, t.Shaped)
    (ho : ∀ t ∈ output, t.Shaped) : Arguments.Shaped (.paren inputs output)

inductive GenericArg.Shaped : GenericArg → Prop where
  | type {t : Ty} (h : t.Shaped) : GenericArg.Shaped (.type t)
  | lifetime {name : String} : GenericArg.Shaped (.lifetime name)
  | const {e : Expr} (h : e.Shaped) : GenericArg.Shaped (.const e)
  | binding {name : String} {t : Ty} (h : t.Shaped) : GenericArg.Shaped (.binding name t)
  | constraint {name : String} : GenericArg.Shaped (.constraint name)

/--
Each part of an expression binds tightly enough for its place: the left operand of an operator as
tightly as the operator, the right one tighter, the operand of a cast as a cast, that of a unary
operator as a unary one, and what stands before a suffix tighter than that.
-/
inductive Expr.Shaped : Expr → Prop where
  | literal {value : String} {kind : LiteralKind} : Expr.Shaped (.literal value kind)
  | path {segments : List String} {leading generic : Bool} :
    Expr.Shaped (.path segments leading generic)
  | unary {op : UnaryOp} {e : Expr} (h : e.Shaped) (hr : 11 ≤ e.rank) : Expr.Shaped (.unary op e)
  | binary {l r : Expr} {op : BinaryOp} (hl : l.Shaped) (hr : r.Shaped)
    (left : op.precedence ≤ l.rank) (right : op.precedence < r.rank) : Expr.Shaped (.binary l op r)
  | cast {e : Expr} {t : Ty} (h : e.Shaped) (ht : t.Shaped) (hr : 10 ≤ e.rank) :
    Expr.Shaped (.cast e t)
  | call {f : Expr} {arguments : List Expr} (h : f.Shaped) (hr : 12 ≤ f.rank)
    (ha : ∀ a ∈ arguments, a.Shaped) : Expr.Shaped (.call f arguments)
  | member {e : Expr} {name : String} (h : e.Shaped) (hr : 12 ≤ e.rank) :
    Expr.Shaped (.member e name)
  | index {base i : Expr} (h : base.Shaped) (hr : 12 ≤ base.rank) (hi : i.Shaped) :
    Expr.Shaped (.index base i)
  | paren {e : Expr} (h : e.Shaped) : Expr.Shaped (.paren e)
  | tuple {es : List Expr} (h : ∀ e ∈ es, e.Shaped) : Expr.Shaped (.tuple es)
  | array {es : List Expr} (h : ∀ e ∈ es, e.Shaped) : Expr.Shaped (.array es)
  | block : Expr.Shaped .block
  | macroCall {name : String} : Expr.Shaped (.macroCall name)
  | question {e : Expr} (h : e.Shaped) (hr : 12 ≤ e.rank) : Expr.Shaped (.question e)

end

/-! ## What rules yield -/

variable {α β : Type}

/-- What `x` finds satisfies `P`, and it leaves no more tokens than there were. -/
def Rule.Yields (x : Rule α) (P : α → Prop) : Prop :=
  ∀ ts a rest, x ts = .ok (a, rest) → rest.length ≤ ts.length ∧ P a

/-- What a turn finds satisfies `P`. -/
def Turn.Each (P : α → Prop) : Turn α → Prop
  | .stop => True
  | .last a => P a
  | .more a => P a

namespace Rule.Yields

open Rule

variable {x : Rule α} {P : α → Prop} {Q : β → Prop}

theorem pure {a : α} (h : P a) : Yields (Pure.pure a) P := by
  intro ts b rest hr
  obtain ⟨rfl, rfl⟩ := run_pure.1 hr
  exact ⟨Nat.le_refl _, h⟩

theorem bind {f : α → Rule β} (hx : x.Yields P) (hf : ∀ a, P a → (f a).Yields Q) :
    (x >>= f).Yields Q := by
  intro ts b rest h
  obtain ⟨a, mid, ha, hb⟩ := run_bind.1 h
  obtain ⟨hm, hp⟩ := hx ts a mid ha
  obtain ⟨hr, hq⟩ := hf a hp mid b rest hb
  exact ⟨Nat.le_trans hr hm, hq⟩

theorem mono {P' : α → Prop} (hx : x.Yields P) (hp : ∀ a, P a → P' a) : x.Yields P' := by
  intro ts a rest h
  obtain ⟨hr, ha⟩ := hx ts a rest h
  exact ⟨hr, hp a ha⟩

theorem discard (hx : x.Yields P) : (Functor.discard x).Yields fun _ => True :=
  hx.bind fun _ _ => .pure trivial

theorem ite {c : Prop} [Decidable c] {y : Rule α} (hx : x.Yields P) (hy : y.Yields P) :
    (if c then x else y).Yields P := by
  split
  · exact hx
  · exact hy

/-- A step that may be left out. -/
theorem opt {c : Prop} [Decidable c] {y : Rule β} (hx : x.Yields P) (hy : y.Yields Q) :
    (if c then x >>= fun _ => y else y).Yields Q :=
  ite (hx.bind fun _ _ => hy) hy

theorem refuse {what : Expectation} {note : String} : (Rule.refuse what note).Yields P :=
  fun _ _ _ h => (run_refuse.1 h).elim

theorem throw {fault : GrammarFault} : (MonadExcept.throw fault : Rule α).Yields P :=
  fun _ _ _ h => (run_throw.1 h).elim

/-! ## Steps -/

theorem get : (MonadState.get : Rule (List Token)).Yields fun _ => True := by
  intro ts s rest h
  obtain ⟨rfl, rfl⟩ := run_get.1 h
  exact ⟨Nat.le_refl _, trivial⟩

theorem kindAt {k : Nat} : (Rule.kindAt k).Yields fun _ => True := by
  intro ts s rest h
  obtain ⟨-, rfl⟩ := run_kindAt.1 h
  exact ⟨Nat.le_refl _, trivial⟩

theorem ahead {test : List Token → Bool} : (Rule.ahead test).Yields fun _ => True := by
  intro ts s rest h
  obtain ⟨-, rfl⟩ := run_ahead.1 h
  exact ⟨Nat.le_refl _, trivial⟩

theorem nextIs {p : Kind → Bool} : (Rule.nextIs p).Yields fun _ => True := by
  intro ts s rest h
  obtain ⟨-, rfl⟩ := run_nextIs.1 h
  exact ⟨Nat.le_refl _, trivial⟩

theorem isAt {kind : Kind} : (Rule.isAt kind).Yields fun _ => True := nextIs

theorem nextText : Rule.nextText.Yields fun _ => True := by
  intro ts s rest h
  obtain ⟨-, rfl⟩ := run_nextText.1 h
  exact ⟨Nat.le_refl _, trivial⟩

theorem advance : Rule.advance.Yields fun _ => True := by
  intro ts s rest h
  obtain ⟨-, rfl⟩ := run_advance.1 h
  rw [List.length_tail]
  exact ⟨Nat.sub_le _ _, trivial⟩

theorem expect {kind : Kind} {note : String} : (Rule.expect kind note).Yields fun _ => True := by
  intro ts s rest h
  obtain ⟨rfl, -⟩ := run_expect.1 h
  exact ⟨Nat.le_succ _, trivial⟩

theorem accept {kind : Kind} : (Rule.accept kind).Yields fun _ => True := by
  refine .bind isAt fun _ _ => .ite ?_ (.pure trivial)
  exact .bind (.discard advance) fun _ _ => .pure trivial

theorem dropping {dropped : List Token → Except GrammarFault (List Token)}
    (h : ∀ ts rest, dropped ts = .ok rest → rest.length ≤ ts.length) :
    (Rule.dropping dropped).Yields fun _ => True :=
  fun ts _ rest hr => ⟨h ts rest (run_dropping.1 hr), trivial⟩

theorem withText (hx : x.Yields P) : (Rule.withText x).Yields fun r => P r.1 :=
  .bind get fun _ _ => .bind hx fun _ ha => .bind get fun _ _ => .pure ha

/-! ## Repetition -/

theorem many {turn : Rule (Turn α)} (ht : turn.Yields (Turn.Each P)) :
    (Rule.many turn).Yields fun as => ∀ a ∈ as, P a := by
  intro ts as rest h
  refine many_induction (fun ts as rest => rest.length ≤ ts.length ∧ ∀ a ∈ as, P a)
    ?stop ?last ?more h
  case stop => exact fun ts rest h => ⟨(ht _ _ _ h).1, by simp⟩
  case last =>
    intro ts a rest h
    obtain ⟨hr, ha⟩ := ht _ _ _ h
    exact ⟨hr, List.forall_mem_singleton.2 ha⟩
  case more =>
    intro ts a mid as rest h hlt _ ih
    obtain ⟨-, ha⟩ := ht _ _ _ h
    exact ⟨Nat.le_trans ih.1 (Nat.le_of_lt hlt), List.forall_mem_cons.2 ⟨ha, ih.2⟩⟩

theorem commaList {closer : Kind} (hx : x.Yields P) :
    (Rule.commaList closer x).Yields fun as => ∀ a ∈ as, P a := by
  refine many (.bind isAt fun _ _ => .ite (.pure trivial) ?_)
  refine .bind hx fun a ha => .bind accept fun _ _ => ?_
  exact .ite (.pure ha) (.pure ha)

theorem strictCommaList {closer : Kind} {fault : Expectation} (hx : x.Yields P) :
    (Rule.strictCommaList closer fault x).Yields fun as => ∀ a ∈ as, P a := by
  refine many (.bind isAt fun _ _ => .ite (.pure trivial) ?_)
  refine .bind hx fun a ha => .bind accept fun _ _ => .ite (.pure ha) ?_
  exact .bind isAt fun _ _ => .ite (.pure ha) refuse

theorem moreElements {closer : Kind} (hx : x.Yields P) :
    (Grammar.moreElements closer x).Yields fun as => ∀ a ∈ as, P a := by
  refine many (.bind accept fun _ _ => .ite ?_ (.pure trivial))
  refine .bind isAt fun _ _ => .ite (.pure trivial) ?_
  exact .bind hx fun a ha => .pure ha

theorem parenOrTuple {P' : α → Prop} {paren : α → α} {tuple : List α → α} (hx : x.Yields P)
    (hp : ∀ a, P a → P' (paren a)) (ht : ∀ as, (∀ a ∈ as, P a) → P' (tuple as)) :
    (Grammar.parenOrTuple x paren tuple).Yields P' := by
  refine .bind (.discard expect) fun _ _ => .bind accept fun _ _ => .ite ?_ ?_
  · exact .pure (ht [] (by simp))
  refine .bind hx fun a ha => .bind accept fun _ _ => .ite (.pure (hp a ha)) ?_
  refine .bind (moreElements hx) fun as has => .bind (.discard expect) fun _ _ => .pure ?_
  exact ht _ (by simpa using ⟨ha, has⟩)

end Rule.Yields

end Ferrotype
