import Ferrotype.Grammar.Basic
import Ferrotype.Proofs.Grammar.Climb
import Ferrotype.Proofs.Grammar.Types
import Ferrotype.Proofs.Halting.Steps

/-!
# Types and expressions come to an end

Each rule halts if the rules for its parts do so on shorter lists, and most of them read a token.
A part is read behind the first token of the whole, so the list for it is shorter.
-/

namespace Ferrotype

/-- The rules for the parts halt on lists of fewer than `n` tokens, and each reads a token. -/
structure Rules.Halts (R : Rules) (n : Nat) : Prop where
  type (allowPlus : Bool) (ts : List Token) (h : ts.length < n) :
    (R.type allowPlus).Halts (fun _ => true) ts
  bounds (ts : List Token) (h : ts.length < n) : R.bounds.Halts (fun _ => true) ts
  unary (ts : List Token) (h : ts.length < n) : R.unary.Halts (fun _ => true) ts
  binary (least : Nat) (ts : List Token) (h : ts.length < n) :
    (R.binary least).Halts (fun _ => true) ts

namespace Grammar

open Rule

variable {R : Rules} {n : Nat} {ts : List Token}

/-! ## Paths -/

theorem pathWord_halts {fault : Expectation} : (pathWord fault).Halts (fun _ => true) ts := by
  refine .nextIs (.ite (fun h => .nextText fun _ => ?_) fun _ => .refuse)
  exact .read (.discard (.advance_of_any h)) fun _ _ _ => .pure rfl

theorem simplePath_halts : simplePath.Halts (fun _ => true) ts := by
  refine .bind .accept fun leading us _ => ?_
  refine .read (.many_read fun us _ => ?_) fun words _ _ => .pure rfl
  refine .read pathWord_halts fun word us _ => .ahead (.ite (fun _ => ?_) fun _ => .pure rfl)
  exact .bind (.discard .advance) fun _ _ _ => .pure rfl

theorem macroCall_halts : macroCall.Halts (fun _ => true) ts := by
  refine .read simplePath_halts fun name us _ => .bind (.discard .expect) fun _ us _ => ?_
  exact .nextIs (.ite (fun _ => .bind .skipTree fun _ _ _ => .pure rfl) fun _ => .refuse)

/-! ## Generic arguments -/

/-- A generic argument may be a type or an expression from its first token on. -/
theorem genericArg_halts (hR : R.Halts n) (h : ts.length < n) :
    (genericArg R).Halts (fun _ => true) ts := by
  refine .kindAt (.kindAt (.ite (fun hk => ?lifetime) fun _ => ?_))
  case lifetime =>
    exact .nextText fun _ => .read (.discard (.advance_of_kind hk)) fun _ _ _ => .pure rfl
  refine .ite (fun _ => .read .skipTree fun _ _ _ => .pure rfl) fun _ => ?_
  refine .ite (fun _ => .read (hR.unary ts h) fun _ _ _ => .pure rfl) fun _ => ?_
  refine .ite (fun hk => .nextText fun _ => ?binding) fun _ => ?_
  case binding =>
    refine .read (.discard (.advance_of_kind hk.1)) fun _ us hu => ?_
    refine .bind (.discard .advance) fun _ vs hv => ?_
    exact .bind (hR.type true vs (by omega)) fun _ _ _ => .pure rfl
  refine .ite (fun hk => .nextText fun _ => ?constraint) fun _ => ?_
  case constraint =>
    refine .read (.discard (.advance_of_kind hk.1)) fun _ us hu => ?_
    refine .bind (.discard .advance) fun _ vs hv => ?_
    exact .bind (.discard (hR.bounds vs (by omega))) fun _ _ _ => .pure rfl
  exact .read (hR.type true ts h) fun _ _ _ => .pure rfl

theorem genericArgs_halts (hR : R.Halts n) (h : ts.length ≤ n) :
    (genericArgs R).Halts (fun _ => true) ts := by
  refine .read (.discard .expect) fun _ us hu => ?_
  refine .bind (.strictCommaList fun vs hv => genericArg_halts hR (by omega)) fun _ _ _ => ?_
  exact .bind (.discard .expect) fun _ _ _ => .pure rfl

theorem arrowType_halts (hR : R.Halts n) (h : ts.length ≤ n) :
    (arrowType R).Halts (fun _ => false) ts := by
  refine .acceptIte (fun us hu => ?_) (.pure rfl)
  exact .bind (hR.type false us (by omega)) fun _ _ _ => .pure rfl

theorem segment_halts (hR : R.Halts n) (h : ts.length ≤ n) :
    (segment R).Halts (fun _ => true) ts := by
  refine .read pathWord_halts fun name us hu => ?_
  refine .ahead (.opt (fun _ => .discard .advance) fun vs hv => ?_)
  refine .isAt (.ite (fun _ => ?angle) fun _ => .acceptIte (fun xs hx => ?paren) (.pure rfl))
  case angle => exact .bind (genericArgs_halts hR (by omega)) fun _ _ _ => .pure rfl
  refine .bind (.commaList fun ys hy => hR.type true ys (by omega)) fun inputs ys hy => ?_
  refine .bind (.discard .expect) fun _ zs hz => ?_
  exact .bind (arrowType_halts hR (by omega)) fun _ _ _ => .pure rfl

theorem segments_halts (hR : R.Halts n) (h : ts.length ≤ n) :
    (segments R).Halts (fun _ => true) ts := by
  refine .many_read fun us hu => .read (segment_halts hR (by omega)) fun s vs _ => ?_
  refine .ahead (.ite (fun _ => ?_) fun _ => .pure rfl)
  exact .bind (.discard .advance) fun _ _ _ => .pure rfl

theorem typePath_halts (hR : R.Halts n) (h : ts.length ≤ n) :
    (typePath R).Halts (fun _ => true) ts := by
  refine .bind .accept fun leading us hu => ?_
  exact .read (segments_halts hR (by omega)) fun _ _ _ => .pure rfl

theorem qualifiedPath_halts (hR : R.Halts n) (h : ts.length ≤ n) :
    (qualifiedPath R).Halts (fun _ => true) ts := by
  refine .read (.discard .expect) fun _ us hu => ?_
  refine .bind (hR.type true us (by omega)) fun qualifier vs hv => ?_
  refine .join (fun hj => .acceptIte (fun xs hx => ?_) (.pureThen hj)) fun ofTrait xs hx => ?_
  · refine .bind (.discard .accept) fun _ ys hy => ?_
    exact .bind (segments_halts hR (by omega)) fun ofTrait zs hz => (hj ofTrait zs (by omega)).any
  · refine .bind (.discard .expect) fun _ ys hy => .bind (.discard .expect) fun _ zs hz => ?_
    refine .bind (.discard .accept) fun _ us hu => ?_
    exact .bind (segments_halts hR (by omega)) fun _ _ _ => .pure rfl

/-! ## Expressions -/

theorem turbofishArgs_halts (hR : R.Halts n) (h : ts.length ≤ n) :
    (Functor.discard advance >>= fun _ => Functor.discard (genericArgs R)).Halts (fun _ => true)
      ts :=
  .bind (.discard .advance) fun _ _ hu => .discard (genericArgs_halts hR (by omega))

theorem pathExpr_halts (hR : R.Halts n) (h : ts.length ≤ n) :
    (pathExpr R).Halts (fun _ => true) ts := by
  refine .bind .accept fun leading us hu => ?_
  refine .read (.many_read fun vs hv => ?_) fun _ _ _ => .pure rfl
  refine .read pathWord_halts fun word xs hx => ?_
  refine .ahead (.opt₂ (fun _ => turbofishArgs_halts hR (by omega)) fun xs _ => ?_)
  refine .ahead (.ite (fun _ => ?_) fun _ => .pure rfl)
  exact .bind (.discard .advance) fun _ _ _ => .pure rfl

theorem callArgs_halts (hR : R.Halts n) (h : ts.length ≤ n) :
    (callArgs R).Halts (fun _ => true) ts := by
  refine .read (.discard .expect) fun _ us hu => ?_
  refine .bind (.commaList fun vs hv => hR.binary 1 vs (by omega)) fun _ _ _ => ?_
  exact .bind (.discard .expect) fun _ _ _ => .pure rfl

theorem arrayElements_halts (hR : R.Halts n) (h : ts.length ≤ n) :
    (arrayElements R).Halts (fun _ => true) ts := by
  refine .read (.discard .expect) fun _ us hu => .acceptIte (fun _ _ => .pure rfl) ?_
  refine .bind (hR.binary 1 us (by omega)) fun first vs hv => ?_
  refine .join (fun hj => .acceptIte (fun xs hx => ?_)
    (.bind (.moreElements fun ys hy => hR.binary 1 ys (by omega)) hj)) fun more xs _ => ?_
  · refine .bind (hR.binary 1 xs (by omega)) fun count ys hy => ?_
    exact .pureThen fun more zs hz => hj more zs (by omega)
  · exact .bind (.discard .expect) fun _ _ _ => .pure rfl

theorem stringLiteral_halts : stringLiteral.Halts (fun _ => true) ts := by
  refine .read .expect fun t us _ => ?_
  cases cookString t.text with
  | ok => exact .pure rfl
  | error => exact .throw (by simp)

theorem blockExpr_halts : blockExpr.Halts (fun _ => true) ts := by
  refine .isAt (.ite (fun _ => ?_) fun _ => ?_)
  · exact .read .skipTree fun _ _ _ => .pure rfl
  · exact .bind (.discard .advance) fun _ us _ => .read .skipTree fun _ _ _ => .pure rfl

theorem primary_halts (hR : R.Halts n) (h : ts.length ≤ n) :
    (primary R).Halts (fun _ => true) ts := by
  refine .isAt (.ite (fun _ => stringLiteral_halts) fun _ => .kindAt ?_)
  cases hk : (ts[0]?.map Token.kind).bind literalKind? with
  | some kind =>
    obtain ⟨_, hk, -⟩ := Option.bind_eq_some_iff.1 hk
    exact .nextText fun _ => .read (.discard (.advance_of_kind hk)) fun _ _ _ => .pure rfl
  | none =>
  refine .isAt (.ite (fun _ => .parenOrTuple fun us hu => hR.binary 1 us (by omega)) fun _ => ?_)
  refine .isAt (.ite (fun _ => ?array) fun _ => ?_)
  case array => exact .read (arrayElements_halts hR h) fun _ _ _ => .pure rfl
  refine .ahead (.ite (fun _ => blockExpr_halts) fun _ => .ahead (.ite (fun _ => ?call) fun _ => ?_))
  case call => exact .read macroCall_halts fun _ _ _ => .pure rfl
  refine .nextIs (.ite (fun _ => pathExpr_halts hR h) fun _ => .isAt (.ite (fun _ => ?_) fun _ => ?_))
  · exact .read (qualifiedPath_halts hR h) fun _ _ _ => .pure rfl
  · exact .refuse

theorem memberName_halts : memberName.Halts (fun _ => true) ts := by
  refine .nextIs (.ite (fun h => .nextText fun _ => ?_) fun _ => .refuse)
  exact .read (.discard (.advance_of_any h)) fun _ _ _ => .pure rfl

theorem suffixTurn_halts (hR : R.Halts n) (h : ts.length ≤ n) :
    (suffixTurn R).Halts Turn.reads ts := by
  refine .acceptIte (fun us hu => ?member) (.isAt (.ite (fun _ => ?call) fun _ => ?_))
  case member =>
    refine .bind memberName_halts fun name vs hv => .ahead ?_
    exact .opt₂ (fun _ => turbofishArgs_halts hR (by omega)) fun _ _ => .pure rfl
  case call => exact .read (callArgs_halts hR h) fun _ _ _ => .pure rfl
  refine .acceptIte (fun us hu => ?index) (.acceptIte (fun _ _ => .pure rfl) (.pure rfl))
  refine .bind (hR.binary 1 us (by omega)) fun i vs _ => ?_
  exact .bind (.discard .expect) fun _ _ _ => .pure rfl

theorem suffixed_halts (hR : R.Halts n) (h : ts.length ≤ n) :
    (suffixed R).Halts (fun _ => true) ts := by
  refine .read (primary_halts hR h) fun e us hu => ?_
  exact .bind (.many fun vs hv => suffixTurn_halts hR (by omega)) fun _ _ _ => .pure rfl

theorem unaryTurn_halts : unaryTurn.Halts Turn.reads ts := by
  refine .acceptIte (fun _ _ => .pure rfl) (.acceptIte (fun _ _ => .pure rfl) ?_)
  refine .acceptIte (fun _ _ => .pure rfl) (.acceptIte (fun us _ => ?_) ?_)
  · exact .bind .accept fun _ _ _ => .pure rfl
  refine .acceptIte (fun us _ => ?_) (.pure rfl)
  exact .bind .accept fun _ _ _ => .pure rfl

theorem unary_halts (hR : R.Halts n) (h : ts.length ≤ n) : (unary R).Halts (fun _ => true) ts := by
  refine .bind (.many fun us _ => unaryTurn_halts) fun ops us hu => ?_
  exact .read (suffixed_halts hR (by omega)) fun _ _ _ => .pure rfl

theorem cast_halts (hR : R.Halts n) (h : ts.length ≤ n) : (cast R).Halts (fun _ => true) ts := by
  refine .read (unary_halts hR h) fun e us hu => ?_
  refine .bind (.many fun vs hv => .acceptIte (fun xs hx => ?_) (.pure rfl)) fun _ _ _ => .pure rfl
  exact .bind (hR.type false xs (by omega)) fun _ _ _ => .pure rfl

/-- An operator is one token or two. -/
theorem operator_halts {op : BinaryOp} {width : Nat} (h : operatorAt? ts = some (op, width)) :
    (modify (List.drop width) : Rule PUnit).Halts (fun _ => true) ts := by
  refine ⟨Halts.drop.1, fun u rest hr => ⟨(Halts.drop.2 u rest hr).1, fun _ => ?_⟩⟩
  obtain rfl := run_modify.1 hr
  exact operatorAt?_length h

theorem binary_halts (hR : R.Halts n) (h : ts.length ≤ n) (least : Nat) :
    (binary R least).Halts (fun _ => true) ts := by
  refine .read (cast_halts hR h) fun left us hu => ?_
  refine .bind (.many fun vs hv => .get ?_) fun _ _ _ => .pure rfl
  split
  · next op width ho =>
    refine .ite (fun _ => .read (operator_halts ho) fun _ xs hx => ?_) fun _ => .pure rfl
    exact .bind (hR.binary _ xs (by omega)) fun _ _ _ => .pure rfl
  · exact .pure rfl

/-! ## Attributes -/

theorem attributeMeta_halts (hR : R.Halts n) (h : ts.length ≤ n) (style : DocStyle) (line : Nat) :
    (attributeMeta R style line).Halts (fun _ => true) ts := by
  refine .read simplePath_halts fun path us hu => .isAt (.ite (fun hk => ?value) fun _ => ?_)
  case value =>
    refine .bind (.withText (b := true) ?_) fun _ _ _ => .pure rfl
    exact .read (.discard (.advance_of_any hk)) fun _ vs hv => .any (hR.binary 1 vs (by omega))
  refine .nextIs (.ite (fun _ => ?_) fun _ => .pure rfl)
  exact .bind (.withText .skipTree) fun _ _ _ => .pure rfl

theorem attributeBody_halts (hR : R.Halts n) (h : ts.length ≤ n) (style : DocStyle) :
    (attributeBody R style).Halts (fun _ => true) ts := by
  refine .read .expect fun t us hu => .ahead (.ite (fun _ => ?wrapped) fun _ => ?_)
  case wrapped =>
    refine .bind (.discard .advance) fun _ vs hv => .bind (.discard .advance) fun _ xs hx => ?_
    refine .bind (attributeMeta_halts hR (by omega) style _) fun a _ _ => ?_
    refine .bind (.discard .expect) fun _ _ _ => ?_
    exact .bind (.discard .expect) fun _ _ _ => .pure rfl
  refine .bind (attributeMeta_halts hR (by omega) style _) fun a _ _ => ?_
  exact .bind (.discard .expect) fun _ _ _ => .pure rfl

theorem attributeTurn_halts (hR : R.Halts n) (h : ts.length ≤ n) (style : DocStyle)
    (marks : List Kind) : (attributeTurn R style marks).Halts Turn.reads ts := by
  refine .get ?_
  cases ts with
  | nil => exact .pure rfl
  | cons t us =>
    refine .ite (fun _ => ?doc) fun _ => .ite (fun _ => ?_) fun _ => .pure rfl
    case doc => exact .behind rfl (.pure rfl)
    refine .bind .drop fun _ vs hv => ?_
    exact .read (attributeBody_halts hR (by omega) style) fun _ _ _ => .pure rfl

theorem attributes_halts (hR : R.Halts n) (h : ts.length ≤ n) (style : DocStyle)
    (marks : List Kind) : (attributes R style marks).Halts (fun _ => false) ts :=
  .many fun _ hu => attributeTurn_halts hR (by omega) style marks

/-! ## Generic parameters and bounds -/

theorem parameterName_halts : parameterName.Halts (fun _ => true) ts := by
  refine .isAt (.ite (fun hk => .nextText fun _ => ?_) fun _ => ?_)
  · exact .read (.discard (.advance_of_any hk)) fun _ _ _ => .pure rfl
  · exact .bind (.discard .accept) fun _ _ _ => .expectName

theorem generics_halts (hR : R.Halts n) (h : ts.length ≤ n) :
    (generics R).Halts (fun _ => false) ts := by
  refine .acceptIte (fun us hu => ?_) (.pure rfl)
  refine .bind (.strictCommaList (k := fun _ => true) fun vs hv => ?_) fun names _ _ => ?_
  · refine .bind (.discard (attributes_halts hR (by omega) _ _)) fun _ _ _ => ?_
    refine .read parameterName_halts fun name _ _ => ?_
    exact .bind .parameterRest fun _ _ _ => .pure rfl
  · exact .bind (.discard .expect) fun _ _ _ => .pure rfl

theorem bound_halts (hR : R.Halts n) (h : ts.length ≤ n) : (bound R).Halts (fun _ => true) ts := by
  refine .acceptIte (fun _ _ => .pure rfl) (.acceptIte (fun us hu => ?paren) ?_)
  case paren =>
    exact .bind (.discard (hR.bounds us (by omega))) fun _ _ _ => .any (.discard .expect)
  refine .nextIs (.opt₂ (fun _ => .bind (.discard .advance) fun _ _ _ => .discard .accept)
    fun us hu => ?_)
  refine .acceptIte (fun vs hv => ?_) (.discard (typePath_halts hR (by omega)))
  refine .bind (.discard (generics_halts hR (by omega))) fun _ xs hx => ?_
  exact .any (.discard (typePath_halts hR (by omega)))

theorem bounds_halts (hR : R.Halts n) (h : ts.length ≤ n) (allowPlus : Bool) :
    (bounds R allowPlus).Halts (fun _ => true) ts := by
  refine .many_read fun us hu => .read (.withText (bound_halts hR (by omega))) fun r vs hv => ?_
  refine .ite (fun _ => .acceptIte (fun _ _ => ?_) (.pure rfl)) fun _ => .pure rfl
  exact .nextIs (.ite (fun _ => .pure rfl) fun _ => .pure rfl)

/-! ## Types -/

theorem fnQualifiers_halts : fnQualifiers.Halts (fun _ => false) ts := by
  refine .many fun us _ => .kindAt (.nextText fun word => .ite (fun hk => ?_) fun _ => ?_)
  · have hne : us ≠ [] := by
      rintro rfl
      rcases hk with hk | hk | hk <;> cases hk
    exact .read (.discard (.advance_of_ne hne)) fun _ _ _ => .pure rfl
  refine .ite (fun hk => .read (.discard (.advance_of_kind hk)) fun _ _ _ => ?_) fun _ => .pure rfl
  exact .bind (.discard .accept) fun _ _ _ => .pure rfl

theorem bareParam_halts (hR : R.Halts n) (h : ts.length < n) :
    (bareParam R).Halts (fun _ => true) ts := by
  refine .bind (.discard (attributes_halts hR (by omega) _ _)) fun _ us hu => ?_
  refine .acceptIte (fun _ _ => .pure rfl) (.ahead (.opt₂ (l := fun _ => false) (fun _ => ?_) fun vs hv => ?_))
  · exact .bind (.discard .advance) fun _ _ _ => .discard .advance
  · exact .read (hR.type true vs (by omega)) fun _ _ _ => .pure rfl

theorem bareFn_halts (hR : R.Halts n) (h : ts.length ≤ n) :
    (bareFn R).Halts (fun _ => true) ts := by
  refine .bind (.discard fnQualifiers_halts) fun _ us hu => .read (.discard .expect) fun _ vs hv => ?_
  refine .bind (.discard .expect) fun _ xs hx => ?_
  refine .bind (.commaList fun ys hy => bareParam_halts hR (by omega)) fun inputs ys hy => ?_
  refine .bind (.discard .expect) fun _ zs hz => ?_
  exact .bind (arrowType_halts hR (by omega)) fun _ _ _ => .pure rfl

theorem referenceRest_halts (hR : R.Halts n) (h : ts.length < n) :
    (referenceRest R).Halts (fun _ => true) ts := by
  refine .isAt (.join (fun hj => .ite (fun _ => .nextText fun _ => ?_) fun _ => .pureThen hj)
    fun lifetime us hu => ?_)
  · refine .bind (.discard .advance) fun _ us hu => ?_
    exact .pureThen fun lifetime vs hv => hj lifetime vs (by omega)
  · refine .bind .accept fun mutable vs hv => ?_
    exact .read (hR.type false vs (by omega)) fun _ _ _ => .pure rfl

theorem pointerRest_halts (hR : R.Halts n) (h : ts.length < n) :
    (pointerRest R).Halts (fun _ => true) ts := by
  refine .acceptIte (fun us hu => ?_) (.acceptIte (fun us hu => ?_) .refuse)
  all_goals exact .bind (hR.type false us (by omega)) fun _ _ _ => .pure rfl

theorem sliceOrArray_halts (hR : R.Halts n) (h : ts.length ≤ n) :
    (sliceOrArray R).Halts (fun _ => true) ts := by
  refine .read (.discard .expect) fun _ us hu => ?_
  refine .bind (hR.type true us (by omega)) fun element vs hv => .acceptIte (fun xs hx => ?_) ?_
  · refine .bind (hR.binary 1 xs (by omega)) fun length _ _ => ?_
    exact .bind (.discard .expect) fun _ _ _ => .pure rfl
  · exact .bind (.discard .expect) fun _ _ _ => .pure rfl

theorem pathOrBounds_halts (hR : R.Halts n) (h : ts.length ≤ n) (allowPlus : Bool) :
    (pathOrBounds R allowPlus).Halts (fun _ => true) ts := by
  refine .read (.withText (typePath_halts hR h)) fun r us hu => .ite (fun _ => ?_) fun _ => .pure rfl
  refine .acceptIte (fun vs hv => ?_) (.pure rfl)
  exact .bind (bounds_halts hR (by omega) true) fun _ _ _ => .pure rfl

theorem type_halts (hR : R.Halts n) (h : ts.length ≤ n) (allowPlus : Bool) :
    (type R allowPlus).Halts (fun _ => true) ts := by
  refine .isAt (.ite (fun _ => .parenOrTuple fun us hu => hR.type true us (by omega)) fun _ => ?_)
  refine .isAt (.ite (fun _ => sliceOrArray_halts hR h) fun _ => ?_)
  refine .acceptIte (fun us hu => .any (referenceRest_halts hR (by omega))) ?_
  refine .acceptIte (fun us hu => ?andAnd) ?_
  case andAnd => exact .bind (referenceRest_halts hR (by omega)) fun _ _ _ => .pure rfl
  refine .acceptIte (fun us hu => .any (pointerRest_halts hR (by omega))) ?_
  refine .acceptIte (fun _ _ => .pure rfl) (.acceptIte (fun _ _ => .pure rfl) ?_)
  refine .acceptIte (fun us hu => ?dyn) (.acceptIte (fun us hu => ?impl) ?_)
  case dyn => exact .bind (bounds_halts hR (by omega) _) fun _ _ _ => .pure rfl
  case impl => exact .bind (bounds_halts hR (by omega) _) fun _ _ _ => .pure rfl
  refine .acceptIte (fun us hu => ?higher) ?_
  case higher =>
    refine .bind (.discard (generics_halts hR (by omega))) fun _ vs hv => ?_
    exact .any (hR.type _ vs (by omega))
  refine .nextIs (.ite (fun _ => bareFn_halts hR h) fun _ => ?_)
  refine .isAt (.ite (fun _ => ?qualified) fun _ => .ahead (.ite (fun _ => ?call) fun _ => ?_))
  case qualified => exact .read (qualifiedPath_halts hR h) fun _ _ _ => .pure rfl
  case call => exact .read macroCall_halts fun _ _ _ => .pure rfl
  exact .nextIs (.ite (fun _ => pathOrBounds_halts hR h _) fun _ => .refuse)

end Grammar

/-! ## The layers of rules -/

/-- As many layers as there are tokens are enough. -/
theorem rules_halts (n : Nat) : (rules n).Halts n := by
  induction n with
  | zero =>
    constructor
    all_goals
      intros
      contradiction
  | succ n ih =>
    constructor
    · exact fun allowPlus ts h => Grammar.type_halts ih (by omega) allowPlus
    · exact fun ts h => Grammar.bounds_halts ih (by omega) true
    · exact fun ts h => Grammar.unary_halts ih (by omega)
    · exact fun least ts h => Grammar.binary_halts ih (by omega) least

/-- A rule of the whole grammar halts if it does so in as many layers as there are tokens. -/
theorem Rule.whole_halts {α : Type} {rule : Rules → Rule α} {reads : α → Bool} {ts : List Token}
    (h : (rules ts.length).Halts ts.length → (rule (rules ts.length)).Halts reads ts) :
    (Rule.whole rule).Halts reads ts := h (rules_halts ts.length)

end Ferrotype
