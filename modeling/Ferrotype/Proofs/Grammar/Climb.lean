import Ferrotype.Proofs.Grammar.Nesting
import Ferrotype.Proofs.Grammar.Shape

/-!
# Rules yield shaped trees

An operand is read up to an operator that binds looser than it must, so no operator takes an
operand that binds looser than itself. Every other rule only puts shaped trees together.
-/

namespace Ferrotype

/-- The operator at the start of a list, if there is one, binds looser than `least`. -/
def Grammar.Looser (least : Nat) (ts : List Token) : Prop :=
  ∀ op width, operatorAt? ts = some (op, width) → op.precedence < least

/-- What the rules of a layer yield, and where an expression ends. -/
structure Rules.Shaped (R : Rules) : Prop where
  type : ∀ allowPlus, (R.type allowPlus).Yields Ty.Shaped
  bounds : R.bounds.Yields fun _ => True
  unary : R.unary.Yields fun e => e.Shaped ∧ 11 ≤ e.rank
  binary : ∀ least, least ≤ 10 → (R.binary least).Yields fun e => e.Shaped ∧ least ≤ e.rank
  stops : ∀ least ts e rest, R.binary least ts = .ok (e, rest) → Grammar.Looser least rest

namespace Grammar

open Rule

variable {R : Rules} {ts rest : List Token}

/-! ## Rules without expressions -/

theorem skipTree_yields : skipTree.Yields fun _ => True :=
  .dropping fun _ _ h => Nat.le_of_lt (dropTree_length h)

theorem dropParameterRest_yields : (dropping (dropParameterRest 0)).Yields fun _ => True :=
  .dropping fun ts rest h => by
    have hr : Reads [] [] ts rest := dropParameterRest_reads h
    exact hr.suffix.length_le

theorem pathWord_yields {fault : Expectation} : (pathWord fault).Yields fun _ => True := by
  refine .bind .nextIs fun _ _ => .ite ?_ .refuse
  exact .bind .nextText fun _ _ => .bind (.discard .advance) fun _ _ => .pure trivial

theorem simplePath_yields : simplePath.Yields fun _ => True := by
  refine .bind .accept fun _ _ => .bind (.many (P := fun _ => True) ?_) fun _ _ => .pure trivial
  refine .bind pathWord_yields fun _ _ => .bind .ahead fun _ _ => .ite ?_ (.pure trivial)
  exact .bind (.discard .advance) fun _ _ => .pure trivial

theorem macroCall_yields : macroCall.Yields fun _ => True := by
  refine .bind simplePath_yields fun _ _ => .bind (.discard .expect) fun _ _ => ?_
  refine .bind .nextIs fun _ _ => .ite ?_ .refuse
  exact .bind skipTree_yields fun _ _ => .pure trivial

/-! ## Paths and generic arguments -/

theorem genericArg_yields (hR : R.Shaped) : (genericArg R).Yields GenericArg.Shaped := by
  refine .bind .kindAt fun here _ => .bind .kindAt fun next _ => ?_
  refine .ite ?_ (.ite ?_ (.ite ?_ (.ite ?_ (.ite ?_ ?_))))
  · exact .bind .nextText fun _ _ => .bind (.discard .advance) fun _ _ => .pure .lifetime
  · exact .bind skipTree_yields fun _ _ => .pure (.const .block)
  · exact .bind hR.unary fun _ h => .pure (.const h.1)
  · refine .bind .nextText fun _ _ => .bind (.discard .advance) fun _ _ => ?_
    refine .bind (.discard .advance) fun _ _ => ?_
    exact .bind (hR.type true) fun _ h => .pure (.binding h)
  · refine .bind .nextText fun _ _ => .bind (.discard .advance) fun _ _ => ?_
    refine .bind (.discard .advance) fun _ _ => ?_
    exact .bind (.discard hR.bounds) fun _ _ => .pure .constraint
  · exact .bind (hR.type true) fun _ h => .pure (.type h)

theorem genericArgs_yields (hR : R.Shaped) :
    (genericArgs R).Yields fun as => ∀ a ∈ as, a.Shaped := by
  refine .bind (.discard .expect) fun _ _ => ?_
  refine .bind (.strictCommaList (genericArg_yields hR)) fun as h => ?_
  exact .bind (.discard .expect) fun _ _ => .pure h

theorem arrowType_yields (hR : R.Shaped) :
    (arrowType R).Yields fun output => ∀ t ∈ output, t.Shaped := by
  refine .bind .accept fun _ _ => .ite ?_ (.pure (by simp))
  exact .bind (hR.type false) fun _ h => .pure (by simpa using h)

theorem segment_yields (hR : R.Shaped) : (segment R).Yields Segment.Shaped := by
  refine .bind pathWord_yields fun name _ => .bind .ahead fun _ _ => ?_
  refine .opt (.discard .advance) ?_
  refine .bind .isAt fun _ _ => .ite ?_ (.bind .accept fun _ _ => .ite ?_ (.pure (.mk .none)))
  · exact .bind (genericArgs_yields hR) fun _ h => .pure (.mk (.angle h))
  · refine .bind (.commaList (hR.type true)) fun inputs hi => ?_
    refine .bind (.discard .expect) fun _ _ => ?_
    exact .bind (arrowType_yields hR) fun output ho => .pure (.mk (.paren hi ho))

theorem segments_yields (hR : R.Shaped) :
    (segments R).Yields fun ss => ∀ s ∈ ss, s.Shaped := by
  refine .many (.bind (segment_yields hR) fun s h => .bind .ahead fun _ _ => .ite ?_ (.pure h))
  exact .bind (.discard .advance) fun _ _ => .pure h

theorem typePath_yields (hR : R.Shaped) : (typePath R).Yields Ty.Shaped := by
  refine .bind .accept fun _ _ => .bind (segments_yields hR) fun ss h => ?_
  exact .pure (.path (by simp) h)

theorem qualifiedPath_yields (hR : R.Shaped) :
    (qualifiedPath R).Yields fun r => r.1.Shaped ∧ ∀ s ∈ r.2, s.Shaped := by
  refine .bind (.discard .expect) fun _ _ => .bind (hR.type true) fun q hq => ?_
  have hj (ofTrait : List Segment) (ht : ∀ s ∈ ofTrait, s.Shaped) : Rule.Yields
      (do
        discard <| expect (.punct .gt) ""
        discard <| expect (.punct .colonColon) ""
        discard <| accept (.punct .colonColon)
        return (q, ofTrait ++ (← segments R)))
      fun r => r.1.Shaped ∧ ∀ s ∈ r.2, s.Shaped := by
    refine .bind (.discard .expect) fun _ _ => .bind (.discard .expect) fun _ _ => ?_
    refine .bind (.discard .accept) fun _ _ => .bind (segments_yields hR) fun ss hs => ?_
    exact .pure ⟨hq, List.forall_mem_append.2 ⟨ht, hs⟩⟩
  refine .bind .accept fun _ _ => .ite ?_ (.bind (.pure (by simp)) hj)
  refine .bind (.discard .accept) fun _ _ => ?_
  exact .bind (segments_yields hR) fun ss hs => hj ss hs

/-! ## Expressions -/

theorem pathExpr_yields (hR : R.Shaped) :
    (pathExpr R).Yields fun e => e.Shaped ∧ 12 ≤ e.rank := by
  refine .bind .accept fun _ _ => .bind (.many (P := fun _ => True) ?_) fun _ _ => ?_
  · refine .bind pathWord_yields fun word _ => .bind .ahead fun generic _ => ?_
    have hj : Rule.Yields
        (do
          if ← ahead pathContinues then
            discard advance
            return .more (word, generic)
          else return .last (word, generic))
        (Turn.Each fun _ => True) := by
      refine .bind .ahead fun _ _ => .ite ?_ (.pure trivial)
      exact .bind (.discard .advance) fun _ _ => .pure trivial
    refine .ite (.bind (.discard .advance) fun _ _ => ?_) hj
    exact .bind (.discard (genericArgs_yields hR)) fun _ _ => hj
  · exact .pure ⟨.path, Nat.le_refl _⟩

/-- An expression of the loosest kind. -/
theorem operand_yields (hR : R.Shaped) : (R.binary 1).Yields Expr.Shaped :=
  (hR.binary 1 (by decide)).mono fun _ h => h.1

theorem callArgs_yields (hR : R.Shaped) :
    (callArgs R).Yields fun as => ∀ a ∈ as, a.Shaped := by
  refine .bind (.discard .expect) fun _ _ => ?_
  refine .bind (.commaList (operand_yields hR)) fun _ h => ?_
  exact .bind (.discard .expect) fun _ _ => .pure h

theorem arrayElements_yields (hR : R.Shaped) :
    (arrayElements R).Yields fun es => ∀ e ∈ es, e.Shaped := by
  refine .bind (.discard .expect) fun _ _ => .bind .accept fun _ _ => .ite (.pure (by simp)) ?_
  refine .bind (operand_yields hR) fun first hf => ?_
  have hj (more : List Expr) (hm : ∀ e ∈ more, e.Shaped) : Rule.Yields
      (do
        discard <| expect (.closer .bracket) ""
        return first :: more)
      fun es => ∀ e ∈ es, e.Shaped :=
    .bind (.discard .expect) fun _ _ => .pure (List.forall_mem_cons.2 ⟨hf, hm⟩)
  refine .bind .accept fun _ _ => .ite ?_ ?_
  · refine .bind (operand_yields hR) fun count hc => ?_
    exact .bind (.pure (List.forall_mem_singleton.2 hc)) hj
  · exact .bind (.moreElements (operand_yields hR)) hj

theorem stringLiteral_yields : stringLiteral.Yields fun e => e.Shaped ∧ 12 ≤ e.rank := by
  refine .bind .expect fun t _ => ?_
  cases cookString t.text with
  | ok value => exact .pure ⟨.literal, Nat.le_refl _⟩
  | error fault => exact .throw

theorem blockExpr_yields : blockExpr.Yields fun e => e.Shaped ∧ 12 ≤ e.rank := by
  refine .bind .isAt fun _ _ => ?_
  have hj : Rule.Yields (do skipTree; return .block) fun e : Expr => e.Shaped ∧ 12 ≤ e.rank :=
    .bind skipTree_yields fun _ _ => .pure ⟨.block, Nat.le_refl _⟩
  exact .ite hj (.bind (.discard .advance) fun _ _ => hj)

/-- What stands before the first suffix is no operation. -/
theorem primary_yields (hR : R.Shaped) :
    (primary R).Yields fun e => e.Shaped ∧ 12 ≤ e.rank := by
  refine .bind .isAt fun _ _ => .ite stringLiteral_yields (.bind .kindAt fun here _ => ?_)
  cases here.bind literalKind? with
  | some kind =>
    refine .bind .nextText fun _ _ => .bind (.discard .advance) fun _ _ => ?_
    exact .pure ⟨.literal, Nat.le_refl _⟩
  | none =>
  refine .bind .isAt fun _ _ => .ite ?paren ?_
  case paren =>
    refine .parenOrTuple (operand_yields hR) (fun e h => ?_) fun es h => ?_
    · exact ⟨.paren h, Nat.le_refl _⟩
    · exact ⟨.tuple h, Nat.le_refl _⟩
  refine .bind .isAt fun _ _ => .ite ?array ?_
  case array =>
    exact .bind (arrayElements_yields hR) fun _ h => .pure ⟨.array h, Nat.le_refl _⟩
  refine .bind .ahead fun _ _ => .ite blockExpr_yields ?_
  refine .bind .ahead fun _ _ => .ite ?call ?_
  case call => exact .bind macroCall_yields fun _ _ => .pure ⟨.macroCall, Nat.le_refl _⟩
  refine .bind .nextIs fun _ _ => .ite (pathExpr_yields hR) ?_
  refine .bind .isAt fun _ _ => .ite ?_ .refuse
  exact .bind (qualifiedPath_yields hR) fun _ _ => .pure ⟨.path, Nat.le_refl _⟩

/-- A suffix may stand behind what binds tighter than any operator, and so may another one. -/
def Suffix.Shaped (s : Suffix) : Prop :=
  ∀ e : Expr, e.Shaped → 12 ≤ e.rank → (s.apply e).Shaped ∧ 12 ≤ (s.apply e).rank

theorem suffixTurn_yields (hR : R.Shaped) : (suffixTurn R).Yields (Turn.Each Suffix.Shaped) := by
  refine .bind .accept fun _ _ => .ite ?member ?_
  case member =>
    have hname : memberName.Yields fun _ => True := by
      refine .bind .nextIs fun _ _ => .ite ?_ .refuse
      exact .bind .nextText fun _ _ => .bind (.discard .advance) fun _ _ => .pure trivial
    refine .bind hname fun name _ => .bind .ahead fun _ _ => ?_
    have hj : Rule.Yields (return .more (.member name) : Rule (Turn Suffix))
        (Turn.Each Suffix.Shaped) := .pure fun e he hr => ⟨.member he hr, Nat.le_refl _⟩
    refine .ite (.bind (.discard .advance) fun _ _ => ?_) hj
    exact .bind (.discard (genericArgs_yields hR)) fun _ _ => hj
  refine .bind .isAt fun _ _ => .ite ?call ?_
  case call =>
    refine .bind (callArgs_yields hR) fun as ha => .pure fun e he hr => ?_
    exact ⟨.call he hr ha, Nat.le_refl _⟩
  refine .bind .accept fun _ _ => .ite ?index ?_
  case index =>
    refine .bind (operand_yields hR) fun i hi => .bind (.discard .expect) fun _ _ => ?_
    exact .pure fun e he hr => ⟨.index he hr hi, Nat.le_refl _⟩
  refine .bind .accept fun _ _ => .ite ?_ (.pure trivial)
  exact .pure fun e he hr => ⟨.question he hr, Nat.le_refl _⟩

theorem suffixed_yields (hR : R.Shaped) :
    (suffixed R).Yields fun e => e.Shaped ∧ 12 ≤ e.rank := by
  refine .bind (primary_yields hR) fun e he => ?_
  refine .bind (.many (suffixTurn_yields hR)) fun ss hs => .pure ?_
  induction ss generalizing e with
  | nil => exact he
  | cons s ss ih =>
    rw [List.forall_mem_cons] at hs
    exact ih _ (hs.1 e he.1 he.2) hs.2

theorem unaryTurn_yields : unaryTurn.Yields fun _ => True := by
  refine .bind .accept fun _ _ => .ite (.pure trivial) ?_
  refine .bind .accept fun _ _ => .ite (.pure trivial) ?_
  refine .bind .accept fun _ _ => .ite (.pure trivial) ?_
  refine .bind .accept fun _ _ => .ite (.bind .accept fun _ _ => .pure trivial) ?_
  exact .bind .accept fun _ _ => .ite (.bind .accept fun _ _ => .pure trivial) (.pure trivial)

theorem foldr_unary {e : Expr} (h : e.Shaped ∧ 11 ≤ e.rank) (ops : List UnaryOp) :
    (ops.foldr .unary e).Shaped ∧ 11 ≤ (ops.foldr .unary e).rank := by
  induction ops with
  | nil => exact h
  | cons op ops ih => exact ⟨.unary ih.1 ih.2, Nat.le_refl _⟩

theorem foldl_cast {e : Expr} {ts : List Ty} (h : e.Shaped ∧ 10 ≤ e.rank)
    (hts : ∀ t ∈ ts, t.Shaped) : (ts.foldl .cast e).Shaped ∧ 10 ≤ (ts.foldl .cast e).rank := by
  induction ts generalizing e with
  | nil => exact h
  | cons t ts ih =>
    rw [List.forall_mem_cons] at hts
    exact ih ⟨.cast h.1 hts.1 h.2, Nat.le_refl _⟩ hts.2

theorem unary_yields (hR : R.Shaped) : (unary R).Yields fun e => e.Shaped ∧ 11 ≤ e.rank := by
  refine .bind (.many (P := fun _ => True) ?_) fun ops _ => .bind (suffixed_yields hR) fun e he => ?_
  · exact unaryTurn_yields.mono fun r _ => by cases r <;> trivial
  refine .pure (foldr_unary ?_ ops)
  exact ⟨he.1, Nat.le_trans (by decide) he.2⟩

theorem cast_yields (hR : R.Shaped) : (cast R).Yields fun e => e.Shaped ∧ 10 ≤ e.rank := by
  refine .bind (unary_yields hR) fun e he => .bind (.many (P := Ty.Shaped) ?_) fun ts hts => .pure ?_
  · refine .bind .accept fun _ _ => .ite ?_ (.pure trivial)
    exact .bind (hR.type false) fun _ h => .pure h
  exact foldl_cast ⟨he.1, Nat.le_trans (by decide) he.2⟩ hts

/-! ## Operators -/

/-- One turn of the operators behind an operand. -/
def binaryTurn (R : Rules) (least : Nat) : Rule (Turn (BinaryOp × Expr)) := do
  match operatorAt? (← get) with
  | some (op, width) =>
    if least ≤ op.precedence then
      modify (List.drop width)
      return .more (op, ← R.binary (op.precedence + 1))
    else return .stop
  | none => return .stop

theorem run_binaryTurn {least : Nat} {r : Turn (BinaryOp × Expr)} :
    binaryTurn R least ts = .ok (r, rest) ↔
      (r = .stop ∧ rest = ts ∧ Looser least ts) ∨
        ∃ op width e, operatorAt? ts = some (op, width) ∧ least ≤ op.precedence ∧
          R.binary (op.precedence + 1) (ts.drop width) = .ok (e, rest) ∧ r = .more (op, e) := by
  change (match operatorAt? ts with
    | some (op, width) =>
      if least ≤ op.precedence then
        (do
          modify (List.drop width)
          return .more (op, ← R.binary (op.precedence + 1)) : Rule (Turn (BinaryOp × Expr)))
      else return .stop
    | none => return .stop) ts = _ ↔ _
  unfold Looser
  cases ho : operatorAt? ts with
  | none =>
    simp only [run_pure]
    simp [eq_comm]
  | some o =>
    obtain ⟨op, width⟩ := o
    simp only [run_ite, run_bind, run_modify, run_pure]
    constructor
    · rintro (⟨hle, _, mid, rfl, e, _, he, rfl, rfl⟩ | ⟨hlt, rfl, rfl⟩)
      · exact .inr ⟨op, width, e, rfl, hle, he, rfl⟩
      · refine .inl ⟨rfl, rfl, ?_⟩
        rintro _ _ ⟨⟩
        omega
    · rintro (⟨rfl, rfl, hlt⟩ | ⟨_, _, e, ⟨⟩, hle, he, rfl⟩)
      · have := hlt op width rfl
        exact .inr ⟨by omega, rfl, rfl⟩
      · exact .inl ⟨hle, ⟨⟩, _, rfl, e, rest, he, rfl, rfl⟩

theorem operatorAt?_length {op : BinaryOp} {width : Nat} (h : operatorAt? ts = some (op, width)) :
    (ts.drop width).length < ts.length := by
  have hts : ts ≠ [] := by
    rintro rfl
    cases h
  have hw : 1 ≤ width := by
    unfold operatorAt? at h
    split at h
    · cases h
      decide
    · split at h
      · split at h
        · cases h
        · obtain ⟨_, _, h⟩ := Option.map_eq_some_iff.1 h
          cases h
          decide
      · cases h
  have := List.length_pos_iff.2 hts
  rw [List.length_drop]
  omega

/--
The operators behind an operand `left` put shaped trees together, if the first one does not bind
tighter than the root of `left`.
-/
theorem climb (hR : R.Shaped) {least : Nat} {more : List (BinaryOp × Expr)}
    (h : many (binaryTurn R least) ts = .ok (more, rest)) :
    rest.length ≤ ts.length ∧ Looser least rest ∧
      ∀ left : Expr, left.Shaped → least ≤ left.rank → Looser (left.rank + 1) ts →
        (more.foldl (fun left next => .binary left next.1 next.2) left).Shaped ∧
          least ≤ (more.foldl (fun left next => .binary left next.1 next.2) left).rank := by
  refine many_induction (fun ts more rest => rest.length ≤ ts.length ∧ Looser least rest ∧
    ∀ left : Expr, left.Shaped → least ≤ left.rank → Looser (left.rank + 1) ts →
      (more.foldl (fun left next => .binary left next.1 next.2) left).Shaped ∧
        least ≤ (more.foldl (fun left next => .binary left next.1 next.2) left).rank)
    ?stop ?last ?more h
  case stop =>
    intro ts rest h
    rcases run_binaryTurn.1 h with ⟨-, rfl, hl⟩ | ⟨_, _, _, -, -, -, h⟩
    · exact ⟨Nat.le_refl _, hl, fun left hs hr _ => ⟨hs, hr⟩⟩
    · cases h
  case last =>
    intro ts a rest h
    rcases run_binaryTurn.1 h with ⟨h, -⟩ | ⟨_, _, _, -, -, -, h⟩ <;> cases h
  case more =>
    intro ts a mid more rest h hlt _ ih
    rcases run_binaryTurn.1 h with ⟨h, -⟩ | ⟨op, width, e, ho, hle, hb, h⟩
    · cases h
    cases h
    have hop := op.precedence_le
    obtain ⟨-, hs, hr⟩ := hR.binary _ (by omega) _ _ _ hb
    obtain ⟨hrest, hstop, ih⟩ := ih
    refine ⟨by omega, hstop, fun left hleft hrank hlooser => ?_⟩
    have hfirst := hlooser op width ho
    have hl : op.precedence ≤ left.rank := by omega
    have hr : op.precedence < e.rank := by omega
    exact ih (.binary left op e) (.binary hleft hs hl hr) hle (hR.stops _ _ _ _ hb)

theorem run_binary {least : Nat} {e : Expr} :
    binary R least ts = .ok (e, rest) ↔ ∃ left mid more, cast R ts = .ok (left, mid) ∧
      many (binaryTurn R least) mid = .ok (more, rest) ∧
        e = more.foldl (fun left next => .binary left next.1 next.2) left := by
  change (cast R >>= fun left => many (binaryTurn R least) >>= fun more =>
    pure (more.foldl (fun left next => .binary left next.1 next.2) left)) ts = _ ↔ _
  simp only [run_bind, run_pure]
  constructor
  · rintro ⟨left, mid, hl, more, _, hm, rfl, rfl⟩
    exact ⟨left, mid, more, hl, hm, rfl⟩
  · rintro ⟨left, mid, more, hl, hm, rfl⟩
    exact ⟨left, mid, hl, more, rest, hm, rfl, rfl⟩

/-- Behind an operand any operator may stand. -/
theorem looser_of_rank {e : Expr} (h : 10 ≤ e.rank) (ts : List Token) :
    Looser (e.rank + 1) ts := by
  intro op _ _
  have := op.precedence_le
  omega

theorem binary_yields (hR : R.Shaped) {least : Nat} (hl : least ≤ 10) :
    (binary R least).Yields fun e => e.Shaped ∧ least ≤ e.rank := by
  intro ts e rest h
  obtain ⟨left, mid, more, hc, hm, rfl⟩ := run_binary.1 h
  obtain ⟨hmid, hs, hr⟩ := cast_yields hR _ _ _ hc
  obtain ⟨hrest, -, hx⟩ := climb hR hm
  exact ⟨by omega, hx left hs (by omega) (looser_of_rank hr mid)⟩

theorem binary_stops (hR : R.Shaped) {least : Nat} {e : Expr}
    (h : binary R least ts = .ok (e, rest)) : Looser least rest := by
  obtain ⟨left, mid, more, -, hm, -⟩ := run_binary.1 h
  exact (climb hR hm).2.1

/-! ## Types -/

theorem attributeMeta_yields (hR : R.Shaped) (style : DocStyle) (line : Nat) :
    (attributeMeta R style line).Yields fun _ => True := by
  refine .bind simplePath_yields fun _ _ => .bind .isAt fun _ _ => .ite ?_ ?_
  · refine .bind (.withText (P := Expr.Shaped) ?_) fun _ _ => .pure trivial
    exact .bind (.discard .advance) fun _ _ => operand_yields hR
  · refine .bind .nextIs fun _ _ => .ite ?_ (.pure trivial)
    exact .bind (.withText skipTree_yields) fun _ _ => .pure trivial

theorem attributeBody_yields (hR : R.Shaped) (style : DocStyle) :
    (attributeBody R style).Yields fun _ => True := by
  refine .bind .expect fun t _ => .bind .ahead fun _ _ => .ite ?_ ?_
  · refine .bind (.discard .advance) fun _ _ => .bind (.discard .advance) fun _ _ => ?_
    refine .bind (attributeMeta_yields hR style _) fun _ _ => ?_
    exact .bind (.discard .expect) fun _ _ => .bind (.discard .expect) fun _ _ => .pure trivial
  · refine .bind (attributeMeta_yields hR style _) fun _ _ => ?_
    exact .bind (.discard .expect) fun _ _ => .pure trivial

theorem attributes_yields (hR : R.Shaped) (style : DocStyle) (marks : List Kind) :
    (attributes R style marks).Yields fun _ => True := by
  refine (Yields.many (P := fun _ => True) ?_).mono fun _ _ => trivial
  intro ts r rest h
  suffices hl : rest.length ≤ ts.length from ⟨hl, by cases r <;> trivial⟩
  cases ts with
  | nil =>
    cases h
    exact Nat.le_refl _
  | cons t ts =>
    change (if t.kind = .doc style then (do set ts; return .more (docAttribute style t))
      else if startsWith (marks ++ [.opener .bracket]) (t :: ts) = true then do
        modify (List.drop marks.length)
        return .more (← attributeBody R style)
      else return .stop : Rule (Turn Attribute)) (t :: ts) = _ at h
    simp only [run_ite, run_bind, run_set, run_modify, run_pure] at h
    rcases h with ⟨-, _, _, rfl, -, rfl⟩ | ⟨-, ⟨-, _, _, rfl, a, _, ha, -, rfl⟩ | ⟨-, -, rfl⟩⟩
    · exact Nat.le_succ _
    · have hle := (attributeBody_yields hR style _ _ _ ha).1
      rw [List.length_drop] at hle
      omega
    · exact Nat.le_refl _

theorem parameterName_yields : parameterName.Yields fun _ => True := by
  refine .bind .isAt fun _ _ => .ite ?_ ?_
  · exact .bind .nextText fun _ _ => .bind (.discard .advance) fun _ _ => .pure trivial
  · refine .bind (.discard .accept) fun _ _ => ?_
    exact .bind .expect fun _ _ => .pure trivial

theorem generics_yields (hR : R.Shaped) : (generics R).Yields fun _ => True := by
  refine .bind .accept fun _ _ => .ite ?_ (.pure trivial)
  refine .bind (.strictCommaList (P := fun _ => True) ?_) fun _ _ => ?_
  · refine .bind (.discard (attributes_yields hR _ _)) fun _ _ => ?_
    refine .bind parameterName_yields fun _ _ => ?_
    exact .bind dropParameterRest_yields fun _ _ => .pure trivial
  · exact .bind (.discard .expect) fun _ _ => .pure trivial

theorem bound_yields (hR : R.Shaped) : (bound R).Yields fun _ => True := by
  refine .bind .accept fun _ _ => .ite (.pure trivial) ?_
  refine .bind .accept fun _ _ => .ite ?_ ?_
  · exact .bind (.discard hR.bounds) fun _ _ => .discard .expect
  have hj : Rule.Yields
      (do
        if ← accept (.keyword .forKw) then
          discard <| generics R
        discard <| typePath R) fun _ => True := by
    refine .bind .accept fun _ _ => .opt (.discard (generics_yields hR)) ?_
    exact .discard (typePath_yields hR)
  refine .bind .nextIs fun _ _ => .ite ?_ hj
  exact .bind (.discard .advance) fun _ _ => .bind (.discard .accept) fun _ _ => hj

theorem bounds_yields (hR : R.Shaped) (allowPlus : Bool) :
    (bounds R allowPlus).Yields fun _ => True := by
  refine (Yields.many (P := fun _ => True) ?_).mono fun _ _ => trivial
  refine .bind (.withText (bound_yields hR)) fun _ _ => .ite ?_ (.pure trivial)
  refine .bind .accept fun _ _ => .ite ?_ (.pure trivial)
  exact .bind .nextIs fun _ _ => .ite (.pure trivial) (.pure trivial)

theorem fnQualifiers_yields : fnQualifiers.Yields fun _ => True := by
  refine (Yields.many (P := fun _ => True) ?_).mono fun _ _ => trivial
  refine .bind .kindAt fun _ _ => .bind .nextText fun _ _ => .ite ?_ (.ite ?_ (.pure trivial))
  · exact .bind (.discard .advance) fun _ _ => .pure trivial
  · refine .bind (.discard .advance) fun _ _ => ?_
    exact .bind (.discard .accept) fun _ _ => .pure trivial

theorem bareParam_yields (hR : R.Shaped) :
    (bareParam R).Yields fun t => ∀ t' ∈ t, t'.Shaped := by
  refine .bind (.discard (attributes_yields hR _ _)) fun _ _ => ?_
  refine .bind .accept fun _ _ => .ite (.pure (by simp)) ?_
  have hj : Rule.Yields (return some (← R.type true)) fun t : Option Ty => ∀ t' ∈ t, t'.Shaped :=
    .bind (hR.type true) fun t h => .pure (by simpa using h)
  refine .bind .ahead fun _ _ => .ite ?_ hj
  exact .bind (.discard .advance) fun _ _ => .bind (.discard .advance) fun _ _ => hj

theorem bareFn_yields (hR : R.Shaped) : (bareFn R).Yields Ty.Shaped := by
  refine .bind (.discard fnQualifiers_yields) fun _ _ => .bind (.discard .expect) fun _ _ => ?_
  refine .bind (.discard .expect) fun _ _ => ?_
  refine .bind (.commaList (bareParam_yields hR)) fun inputs hi => ?_
  refine .bind (.discard .expect) fun _ _ => ?_
  refine .bind (arrowType_yields hR) fun output ho => .pure (.bareFn (fun t ht => ?_) ho)
  obtain ⟨i, hmem, rfl⟩ := List.mem_filterMap.1 ht
  exact hi _ hmem t rfl

theorem referenceRest_yields (hR : R.Shaped) : (referenceRest R).Yields Ty.Shaped := by
  have hj (lifetime : Option String) : Rule.Yields
      (do
        let mutable ← accept (.keyword .mutKw)
        return .reference lifetime mutable (← R.type false)) Ty.Shaped :=
    .bind .accept fun _ _ => .bind (hR.type false) fun _ h => .pure (.reference h)
  refine .bind .isAt fun _ _ => .ite ?_ (hj none)
  exact .bind .nextText fun _ _ => .bind (.discard .advance) fun _ _ => hj _

theorem pointerRest_yields (hR : R.Shaped) : (pointerRest R).Yields Ty.Shaped := by
  refine .bind .accept fun _ _ => .ite (.bind (hR.type false) fun _ h => .pure (.pointer h)) ?_
  refine .bind .accept fun _ _ => .ite ?_ .refuse
  exact .bind (hR.type false) fun _ h => .pure (.pointer h)

theorem sliceOrArray_yields (hR : R.Shaped) : (sliceOrArray R).Yields Ty.Shaped := by
  refine .bind (.discard .expect) fun _ _ => .bind (hR.type true) fun t ht => ?_
  refine .bind .accept fun _ _ => .ite ?_ ?_
  · refine .bind (operand_yields hR) fun n hn => ?_
    exact .bind (.discard .expect) fun _ _ => .pure (.array ht hn)
  · exact .bind (.discard .expect) fun _ _ => .pure (.slice ht)

theorem pathOrBounds_yields (hR : R.Shaped) (allowPlus : Bool) :
    (pathOrBounds R allowPlus).Yields Ty.Shaped := by
  refine .bind (.withText (typePath_yields hR)) fun r hr => .ite ?_ (.pure hr)
  refine .bind .accept fun _ _ => .ite ?_ (.pure hr)
  exact .bind (bounds_yields hR true) fun _ _ => .pure .traitObject

theorem type_yields (hR : R.Shaped) (allowPlus : Bool) : (type R allowPlus).Yields Ty.Shaped := by
  refine .bind .isAt fun _ _ => .ite ?paren ?_
  case paren => exact .parenOrTuple (hR.type true) (fun _ => .paren) fun _ => .tuple
  refine .bind .isAt fun _ _ => .ite (sliceOrArray_yields hR) ?_
  refine .bind .accept fun _ _ => .ite (referenceRest_yields hR) ?_
  refine .bind .accept fun _ _ => .ite ?andAnd ?_
  case andAnd => exact .bind (referenceRest_yields hR) fun _ h => .pure (.reference h)
  refine .bind .accept fun _ _ => .ite (pointerRest_yields hR) ?_
  refine .bind .accept fun _ _ => .ite (.pure .never) ?_
  refine .bind .accept fun _ _ => .ite (.pure .infer) ?_
  refine .bind .accept fun _ _ => .ite ?dyn ?_
  case dyn => exact .bind (bounds_yields hR _) fun _ _ => .pure .traitObject
  refine .bind .accept fun _ _ => .ite ?impl ?_
  case impl => exact .bind (bounds_yields hR _) fun _ _ => .pure .implTrait
  refine .bind .accept fun _ _ => .ite ?higher ?_
  case higher => exact .bind (.discard (generics_yields hR)) fun _ _ => hR.type allowPlus
  refine .bind .nextIs fun _ _ => .ite (bareFn_yields hR) ?_
  refine .bind .isAt fun _ _ => .ite ?qualified ?_
  case qualified =>
    exact .bind (qualifiedPath_yields hR) fun r hr => .pure (.path (by simpa using hr.1) hr.2)
  refine .bind .ahead fun _ _ => .ite ?call ?_
  case call => exact .bind macroCall_yields fun _ _ => .pure .macroCall
  exact .bind .nextIs fun _ _ => .ite (pathOrBounds_yields hR _) .refuse

end Grammar

/-! ## The layers of rules -/

/-- Rules of every layer yield shaped trees. -/
theorem rules_shaped (n : Nat) : (rules n).Shaped := by
  induction n with
  | zero => exact ⟨fun _ => .throw, .throw, .throw, fun _ _ => .throw, fun _ _ _ _ h => nomatch h⟩
  | succ n ih =>
    exact ⟨Grammar.type_yields ih, Grammar.bounds_yields ih true, Grammar.unary_yields ih,
      fun _ => Grammar.binary_yields ih, fun _ _ _ _ => Grammar.binary_stops ih⟩

end Ferrotype
