import Ferrotype.Grammar.Basic
import Ferrotype.Proofs.Reworded.Steps

/-!
# Types and expressions of reworded tokens

Each rule finds trees that are alike if the rules for its parts do. No rule takes the text of a
comment for more than text: what it decides by are kinds, words, operators and places.
-/

namespace Ferrotype

open Grammar Rule

variable {E : Token → Token → Prop} {T : String → String → Prop} {ts us : List Token}

/-! ## Lookahead -/

namespace Rewording

variable (w : Rewording E T) (h : List.Forall₂ E ts us)
include w h

theorem pathContinues : pathContinues ts = pathContinues us := by
  rcases h with _ | ⟨h₁, _ | ⟨h₂, h⟩⟩
  · rfl
  · rfl
  · simp only [Grammar.pathContinues, w.kind h₁, w.kind h₂]

theorem startsTurbofish : startsTurbofish ts = startsTurbofish us := by
  rcases h with _ | ⟨h₁, _ | ⟨h₂, h⟩⟩
  · rfl
  · rfl
  · simp only [Grammar.startsTurbofish, w.kind h₁, w.kind h₂]

theorem startsNamed : startsNamed ts = startsNamed us := by
  rcases h with _ | ⟨h₁, _ | ⟨h₂, h⟩⟩
  · rfl
  · rfl
  · simp only [Grammar.startsNamed, w.kind h₁, w.kind h₂]

theorem startsBlock : startsBlock ts = startsBlock us := by
  cases h with
  | nil => rfl
  | cons h₁ h => simp only [Grammar.startsBlock, w.kind h₁, w.any_head? h fun k => k == .opener .brace]

theorem startsWith (kinds : List Kind) : startsWith kinds ts = startsWith kinds us := by
  simp only [Grammar.startsWith, List.map_take, w.kinds h]

theorem dropPathWords : List.Forall₂ E (dropPathWords ts) (dropPathWords us) := by
  fun_induction Grammar.dropPathWords ts generalizing us with
  | case1 =>
    cases h
    exact .nil
  | case2 t ht | case3 t ht =>
    rcases h with _ | ⟨h₁, _ | _⟩
    simp only [Grammar.dropPathWords, ← w.kind h₁, ht]
    first | exact .nil | exact .cons h₁ .nil
  | case4 t c ts ht hc ih =>
    rcases h with _ | ⟨h₁, _ | ⟨h₂, h⟩⟩
    simp only [Grammar.dropPathWords, ← w.kind h₁, ← w.kind h₂, ht, hc, if_true]
    exact ih h
  | case5 t c ts ht hc =>
    rcases h with _ | ⟨h₁, _ | ⟨h₂, h⟩⟩
    simp only [Grammar.dropPathWords, ← w.kind h₁, ← w.kind h₂, ht, hc, if_true, if_false]
    exact .cons h₂ h
  | case6 t c ts ht =>
    rcases h with _ | ⟨h₁, _ | ⟨h₂, h⟩⟩
    simp only [Grammar.dropPathWords, ← w.kind h₁, ht]
    exact .cons h₁ (.cons h₂ h)

theorem startsMacro : startsMacro ts = startsMacro us := by
  have hb : ∀ {vs xs : List Token}, List.Forall₂ E vs xs →
      (vs.head?.any fun t => t.kind == .punct .bang) = xs.head?.any fun t => t.kind == .punct .bang :=
    fun hv => w.any_head? hv fun k => k == .punct .bang
  cases h with
  | nil => rfl
  | cons h₁ h =>
    simp only [Grammar.startsMacro, ← w.kind h₁]
    split
    · exact hb (w.dropPathWords h)
    · split
      · exact hb (w.dropPathWords (.cons h₁ h))
      · rfl

/-- A comment is no mark, so the text of the first mark, and where it ends, is the same. -/
theorem shiftAt? : shiftAt? ts = shiftAt? us := by
  cases h with
  | nil => rfl
  | @cons t t' _ _ h₁ h =>
    cases h with
    | nil => rfl
    | cons h₂ h =>
      simp only [Grammar.shiftAt?, adjacent, ← w.kind h₁, ← w.kind h₂, ← w.place h₁, ← w.place h₂]
      by_cases hd : ∃ style, t.kind = .doc style
      · obtain ⟨style, hd⟩ := hd
        simp [hd]
      · rw [← w.word h₁ (not_exists.1 hd)]
        rfl

theorem operatorAt? : operatorAt? ts = operatorAt? us := by
  unfold Grammar.operatorAt?
  rw [w.shiftAt? h]
  split
  · rfl
  · cases h with
    | nil => rfl
    | cons h₁ h => simp only [w.kind h₁, w.operator h₁]

omit h in
theorem isWord {t u : Token} (hd : E t u) (word : String) : isWord word t = isWord word u := by
  have hw := w.kind hd
  by_cases hk : t.kind = .identifier
  · simp only [Grammar.isWord, ← hw, w.word hd (by simp [hk])]
  · have hf : (t.kind == .identifier) = false := beq_eq_false_iff_ne.2 hk
    simp only [Grammar.isWord, ← hw, hf, Bool.false_and]

theorem startsUnsafe : startsUnsafe ts = startsUnsafe us := by
  rcases h with _ | ⟨h₁, _ | ⟨h₂, h⟩⟩
  · rfl
  · rfl
  · have hw := w.isWord h₁ "unsafe"
    simp only [Grammar.isWord, w.kind h₁] at hw
    simp only [Grammar.startsUnsafe, w.kind h₁, w.kind h₂, hw]

end Rewording

/-- The rules for the parts find trees that are alike. -/
structure Rules.Agree (E : Token → Token → Prop) (T : String → String → Prop) (R : Rules) :
    Prop where
  type (allowPlus : Bool) {ts us : List Token} (h : List.Forall₂ E ts us) :
    Rule.Agree E (R.type allowPlus) (R.type allowPlus) (Ty.Alike T) ts us
  bounds {ts us : List Token} (h : List.Forall₂ E ts us) :
    Rule.Agree E R.bounds R.bounds (List.Forall₂ (Joined T)) ts us
  unary {ts us : List Token} (h : List.Forall₂ E ts us) :
    Rule.Agree E R.unary R.unary (Expr.Alike T) ts us
  binary (least : Nat) {ts us : List Token} (h : List.Forall₂ E ts us) :
    Rule.Agree E (R.binary least) (R.binary least) (Expr.Alike T) ts us

namespace Grammar

/-- Suffixes that differ in their expressions only. -/
inductive Suffix.Alike (T : String → String → Prop) : Suffix → Suffix → Prop where
  | member {name : String} : Suffix.Alike T (.member name) (.member name)
  | call {as as' : List Expr} (h : List.Forall₂ (Expr.Alike T) as as') :
    Suffix.Alike T (.call as) (.call as')
  | index {i i' : Expr} (h : Expr.Alike T i i') : Suffix.Alike T (.index i) (.index i')
  | question : Suffix.Alike T .question .question

theorem Suffix.Alike.apply {s s' : Suffix} {e e' : Expr} (hs : Suffix.Alike T s s')
    (he : Expr.Alike T e e') : Expr.Alike T (s.apply e) (s'.apply e') := by
  cases hs with
  | member => exact .member he
  | call ha => exact .call he ha
  | index hi => exact .index he hi
  | question => exact .question he

open Rule.Agree

variable (w : Rewording E T) {R : Rules}

/-! ## Paths -/

section

variable (h : List.Forall₂ E ts us)
include w h

theorem pathWord_agree {fault : Expectation} :
    Rule.Agree E (pathWord fault) (pathWord fault) Eq ts us := by
  apply nextIs w h
  refine ite (fun hp => ?_) fun _ => refuse h
  apply nextWord w h (fun _ => rfl) hp
  intro word
  exact skip (advance h) fun _ _ h => pure rfl h

theorem simplePath_agree : Rule.Agree E simplePath simplePath Eq ts us := by
  apply bindEq (accept w h)
  intro leading ts us h
  refine bindEq (manyEq h fun ts us h => ?_) fun _ _ _ h => pure rfl h
  apply bindEq (pathWord_agree w h)
  intro word ts us h
  apply ahead (w.pathContinues h)
  refine ite (fun _ => ?_) fun _ => pure (.last rfl) h
  exact skip (advance h) fun _ _ h => pure (.more rfl) h

theorem macroCall_agree : Rule.Agree E macroCall macroCall Eq ts us := by
  apply bindEq (simplePath_agree w h)
  intro name ts us h
  apply expectOver w h
  intro ts us h
  apply nextIs w h
  refine ite (fun _ => ?_) fun _ => refuse h
  exact bindEq (skipTree w h) fun _ _ _ h => pure rfl h

/-! ## Generic arguments -/

variable (hR : R.Agree E T)
include hR

theorem genericArg_agree :
    Rule.Agree E (genericArg R) (genericArg R) (GenericArg.Alike T) ts us := by
  have word {kind : Kind} (hk : ts[0]?.map Token.kind = some kind) :
      (ts.head?.any fun t => t.kind == kind) = true := by
    cases ts with
    | nil => cases hk
    | cons t ts => simpa using hk
  apply kindAt w h
  apply kindAt w h
  refine ite (fun hk => ?lifetime) fun _ => ?_
  case lifetime =>
    apply nextWord w h (p := (· == .lifetime)) (fun _ => rfl) (word hk)
    intro name
    exact skip (advance h) fun _ _ h => pure .lifetime h
  refine ite (fun _ => bindEq (skipTree w h) fun _ _ _ h => pure (.const .block) h) fun _ => ?_
  refine ite (fun _ => Agree.bind (hR.unary h) fun _ _ _ _ he h => pure (.const he) h) fun _ => ?_
  refine ite (fun hk => ?binding) fun _ => ?_
  case binding =>
    apply nextWord w h (p := (· == .identifier)) (fun _ => rfl) (word hk.1)
    intro name
    apply skip (advance h)
    intro ts us h
    apply skip (advance h)
    intro ts us h
    exact Agree.bind (hR.type true h) fun _ _ _ _ ht h => pure (.binding ht) h
  refine ite (fun hk => ?constraint) fun _ => ?_
  case constraint =>
    apply nextWord w h (p := (· == .identifier)) (fun _ => rfl) (word hk.1)
    intro name
    apply skip (advance h)
    intro ts us h
    apply skip (advance h)
    intro ts us h
    exact skip (hR.bounds h) fun _ _ h => pure .constraint h
  exact Agree.bind (hR.type true h) fun _ _ _ _ ht h => pure (.type ht) h

theorem genericArgs_agree :
    Rule.Agree E (genericArgs R) (genericArgs R) (List.Forall₂ (GenericArg.Alike T)) ts us := by
  apply expectOver w h
  intro ts us h
  apply Agree.bind (strictCommaList w h fun ts us h => genericArg_agree w h hR)
  intro as bs ts us ha h
  exact expectOver w h fun _ _ h => pure ha h

theorem arrowType_agree :
    Rule.Agree E (arrowType R) (arrowType R) (Option.Rel (Ty.Alike T)) ts us := by
  refine acceptIte w h (fun ts us h => ?_) (pure .none h)
  exact Agree.bind (hR.type false h) fun _ _ _ _ ht h => pure (.some ht) h

theorem segment_agree : Rule.Agree E (segment R) (segment R) (Segment.Alike T) ts us := by
  apply bindEq (pathWord_agree w h)
  intro name ts us h
  apply ahead (w.startsTurbofish h)
  refine opt h (fun _ => (advance h).discard) fun ts us h => ?_
  apply isAt w h
  refine ite (fun _ => ?angle) fun _ => acceptIte w h (fun ts us h => ?paren) (pure (.mk .none) h)
  case angle =>
    exact Agree.bind (genericArgs_agree w h hR) fun _ _ _ _ ha h => pure (.mk (.angle ha)) h
  apply Agree.bind (commaList w h fun _ _ => hR.type true)
  intro inputs inputs' ts us hi h
  apply expectOver w h
  intro ts us h
  exact Agree.bind (arrowType_agree w h hR) fun _ _ _ _ ho h => pure (.mk (.paren hi ho)) h

theorem segments_agree :
    Rule.Agree E (segments R) (segments R) (List.Forall₂ (Segment.Alike T)) ts us := by
  apply many h
  intro ts us h
  apply Agree.bind (segment_agree w h hR)
  intro s s' ts us hs h
  apply ahead (w.pathContinues h)
  refine ite (fun _ => ?_) fun _ => pure (.last hs) h
  exact skip (advance h) fun _ _ h => pure (.more hs) h

theorem typePath_agree : Rule.Agree E (typePath R) (typePath R) (Ty.Alike T) ts us := by
  apply bindEq (accept w h)
  intro leading ts us h
  exact Agree.bind (segments_agree w h hR) fun _ _ _ _ hs h => pure (.path .none hs) h

theorem qualifiedPath_agree : Rule.Agree E (qualifiedPath R) (qualifiedPath R)
    (fun p q => Ty.Alike T p.1 q.1 ∧ List.Forall₂ (Segment.Alike T) p.2 q.2) ts us := by
  apply expectOver w h
  intro ts us h
  apply Agree.bind (hR.type true h)
  intro qualifier qualifier' ts us hq h
  refine join (R := List.Forall₂ (Segment.Alike T))
    (fun hj => acceptIte w h (fun ts us h => ?_) (pureThen hj .nil h))
    fun ofTrait ofTrait' ts us ho h => ?_
  · apply skip (accept w h)
    intro ts us h
    exact Agree.bind (segments_agree w h hR) hj
  · apply expectOver w h
    intro ts us h
    apply expectOver w h
    intro ts us h
    apply skip (accept w h)
    intro ts us h
    apply Agree.bind (segments_agree w h hR)
    intro segments segments' ts us hs h
    exact pure ⟨hq, List.rel_append ho hs⟩ h

/-! ## Expressions -/

theorem turbofishArgs_agree :
    Rule.Agree E (Functor.discard advance >>= fun _ => Functor.discard (genericArgs R))
      (Functor.discard advance >>= fun _ => Functor.discard (genericArgs R)) Eq ts us :=
  skip (advance h) fun _ _ h => (genericArgs_agree w h hR).discard

theorem pathExpr_agree : Rule.Agree E (pathExpr R) (pathExpr R) (Expr.Alike T) ts us := by
  apply bindEq (accept w h)
  intro leading ts us h
  refine bindEq (manyEq h fun ts us h => ?_) fun _ _ _ h => pure .path h
  apply bindEq (pathWord_agree w h)
  intro word ts us h
  apply ahead (w.startsTurbofish h)
  refine opt₂ h (fun _ => turbofishArgs_agree w h hR) fun ts us h => ?_
  apply ahead (w.pathContinues h)
  refine ite (fun _ => ?_) fun _ => pure (.last rfl) h
  exact skip (advance h) fun _ _ h => pure (.more rfl) h

theorem callArgs_agree :
    Rule.Agree E (callArgs R) (callArgs R) (List.Forall₂ (Expr.Alike T)) ts us := by
  apply expectOver w h
  intro ts us h
  apply Agree.bind (commaList w h fun _ _ => hR.binary 1)
  intro as bs ts us ha h
  exact expectOver w h fun _ _ h => pure ha h

theorem arrayElements_agree :
    Rule.Agree E (arrayElements R) (arrayElements R) (List.Forall₂ (Expr.Alike T)) ts us := by
  apply expectOver w h
  intro ts us h
  refine acceptIte w h (fun _ _ h => pure .nil h) ?_
  apply Agree.bind (hR.binary 1 h)
  intro first first' ts us hf h
  refine join (R := List.Forall₂ (Expr.Alike T))
    (fun hj => acceptIte w h (fun ts us h => ?_)
      (Agree.bind (Agree.moreElements w h fun _ _ => hR.binary 1) hj))
    fun more more' ts us hm h => ?_
  · apply Agree.bind (hR.binary 1 h)
    intro count count' ts us hc h
    exact pureThen hj (.cons hc .nil) h
  · exact expectOver w h fun _ _ h => pure (.cons hf hm) h

omit hR in
theorem stringLiteral_agree :
    Rule.Agree E stringLiteral stringLiteral (Expr.Alike T) ts us := by
  apply Agree.bind (expect w h)
  rintro t u ts us ⟨hd, hk⟩ h
  rw [w.word hd (by simp [hk])]
  cases cookString u.text with
  | ok value => exact pure .literal h
  | error fault => exact throw (.some hd)

omit hR in
theorem blockExpr_agree : Rule.Agree E blockExpr blockExpr (Expr.Alike T) ts us := by
  apply isAt w h
  refine ite (fun _ => ?_) fun _ => ?_
  · exact bindEq (skipTree w h) fun _ _ _ h => pure .block h
  · exact skip (advance h) fun _ _ h => bindEq (skipTree w h) fun _ _ _ h => pure .block h

theorem primary_agree : Rule.Agree E (primary R) (primary R) (Expr.Alike T) ts us := by
  apply isAt w h
  refine ite (fun _ => stringLiteral_agree w h) fun _ => ?_
  apply kindAt w h
  cases hk : (ts[0]?.map Token.kind).bind literalKind? with
  | some kind =>
    have hh : (ts.head?.any fun t => (literalKind? t.kind).isSome) = true := by
      cases ts <;> simp_all
    apply nextWord w h (p := fun k => (literalKind? k).isSome) (fun _ => rfl) hh
    intro text
    exact skip (advance h) fun _ _ h => pure .literal h
  | none =>
  apply isAt w h
  refine ite (fun _ => Agree.parenOrTuple w h (fun _ _ => hR.binary 1) (fun _ _ => .paren)
    fun _ _ => .tuple) fun _ => ?_
  apply isAt w h
  refine ite (fun _ => Agree.bind (arrayElements_agree w h hR) fun _ _ _ _ he h => pure (.array he) h)
    fun _ => ?_
  apply ahead (w.startsBlock h)
  refine ite (fun _ => blockExpr_agree w h) fun _ => ?_
  apply ahead (w.startsMacro h)
  refine ite (fun _ => bindEq (macroCall_agree w h) fun _ _ _ h => pure .macroCall h) fun _ => ?_
  apply nextIs w h
  refine ite (fun _ => pathExpr_agree w h hR) fun _ => ?_
  apply isAt w h
  refine ite (fun _ => ?_) fun _ => refuse h
  apply Agree.bind (qualifiedPath_agree w h hR)
  rintro p q ts us ⟨-, hs⟩ h
  rw [Segment.Alike.map_name hs]
  exact pure .path h

omit hR in
theorem memberName_agree : Rule.Agree E memberName memberName Eq ts us := by
  apply nextIs w h
  refine ite (fun hp => ?_) fun _ => refuse h
  apply nextWord w h (p := fun k => k == .identifier || k == .int) (fun _ => rfl) hp
  intro name
  exact skip (advance h) fun _ _ h => pure rfl h

theorem suffixTurn_agree :
    Rule.Agree E (suffixTurn R) (suffixTurn R) (Turn.Alike (Suffix.Alike T)) ts us := by
  refine acceptIte w h (fun ts us h => ?member) ?_
  case member =>
    apply bindEq (memberName_agree w h)
    intro name ts us h
    apply ahead (w.startsTurbofish h)
    exact opt₂ h (fun _ => turbofishArgs_agree w h hR) fun _ _ h => pure (.more .member) h
  apply isAt w h
  refine ite (fun _ => ?call) fun _ => ?_
  case call => exact Agree.bind (callArgs_agree w h hR) fun _ _ _ _ ha h => pure (.more (.call ha)) h
  refine acceptIte w h (fun ts us h => ?index)
    (acceptIte w h (fun _ _ h => pure (.more .question) h) (pure .stop h))
  apply Agree.bind (hR.binary 1 h)
  intro i i' ts us hi h
  exact expectOver w h fun _ _ h => pure (.more (.index hi)) h

theorem suffixed_agree : Rule.Agree E (suffixed R) (suffixed R) (Expr.Alike T) ts us := by
  apply Agree.bind (primary_agree w h hR)
  intro e e' ts us he h
  apply Agree.bind (many h fun ts us h => suffixTurn_agree w h hR)
  intro ss ss' ts us hs h
  exact pure (List.rel_foldl (fun _ _ he _ _ hs => hs.apply he) he hs) h

omit hR in
theorem unaryTurn_agree : Rule.Agree E unaryTurn unaryTurn (Turn.Alike Eq) ts us := by
  refine acceptIte w h (fun _ _ h => pure (.more rfl) h) ?_
  refine acceptIte w h (fun _ _ h => pure (.more rfl) h) ?_
  refine acceptIte w h (fun _ _ h => pure (.more rfl) h) ?_
  refine acceptIte w h (fun ts us h => ?_) (acceptIte w h (fun ts us h => ?_) (pure .stop h))
  · exact bindEq (accept w h) fun _ _ _ h => pure (.more rfl) h
  · exact bindEq (accept w h) fun _ _ _ h => pure (.more rfl) h

theorem unary_agree : Rule.Agree E (unary R) (unary R) (Expr.Alike T) ts us := by
  apply bindEq (manyEq h fun ts us h => unaryTurn_agree w h)
  intro ops ts us h
  apply Agree.bind (suffixed_agree w h hR)
  intro e e' ts us he h
  apply pure _ h
  induction ops with
  | nil => exact he
  | cons op ops ih => exact .unary ih

theorem cast_agree : Rule.Agree E (cast R) (cast R) (Expr.Alike T) ts us := by
  apply Agree.bind (unary_agree w h hR)
  intro e e' ts us he h
  apply Agree.bind (P := List.Forall₂ (Ty.Alike T))
  · apply many h
    intro ts us h
    refine acceptIte w h (fun ts us h => ?_) (pure .stop h)
    exact Agree.bind (hR.type false h) fun _ _ _ _ ht h => pure (.more ht) h
  · intro types types' ts us ht h
    exact pure (List.rel_foldl (fun _ _ he _ _ ht => .cast he ht) he ht) h

/-- The operator is looked up by the text of the next token, but no comment is one. -/
theorem binary_agree (least : Nat) :
    Rule.Agree E (binary R least) (binary R least) (Expr.Alike T) ts us := by
  apply Agree.bind (cast_agree w h hR)
  intro left left' ts us hl h
  apply Agree.bind (P := List.Forall₂ fun p q => p.1 = q.1 ∧ Expr.Alike T p.2 q.2)
  · apply many h
    intro ts us h
    apply Agree.get
    rw [← w.operatorAt? h]
    cases operatorAt? ts with
    | none => exact pure .stop h
    | some p =>
      obtain ⟨op, width⟩ := p
      refine ite (fun _ => ?_) fun _ => pure .stop h
      apply Agree.drop
      apply Agree.bind (hR.binary (op.precedence + 1) (List.forall₂_drop width h))
      intro right right' ts us hr h
      exact pure (.more ⟨rfl, hr⟩) h
  · intro more more' ts us hm h
    refine pure (List.rel_foldl ?_ hl hm) h
    rintro l l' hl ⟨op, r⟩ ⟨_, r'⟩ ⟨rfl, hr⟩
    exact .binary hl hr

/-! ## Attributes -/

theorem attributeMeta_agree (style : DocStyle) (line : Nat) :
    Rule.Agree E (attributeMeta R style line) (attributeMeta R style line) (Attribute.Alike T)
      ts us := by
  apply bindEq (simplePath_agree w h)
  intro path ts us h
  apply isAt w h
  refine ite (fun _ => ?value) fun _ => ?_
  case value =>
    have hv : Rule.Agree E (Functor.discard advance >>= fun _ => R.binary 1)
        (Functor.discard advance >>= fun _ => R.binary 1) (Expr.Alike T) ts us :=
      skip (advance h) fun _ _ => hR.binary 1
    apply Agree.bind (withText w h hv)
    rintro ⟨v, x⟩ ⟨v', y⟩ ts us ⟨hv, hx⟩ h
    exact pure (.written (.some hv) hx) h
  apply nextIs w h
  refine ite (fun _ => ?_) fun _ => pure (.written .none joined_nil) h
  apply Agree.bind (withText w h (skipTree w h))
  rintro ⟨_, x⟩ ⟨_, y⟩ ts us ⟨-, hx⟩ h
  exact pure (.written .none hx) h

theorem attributeBody_agree (style : DocStyle) :
    Rule.Agree E (attributeBody R style) (attributeBody R style) (Attribute.Alike T) ts us := by
  apply Agree.bind (expect w h)
  rintro t u ts us ⟨hd, -⟩ h
  rw [w.place hd]
  apply ahead (w.startsUnsafe h)
  refine ite (fun _ => ?wrapped) fun _ => ?_
  case wrapped =>
    apply skip (advance h)
    intro ts us h
    apply skip (advance h)
    intro ts us h
    apply Agree.bind (attributeMeta_agree w h hR style _)
    intro a a' ts us ha h
    exact expectOver w h fun _ _ h => expectOver w h fun _ _ h => pure ha h
  apply Agree.bind (attributeMeta_agree w h hR style _)
  intro a a' ts us ha h
  exact expectOver w h fun _ _ h => pure ha h

theorem attributes_agree (style : DocStyle) (marks : List Kind) :
    Rule.Agree E (attributes R style marks) (attributes R style marks) (Attribute.AllAlike T)
      ts us := by
  apply many h
  intro ts us h
  apply Agree.get
  cases h with
  | nil => exact pure .stop .nil
  | @cons t u ts us hd h =>
    have hs := w.startsWith (.cons hd h) (marks ++ [.opener .bracket])
    simp only [← w.kind hd, ← hs]
    refine ite (fun _ => ?comment) fun _ => ite (fun _ => ?_) fun _ => pure .stop (.cons hd h)
    case comment =>
      apply Agree.set
      rw [docAttribute, docAttribute, w.place hd]
      exact pure (.more (.comment (w.text hd))) h
    apply Agree.drop
    apply Agree.bind (attributeBody_agree w (List.forall₂_drop _ (.cons hd h)) hR style)
    intro a a' ts us ha h
    exact pure (.more ha) h

theorem outerAttributes_agree : Rule.Agree E (outerAttributes R) (outerAttributes R)
    (Attribute.AllAlike T) ts us := attributes_agree w h hR _ _

theorem innerAttributes_agree : Rule.Agree E (innerAttributes R) (innerAttributes R)
    (Attribute.AllAlike T) ts us := attributes_agree w h hR _ _

/-! ## Generic parameters and bounds -/

omit hR in
theorem parameterName_agree : Rule.Agree E parameterName parameterName Eq ts us := by
  apply isAt w h
  refine ite (fun hk => ?_) fun _ => skip (accept w h) fun _ _ h => expectName w h
  apply nextWord w h (p := (· == .lifetime)) (fun _ => rfl) hk
  intro name
  exact skip (advance h) fun _ _ h => pure rfl h

theorem generics_agree : Rule.Agree E (generics R) (generics R) Eq ts us := by
  refine acceptIte w h (fun ts us h => ?_) (pure rfl h)
  apply Agree.bind (strictCommaList (P := Eq) w h fun ts us h => ?parameter)
  case parameter =>
    apply skip (outerAttributes_agree w h hR)
    intro ts us h
    apply bindEq (parameterName_agree w h)
    intro name ts us h
    exact bindEq (parameterRest w h) fun _ _ _ h => pure rfl h
  intro names names' ts us hn h
  exact expectOver w h fun _ _ h => pure (eq_of_forall₂_eq hn) h

theorem bound_agree : Rule.Agree E (bound R) (bound R) Eq ts us := by
  refine acceptIte w h (fun _ _ h => pure rfl h) (acceptIte w h (fun ts us h => ?paren) ?_)
  case paren => exact skip (hR.bounds h) fun _ _ h => (expect w h).discard
  apply nextIs w h
  refine opt₂ h (fun _ => skip (advance h) fun _ _ h => (accept w h).discard) fun ts us h => ?_
  refine acceptIte w h (fun ts us h => ?_) (typePath_agree w h hR).discard
  exact skip (generics_agree w h hR) fun _ _ h => (typePath_agree w h hR).discard

theorem bounds_agree (allowPlus : Bool) :
    Rule.Agree E (bounds R allowPlus) (bounds R allowPlus) (List.Forall₂ (Joined T)) ts us := by
  apply many h
  intro ts us h
  apply Agree.bind (withText w h (bound_agree w h hR))
  rintro ⟨_, x⟩ ⟨_, y⟩ ts us ⟨-, hx⟩ h
  refine ite (fun _ => ?_) fun _ => pure (.last hx) h
  refine acceptIte w h (fun ts us h => ?_) (pure (.last hx) h)
  apply nextIs w h
  exact ite (fun _ => pure (.last hx) h) fun _ => pure (.more hx) h

/-! ## Types -/

omit hR in
/-- The word is looked at before its kind is, but only a keyword is kept. -/
theorem fnQualifiers_agree : Rule.Agree E fnQualifiers fnQualifiers Eq ts us := by
  apply manyEq h
  intro ts us h
  have word {k : Keyword} (hk : ts[0]?.map Token.kind = some (.keyword k)) (style : DocStyle) :
      headIs (.doc style) ts = false := by
    cases ts with
    | nil => rfl
    | cons t ts =>
      obtain hk : t.kind = .keyword k := by simpa using hk
      simp [headIs, hk]
  apply kindAt w h
  apply nextText w h
  intro x y _ hxy
  refine ite (fun hk => ?_) fun _ => ite (fun hk => ?_) fun _ => pure .stop h
  · obtain rfl : x = y := by
      obtain hk | hk | hk := hk
      all_goals exact hxy (word hk)
    exact skip (advance h) fun _ _ h => pure (.more rfl) h
  · obtain rfl := hxy (word hk)
    apply skip (advance h)
    intro ts us h
    exact skip (accept w h) fun _ _ h => pure (.more rfl) h

theorem bareParam_agree :
    Rule.Agree E (bareParam R) (bareParam R) (Option.Rel (Ty.Alike T)) ts us := by
  apply skip (outerAttributes_agree w h hR)
  intro ts us h
  refine acceptIte w h (fun _ _ h => pure .none h) ?_
  apply ahead (w.startsNamed h)
  refine opt₂ h (fun _ => skip (advance h) fun _ _ h => (advance h).discard) fun ts us h => ?_
  exact Agree.bind (hR.type true h) fun _ _ _ _ ht h => pure (.some ht) h

theorem bareFn_agree : Rule.Agree E (bareFn R) (bareFn R) (Ty.Alike T) ts us := by
  apply skip (fnQualifiers_agree w h)
  intro ts us h
  apply expectOver w h
  intro ts us h
  apply expectOver w h
  intro ts us h
  apply Agree.bind (commaList w h fun ts us h => bareParam_agree w h hR)
  intro inputs inputs' ts us hi h
  apply expectOver w h
  intro ts us h
  apply Agree.bind (arrowType_agree w h hR)
  intro output output' ts us ho h
  exact pure (.bareFn (List.rel_filterMap (fun _ _ hi => hi) hi) ho) h

theorem referenceRest_agree :
    Rule.Agree E (referenceRest R) (referenceRest R) (Ty.Alike T) ts us := by
  apply isAt w h
  refine join (R := Eq) (fun hj => ite (fun hk => ?_) fun _ => pureThen hj rfl h) ?_
  · apply nextWord w h (p := (· == .lifetime)) (fun _ => rfl) hk
    intro name
    exact skip (advance h) fun _ _ h => pureThen hj rfl h
  · rintro lifetime _ ts us rfl h
    apply bindEq (accept w h)
    intro mutable ts us h
    exact Agree.bind (hR.type false h) fun _ _ _ _ ht h => pure (.reference ht) h

theorem pointerRest_agree : Rule.Agree E (pointerRest R) (pointerRest R) (Ty.Alike T) ts us := by
  have pointee (mutable : Bool) {ts us : List Token} (h : List.Forall₂ E ts us) :
      Rule.Agree E (R.type false >>= fun t => Pure.pure (Ty.pointer mutable t))
        (R.type false >>= fun t => Pure.pure (Ty.pointer mutable t)) (Ty.Alike T) ts us :=
    Agree.bind (hR.type false h) fun _ _ _ _ ht h => pure (.pointer ht) h
  refine acceptIte w h (fun _ _ h => pointee false h) ?_
  exact acceptIte w h (fun _ _ h => pointee true h) (refuse h)

theorem sliceOrArray_agree :
    Rule.Agree E (sliceOrArray R) (sliceOrArray R) (Ty.Alike T) ts us := by
  apply expectOver w h
  intro ts us h
  apply Agree.bind (hR.type true h)
  intro t t' ts us ht h
  refine acceptIte w h (fun ts us h => ?_) (expectOver w h fun _ _ h => pure (.slice ht) h)
  apply Agree.bind (hR.binary 1 h)
  intro e e' ts us he h
  exact expectOver w h fun _ _ h => pure (.array ht he) h

theorem pathOrBounds_agree (allowPlus : Bool) :
    Rule.Agree E (pathOrBounds R allowPlus) (pathOrBounds R allowPlus) (Ty.Alike T) ts us := by
  apply Agree.bind (withText w h (typePath_agree w h hR))
  rintro ⟨t, x⟩ ⟨t', y⟩ ts us ⟨ht, hx⟩ h
  refine ite (fun _ => ?_) fun _ => pure ht h
  refine acceptIte w h (fun ts us h => ?_) (pure ht h)
  exact Agree.bind (bounds_agree w h hR true) fun _ _ _ _ hb h => pure (.traitObject (.cons hx hb)) h

/-- The kinds that a type starts with are told apart one by one. -/
theorem type_agree (allowPlus : Bool) :
    Rule.Agree E (type R allowPlus) (type R allowPlus) (Ty.Alike T) ts us := by
  apply isAt w h
  refine ite (fun _ => Agree.parenOrTuple w h (fun _ _ => hR.type true) (fun _ _ => .paren)
    fun _ _ => .tuple) fun _ => ?_
  apply isAt w h
  refine ite (fun _ => sliceOrArray_agree w h hR) fun _ => ?_
  refine acceptIte w h (fun _ _ h => referenceRest_agree w h hR) ?_
  refine acceptIte w h (fun ts us h => ?double) ?_
  case double =>
    exact Agree.bind (referenceRest_agree w h hR) fun _ _ _ _ ht h => pure (.reference ht) h
  refine acceptIte w h (fun _ _ h => pointerRest_agree w h hR) ?_
  refine acceptIte w h (fun _ _ h => pure .never h) ?_
  refine acceptIte w h (fun _ _ h => pure .infer h) ?_
  refine acceptIte w h (fun ts us h => ?object) ?_
  case object =>
    exact Agree.bind (bounds_agree w h hR allowPlus) fun _ _ _ _ hb h => pure (.traitObject hb) h
  refine acceptIte w h (fun ts us h => ?impl) ?_
  case impl =>
    exact Agree.bind (bounds_agree w h hR allowPlus) fun _ _ _ _ hb h => pure (.implTrait hb) h
  refine acceptIte w h (fun ts us h => ?binder) ?_
  case binder => exact skip (generics_agree w h hR) fun _ _ h => hR.type allowPlus h
  apply nextIs w h
  refine ite (fun _ => bareFn_agree w h hR) fun _ => ?_
  apply isAt w h
  refine ite (fun _ => ?qualified) fun _ => ?_
  case qualified =>
    exact Agree.bind (qualifiedPath_agree w h hR) fun _ _ _ _ hp h => pure (.path (.some hp.1) hp.2) h
  apply ahead (w.startsMacro h)
  refine ite (fun _ => ?call) fun _ => ?_
  case call => exact bindEq (macroCall_agree w h) fun _ _ _ h => pure .macroCall h
  apply nextIs w h
  exact ite (fun _ => pathOrBounds_agree w h hR allowPlus) fun _ => refuse h

end

/-! ## All layers -/

include w in
theorem rules_agree (n : Nat) : (rules n).Agree E T := by
  induction n with
  | zero =>
    have fault {α α' : Type} {P : α → α' → Prop} {ts us : List Token} :
        Rule.Agree E (MonadExcept.throw .endless : Rule α) (MonadExcept.throw .endless : Rule α') P
          ts us := throw .none
    exact ⟨fun _ _ _ _ => fault, fun _ => fault, fun _ => fault, fun _ _ _ _ => fault⟩
  | succ n ih =>
    constructor
    · exact fun allowPlus ts us h => type_agree w h ih allowPlus
    · exact fun h => bounds_agree w h ih true
    · exact fun h => unary_agree w h ih
    · exact fun least ts us h => binary_agree w h ih least

/-- Lists of reworded tokens are as long, so the same layer reads both. -/
theorem whole_agree {α α' : Type} {P : α → α' → Prop} {x : Rules → Rule α} {y : Rules → Rule α'}
    (w : Rewording E T) (h : List.Forall₂ E ts us)
    (hx : ∀ {R : Rules}, R.Agree E T → Rule.Agree E (x R) (y R) P ts us) :
    Rule.Agree E (whole x) (whole y) P ts us := by
  have hn := hx (rules_agree w ts.length)
  unfold Rule.Agree at hn ⊢
  unfold whole
  rwa [← h.length_eq]

end Grammar

end Ferrotype
