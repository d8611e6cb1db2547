import Ferrotype.Proofs.Grammar.Operators
import Ferrotype.Proofs.Grammar.TypeWords

/-!
# Parts of types are read

Lists of types, integers and generic arguments are read from their words, wherever these stand.
What may stand behind a part depends on what it stands in.
-/

namespace Ferrotype

/-- Tokens that go on with a type behind which they stand. -/
def Kind.extendsType : Kind → Bool
  | .punct .lt | .punct .colonColon | .punct .bang | .punct .plus | .punct .arrow
  | .opener .paren => true
  | _ => false

namespace Grammar

open Rule

variable {R : Rules} {ts us rest : List Token} {t : Ty} {k : Token}

/-! ## What comes behind -/

/-- The type is complete. -/
def TypeDone (ts : List Token) : Prop := (ts.head?.any fun t => t.kind.extendsType) = false

theorem TypeDone.headIs (h : TypeDone ts) {kind : Kind} (hk : kind.extendsType = true) :
    headIs kind ts = false := headIs_of_any_eq_false h hk

theorem TypeDone.pathDone (h : TypeDone ts) : PathDone ts := ⟨h.headIs rfl, h.headIs rfl⟩

/-- An element of a list is complete: a comma follows, or the end of the list. -/
def ListEnd (closer : Kind) (ts : List Token) : Prop :=
  ∃ t us, ts = t :: us ∧ (t.kind = .punct .comma ∨ t.kind = closer)

theorem ListEnd.comma {closer : Kind} (p : Position) (ts : List Token) :
    ListEnd closer ((Word.mark .comma).token p :: ts) := ⟨_, _, rfl, .inl rfl⟩

theorem ListEnd.closed (w : Word) (p : Position) (ts : List Token) :
    ListEnd w.kind (w.token p :: ts) := ⟨_, _, rfl, .inr rfl⟩

theorem ListEnd.headIs {closer kind : Kind} (h : ListEnd closer ts) (hk : kind ≠ .punct .comma)
    (hc : kind ≠ closer) : headIs kind ts = false := by
  obtain ⟨t, us, rfl, ht⟩ := h
  rw [headIs_cons, beq_eq_false_iff_ne]
  rintro rfl
  exact ht.elim hk hc

theorem ListEnd.typeDone {closer : Kind} (h : ListEnd closer ts)
    (hc : closer.extendsType = false) : TypeDone ts := by
  obtain ⟨t, us, rfl, ht | ht⟩ := h
  · change t.kind.extendsType = false
    rw [ht]
    rfl
  · change t.kind.extendsType = false
    rw [ht, hc]

/-! ## Types as parts -/

/-- A type is read by a rule for types. -/
def TypeReads (x : Bool → Rule Ty) (t : Ty) : Prop :=
  ∀ allowPlus ts rest, Spells t.words ts → TypeDone rest → x allowPlus (ts ++ rest) = .ok (t, rest)

theorem first_token (h : t.Plain) (hs : Spells t.words ts) :
    ∃ k us, ts = k :: us ∧ k.kind.startsType = true := by
  obtain ⟨w, ws, hw, hk⟩ := h.first
  rw [hw] at hs
  obtain ⟨p, us, rfl, -⟩ := hs.cons
  exact ⟨_, us, rfl, hk⟩

theorem first_headIs (h : t.Plain) (hs : Spells t.words ts) {kind : Kind}
    (hk : kind.startsType = false) (rest : List Token) : headIs kind (ts ++ rest) = false := by
  obtain ⟨k, us, rfl, ht⟩ := first_token h hs
  exact headIs_apart Kind.startsType (by simp [ht, hk]) _

/-- A type in a list that ends with a closing bracket. -/
theorem TypeReads.piece (h : TypeReads R.type t) (hp : t.Plain) (d : Delim)
    (hs : Spells t.words us) : Piece (ListEnd (.closer d)) (.closer d) (R.type true) us t := by
  refine ⟨?_, fun rest hr => h true us rest hs (hr.typeDone rfl)⟩
  obtain ⟨k, vs, rfl, hk⟩ := first_token hp hs
  refine ⟨k, vs, rfl, ?_⟩
  rintro he
  rw [he] at hk
  cases hk

/-- Types between round brackets. -/
theorem types_read {ts : List Ty} (hp : ∀ t ∈ ts, t.Plain) (h : ∀ t ∈ ts, TypeReads R.type t)
    (hs : Spells (commaBetween (typesWords ts)) us) (q : Position) (rest : List Token) :
    commaList (.closer .paren) (R.type true) (us ++ (Word.closer .paren).token q :: rest) =
      .ok (ts, (Word.closer .paren).token q :: rest) := by
  rw [typesWords_eq] at hs
  obtain ⟨uss, hc, hu⟩ := spelled_between
    (fun t ht us hs => (h t ht).piece (hp t ht) .paren hs) hs
  rw [List.map_id'] at hu
  exact commaList_pieces ListEnd.comma (ListEnd.closed (.closer .paren)) (by rintro ⟨⟩) hc hu q rest

theorem arrowType_none (h : headIs (.punct .arrow) ts = false) :
    arrowType R ts = .ok (none, ts) := by
  unfold arrowType
  rw [bind_ok (accept_eq_false h)]
  rfl

theorem arrowType_some (h : TypeReads R.type t) (hs : Spells (outputWords (some t)) ts)
    (hr : TypeDone rest) : arrowType R (ts ++ rest) = .ok (some t, rest) := by
  rw [outputWords] at hs
  obtain ⟨p, us, rfl, hu⟩ := hs.cons
  unfold arrowType
  rw [List.cons_append, bind_ok (accept_mark _ _ _), if_pos rfl, bind_ok (h false us rest hu hr)]
  rfl

theorem arrowType_reads {output : Option Ty} (h : ∀ t ∈ output, TypeReads R.type t)
    (hs : Spells (outputWords output) ts) (hr : TypeDone rest) :
    arrowType R (ts ++ rest) = .ok (output, rest) := by
  cases output with
  | none =>
    obtain rfl := spells_nil.1 hs
    exact arrowType_none (hr.headIs rfl)
  | some t => exact arrowType_some (h t rfl) hs hr

/-! ## Integers -/

/-- An integer is read as an operand and as an expression. -/
structure IntegerReads (R : Rules) (e : Expr) : Prop where
  unary : ∀ ts rest, Spells e.words ts → Done rest → R.unary (ts ++ rest) = .ok (e, rest)
  binary : ∀ ts rest, Spells e.words ts → Stopped rest → R.binary 1 (ts ++ rest) = .ok (e, rest)

theorem unary_integer {e : Expr} (he : e.IsInteger) (hs : Spells e.words ts) (hr : Done rest) :
    unary R (ts ++ rest) = .ok (e, rest) := by
  have hl (value : String) : SuffixReads R (.literal value .int) :=
    (literal_reads R (by rintro ⟨⟩)).suffix
  cases he with
  | @plain value =>
    obtain ⟨p, rfl⟩ := hs.single
    exact (hl value).unary rfl rfl p rest hr
  | @negative value =>
    obtain ⟨p, us, rfl, hu⟩ := hs.cons
    obtain ⟨q, rfl⟩ := hu.single
    refine run_unary.2 ⟨[.neg], _, _, ?_,
      hl value q rest [] rest hr.pathDone (many_stop (suffixTurn_stop hr)), rfl⟩
    exact many_more rfl (Nat.lt_succ_self _) (many_stop (unaryTurn_stop rfl _))

theorem integer_reads (n : Nat) {e : Expr} (he : e.IsInteger) : IntegerReads (rules (n + 1)) e := by
  refine ⟨fun ts rest hs hr => unary_integer he hs hr, fun ts rest hs hr => ?_⟩
  exact run_binary.2 ⟨e, rest, [], cast_eq (unary_integer he hs hr.done) hr.done,
    binaryTurn_stop (hr.looser 1), rfl⟩

/-! ## Generic arguments -/

/-- A generic argument is read up to a comma or the closing angle bracket. -/
def ArgumentReads (R : Rules) (a : GenericArg) : Prop :=
  ∀ us, Spells a.words us → Piece (ListEnd (.punct .gt)) (.punct .gt) (genericArg R) us a

theorem startsConst_of_startsType {kind : Kind} (h : kind.startsType = true) :
    startsConst kind = false := by
  unfold Kind.startsType at h
  split at h
  any_goals rfl
  rcases Kind.isPathWord_iff.1 h with rfl | rfl | rfl | rfl | rfl <;> rfl

/-- A type argument is neither a name with a value nor one with bounds. -/
theorem genericArg_type (hk : k.kind.startsType = true)
    (he : k.kind = .identifier → headIs (.punct .eq) ts = false ∧
      headIs (.punct .colon) ts = false) :
    genericArg R (k :: ts) = (do return .type (← R.type true) : Rule GenericArg) (k :: ts) := by
  have hnext {kind : Kind} (h : headIs kind ts = false) :
      (k :: ts)[1]?.map Token.kind ≠ some kind := by
    cases ts with
    | nil => nofun
    | cons u us => simpa [headIs_cons] using h
  have hne {kind : Kind} (h : kind.startsType = false) : k.kind ≠ kind := by
    rintro rfl
    exact Bool.false_ne_true (h.symm.trans hk)
  unfold genericArg
  rw [bind_ok (run_kindAt.2 ⟨rfl, rfl⟩), bind_ok (run_kindAt.2 ⟨rfl, rfl⟩),
    if_neg, if_neg, if_neg, if_neg, if_neg]
  · rintro ⟨hi, hc⟩
    exact hnext (he (Option.some.inj hi)).2 hc
  · rintro ⟨hi, hc⟩
    exact hnext (he (Option.some.inj hi)).1 hc
  · simp [startsConst_of_startsType hk]
  · simpa using hne rfl
  · simpa using hne rfl

theorem headIs_extending {w : Word} {ws : List Word} {kind : Kind} (hs : Spells (w :: ws) ts)
    (hw : w.kind.extendsType = true) (hk : kind.extendsType = false) (rest : List Token) :
    headIs kind (ts ++ rest) = false := by
  obtain ⟨p, us, rfl, -⟩ := hs.cons
  exact headIs_apart Kind.extendsType (by simp [Word.token, hw, hk]) _

/-- Behind the name of a segment its arguments follow, a further segment, or what is behind it. -/
theorem headIs_behind_name {arguments : Arguments} {ss : List Segment} {kind : Kind}
    (hs : Spells (arguments.words ++ moreSegmentWords ss) ts) (hk : kind.extendsType = false)
    (hr : headIs kind rest = false) : headIs kind (ts ++ rest) = false := by
  cases arguments with
  | none =>
    cases ss with
    | nil =>
      obtain rfl := spells_nil.1 hs
      exact hr
    | cons s ss => exact headIs_extending hs rfl hk rest
  | angle => exact headIs_extending hs rfl hk rest
  | paren => exact headIs_extending hs rfl hk rest

/-- What is behind a name or underscore that a type starts with goes on with the type. -/
theorem headIs_second (h : t.Plain) (hs : Spells t.words (k :: ts))
    (hi : k.kind = .identifier ∨ k.kind = .underscore) {kind : Kind}
    (hk : kind.extendsType = false) (hr : headIs kind rest = false) :
    headIs kind (ts ++ rest) = false := by
  have hfirst {w : Word} {ws : List Word} (hw : t.words = w :: ws) :
      (w.kind = .identifier ∨ w.kind = .underscore) ∧ Spells ws ts := by
    rw [hw] at hs
    obtain ⟨p, us, ht, hs⟩ := hs.cons
    obtain ⟨rfl, rfl⟩ := List.cons.inj ht
    exact ⟨hi, hs⟩
  cases h with
  | @path leading segments hp ho =>
    cases leading with
    | true => rcases (hfirst rfl).1 with h | h <;> cases h
    | false =>
      obtain ⟨⟨name, arguments⟩, ss, rfl⟩ := List.exists_cons_of_ne_nil ho.ne_nil
      exact headIs_behind_name (hfirst rfl).2 hk hr
  | infer =>
    obtain rfl := spells_nil.1 (hfirst rfl).2
    exact hr
  | _ => rcases (hfirst rfl).1 with h | h <;> cases h

theorem TypeReads.argument (h : TypeReads R.type t) (hp : t.Plain) : ArgumentReads R (.type t) := by
  intro us hs
  obtain ⟨k, ts, rfl, hk⟩ := first_token hp hs
  refine ⟨⟨k, ts, rfl, ?_⟩, fun rest hr => ?_⟩
  · rintro he
    rw [he] at hk
    cases hk
  · have hread := h true (k :: ts) rest hs (hr.typeDone rfl)
    rw [List.cons_append] at hread ⊢
    rw [genericArg_type hk fun hi =>
      ⟨headIs_second hp hs (.inl hi) rfl (hr.headIs (by rintro ⟨⟩) (by rintro ⟨⟩)),
        headIs_second hp hs (.inl hi) rfl (hr.headIs (by rintro ⟨⟩) (by rintro ⟨⟩))⟩, bind_ok hread]
    rfl

theorem lifetime_argument (R : Rules) (name : String) : ArgumentReads R (.lifetime name) := by
  intro us hs
  obtain ⟨p, rfl⟩ := hs.single
  exact ⟨⟨_, _, rfl, by rintro ⟨⟩⟩, fun rest _ => rfl⟩

theorem TypeReads.binding (h : TypeReads R.type t) (name : String) :
    ArgumentReads R (.binding name t) := by
  intro us hs
  obtain ⟨p, us, rfl, hu⟩ := hs.cons
  obtain ⟨q, vs, rfl, hv⟩ := hu.cons
  refine ⟨⟨_, _, rfl, by rintro ⟨⟩⟩, fun rest hr => ?_⟩
  have hstep (ts : List Token) :
      genericArg R ((nameWord name).token p :: (Word.mark .eq).token q :: ts) =
        (do return .binding name (← R.type true) : Rule GenericArg) ts := rfl
  rw [List.cons_append, List.cons_append, hstep, bind_ok (h true vs rest hv (hr.typeDone rfl))]
  rfl

theorem IntegerReads.argument {e : Expr} (h : IntegerReads R e) (he : e.IsInteger) :
    ArgumentReads R (.const e) := by
  intro us hs
  have hstep : ∃ k vs, us = k :: vs ∧ (k.kind = .int ∨ k.kind = .punct .minus) := by
    cases he with
    | plain =>
      obtain ⟨p, vs, rfl, -⟩ := hs.cons
      exact ⟨_, _, rfl, .inl rfl⟩
    | negative =>
      obtain ⟨p, vs, rfl, -⟩ := hs.cons
      exact ⟨_, _, rfl, .inr rfl⟩
  obtain ⟨⟨kind, text, place⟩, vs, rfl, hk⟩ := hstep
  have hconst (ts : List Token) : genericArg R (⟨kind, text, place⟩ :: ts) =
      (do return .const (← R.unary) : Rule GenericArg) (⟨kind, text, place⟩ :: ts) := by
    obtain rfl | rfl : kind = .int ∨ kind = .punct .minus := hk
    · rfl
    · rfl
  refine ⟨⟨_, _, rfl, ?_⟩, fun rest hr => ?_⟩
  · rintro hg
    rcases hk with hk | hk <;> cases hk.symm.trans hg
  · have hd : Done rest := by
      obtain ⟨t, ts, rfl, ht⟩ := hr
      change t.kind.continues = false
      rcases ht with ht | ht <;> rw [ht] <;> rfl
    rw [List.cons_append, hconst, ← List.cons_append, bind_ok (h.unary _ rest hs hd)]
    rfl

theorem genericArgs_reads {arguments : List GenericArg} (h : ∀ a ∈ arguments, ArgumentReads R a)
    (hs : Spells (Arguments.angle arguments).words ts) (rest : List Token) :
    genericArgs R (ts ++ rest) = .ok (arguments, rest) := by
  rw [Arguments.words, argumentsWords_eq] at hs
  obtain ⟨p, vs, rfl, hv⟩ := hs.cons
  obtain ⟨us, q, rfl, hu⟩ := hv.snoc
  obtain ⟨uss, hc, hp⟩ := spelled_between h hu
  rw [List.map_id'] at hp
  have hlist : strictCommaList (.punct .gt) .argumentEnd (genericArg R)
      (us ++ (Word.mark .gt).token q :: rest) = .ok (arguments, (Word.mark .gt).token q :: rest) :=
    strictCommaList_pieces ListEnd.comma (ListEnd.closed (.mark .gt)) (by rintro ⟨⟩) hc hp q rest
  unfold genericArgs
  rw [List.cons_append, bind_ok (expect_mark _ _ _ _), List.append_assoc]
  exact bind_ok hlist _

end Grammar

end Ferrotype
