import Ferrotype.Proofs.Grammar.Paths

/-! # Expressions in a longer file -/

namespace Ferrotype.Grammar

open Rule

variable {w : Frame} {ts : List Token} {ds : List Delim} {R R' : Rules}

/-! ## Operators -/

theorem adjacent_down (k : Nat) (t u : Token) : adjacent (t.down k) (u.down k) = adjacent t u := by
  rw [Bool.eq_iff_iff]
  simp [adjacent, Token.down]

theorem shiftAt?_fill (h : w.Sealed ts) : shiftAt? (w.fill ts) = shiftAt? ts := by
  match ts, h with
  | [], h => rw [Frame.fill_nil, h.nil]
  | [t], h =>
    rcases h.last with hw | ht
    · simp [hw, shiftAt?]
    · rcases Kind.endsItem_iff.1 ht with hk | hk | hk | hk
      all_goals
        rw [Frame.fill_cons, Frame.fill_nil]
        cases w.behind <;> simp [shiftAt?, hk]
  | t :: u :: us, _ =>
    have ha := adjacent_down w.above t u
    grind [shiftAt?, Frame.fill_cons, Token.down_kind]

theorem operatorAt?_fill (h : w.Sealed ts) : operatorAt? (w.fill ts) = operatorAt? ts := by
  simp only [operatorAt?, shiftAt?_fill h]
  cases ts with
  | nil => rw [Frame.fill_nil, h.nil]
  | cons t us => rfl

/-- The operators that an angle bracket is alone and twice. -/
inductive AngleOps : Punct → BinaryOp → BinaryOp → Prop where
  | lt : AngleOps .lt .lt .shl
  | gt : AngleOps .gt .gt .shr

theorem AngleOps.shift {m : Punct} {one op : BinaryOp} {t u : Token} (h : AngleOps m one op)
    (ht : t.kind = .punct m) (hu : u.kind = .punct m) (ha : adjacent t u = true)
    (us : List Token) : shiftAt? (t :: u :: us) = some op := by
  cases h <;> simp [shiftAt?, ht, hu, ha]

theorem shiftAt?_eq_some_iff {op : BinaryOp} : shiftAt? ts = some op ↔
    ∃ m one t u us, AngleOps m one op ∧ ts = t :: u :: us ∧ t.kind = .punct m ∧
      u.kind = .punct m ∧ adjacent t u = true := by
  constructor
  · intro h
    unfold shiftAt? at h
    split at h
    · next t u us =>
      split at h
      · next hk =>
        split at h
        · next hl =>
          cases h
          exact ⟨.lt, .lt, t, u, us, .lt, rfl, hl, hk.1.trans hl, hk.2⟩
        split at h
        · next hg =>
          cases h
          exact ⟨.gt, .gt, t, u, us, .gt, rfl, hg, hk.1.trans hg, hk.2⟩
        · cases h
      · cases h
    · cases h
  · rintro ⟨m, one, t, u, us, hm, rfl, ht, hu, ha⟩
    exact hm.shift ht hu ha us

theorem operatorAt?_reads {op : BinaryOp} {width : Nat} (h : operatorAt? ts = some (op, width))
    (ds : List Delim) : (Unmistakable ts → Reads ds ds ts (ts.drop width)) ∧
      (w.fill ts).drop width = w.fill (ts.drop width) := by
  unfold operatorAt? at h
  split at h
  · next op' hs =>
    cases h
    obtain ⟨m, -, t, u, us, -, rfl, ht, hu, -⟩ := shiftAt?_eq_some_iff.1 hs
    have hd : (Kind.punct m).isDelim = false := rfl
    exact ⟨fun _ => (Reads.plain (ht ▸ hd) ds _).trans (.plain (hu ▸ hd) ds us), rfl⟩
  · split at h
    · next t us _ =>
      split at h
      · cases h
      · obtain ⟨op', ho, hw⟩ := Option.map_eq_some_iff.1 h
        cases hw
        refine ⟨fun hs => ?_, rfl⟩
        cases hd : t.kind.isDelim with
        | false => exact .plain hd ds us
        | true =>
          rw [hs t List.mem_cons_self hd] at ho
          cases ho
    · cases h

/-! ## Operands -/

/-- Generic arguments in the form `::<`. -/
theorem turbofishArgs_follows (hR : R.Local R' w) (h : startsTurbofish ts = true) :
    Follows (do discard advance; discard (genericArgs R))
      (do discard advance; discard (genericArgs R')) w w.Sealed id ts ds ds := by
  obtain ⟨t, us, rfl, hk⟩ := head_of_startsTurbofish h
  exact .advanceThen (by rw [hk]; rfl) (.discard (genericArgs_local hR us ds))

theorem pathExpr_local (hR : R.Local R' w) : (pathExpr R).Local (pathExpr R') w id := by
  intro ts ds
  refine .bind (.accept rfl) fun leading ts => ?_
  refine .bind (Local.many (fun ts ds => ?_) ts ds) fun words ts => .pure rfl
  refine .bind (pathWord_local _ ts ds) fun word ts => ?_
  refine .ahead startsTurbofish_fill (.opt₂ (turbofishArgs_follows hR) fun ts => ?_)
  refine .ahead pathContinues_fill (.ite (fun h => ?_) fun _ => .pure rfl)
  obtain ⟨t, us, rfl, hk⟩ := head_of_pathContinues h
  exact .bind (.advance (by rw [hk]; rfl)) fun _ _ => .pure rfl

theorem callArgs_local (hR : R.Local R' w) : (callArgs R).Local (callArgs R') w id := by
  intro ts ds
  refine .bind (.discard (.expect rfl)) fun _ ts => ?_
  refine .bind (Local.commaList (hR.binary 1) ts _) fun arguments ts => ?_
  exact .bind (.discard (.expect (Kind.after_closer _ _))) fun _ _ => .pure rfl

theorem arrayElements_local (hR : R.Local R' w) :
    (arrayElements R).Local (arrayElements R') w id := by
  intro ts ds
  refine .bind (.discard (.expect rfl)) fun _ ts => ?_
  refine .acceptIte (Kind.after_closer _ _) (fun _ => .pure rfl) ?_
  refine .bind (hR.binary 1 ts _) fun first ts => ?_
  refine .join (fun h => .acceptIte rfl (fun ts => ?_)
    (.bind (Local.moreElements (hR.binary 1) ts _) h)) fun more ts => ?_
  · exact .bind (hR.binary 1 ts _) fun _ ts => .bind (.pure rfl) h
  exact .bind (.discard (.expect (Kind.after_closer _ _))) fun _ _ => .pure rfl

theorem after_of_literalKind {kind : Kind} {l : LiteralKind} (h : literalKind? kind = some l)
    (ds : List Delim) : kind.after ds = some ds := by
  cases kind <;> simp_all [literalKind?, Kind.after]

theorem stringLiteral_local : stringLiteral.Local stringLiteral w id := by
  intro ts ds
  refine .bindMap (.expect rfl) fun t ts => ?_
  simp only [Token.down_text]
  cases cookString t.text with
  | ok => exact .pure rfl
  | error => exact .throw

theorem startsBlock_fill (h : w.Sealed ts) : startsBlock (w.fill ts) = startsBlock ts := by
  cases ts with
  | nil => rw [Frame.fill_nil, h.nil]
  | cons t ts =>
    by_cases hk : t.kind.endsItem = true
    · rcases Kind.endsItem_iff.1 hk with hk | hk | hk | hk
      all_goals
        simp only [startsBlock, Frame.fill_cons, Token.down_kind, hk]
        rfl
    · have := (h.behind_of_not_end (by simpa using hk)).head_any (· == .opener .brace)
      simp [startsBlock, this]

theorem blockExpr_follows (h : startsBlock ts = true) :
    blockExpr.Follows blockExpr w w.Sealed id ts ds ds := by
  refine .isAt (.ite (fun _ => ?_) fun hb => ?_)
  · exact .bind .skipTree fun _ _ => .pure rfl
  · obtain ⟨t, us, rfl, hk⟩ : ∃ t us, ts = t :: us ∧
        (t.kind = .keyword .unsafeKw ∨ t.kind = .keyword .constKw) := by
      cases ts with
      | nil => cases h
      | cons t us => exact ⟨t, us, rfl, by simp_all [startsBlock, headIs]⟩
    have ha : t.kind.after ds = some ds := by rcases hk with hk | hk <;> rw [hk] <;> rfl
    refine .advanceThen ha ?_
    exact .bind .skipTree fun _ _ => .pure rfl

theorem primary_local (hR : R.Local R' w) : (primary R).Local (primary R') w id := by
  intro ts ds
  refine .isAt (.ite (fun _ => stringLiteral_local ts ds) fun _ => ?_)
  refine .head ?_
  cases hk : (ts.head?.map Token.kind).bind literalKind? with
  | some kind =>
    obtain ⟨k, hh, hl⟩ := Option.bind_eq_some_iff.1 hk
    obtain ⟨t, us, rfl, rfl⟩ := head_of_kind hh
    refine .nextText fun text => ?_
    exact .bind (.advance (after_of_literalKind hl _)) fun _ _ => .pure rfl
  | none =>
  refine .isAt (.ite (fun _ => Local.parenOrTuple (hR.binary 1) ts ds) fun _ => ?_)
  refine .isAt (.ite (fun _ => ?_) fun _ => ?_)
  · exact .bind (arrayElements_local hR ts ds) fun _ _ => .pure rfl
  refine .ahead startsBlock_fill (.ite blockExpr_follows fun _ => ?_)
  refine .ahead startsMacro_fill (.ite (fun _ => ?_) fun _ => ?_)
  · exact .bind (macroCall_local ts ds) fun _ _ => .pure rfl
  refine .nextIs (.ite (fun _ => pathExpr_local hR ts ds) fun _ => ?_)
  refine .isAt (.ite (fun _ => ?_) fun _ => .refuse)
  exact .bind (qualifiedPath_local hR ts ds) fun _ _ => .pure rfl

/-! ## Suffixes and operators -/

theorem memberName_local : memberName.Local memberName w id := by
  intro ts ds
  refine .nextIs (.ite (fun h => ?_) fun _ => .refuse)
  obtain ⟨t, us, rfl, ht⟩ := head_of_any (p := fun kind => kind == .identifier || kind == .int) h
  have ha : t.kind.after ds = some ds := by
    rcases by simpa using ht with hk | hk
    all_goals rw [hk]; rfl
  exact .nextText fun _ => .bind (.advance ha) fun _ _ => .pure rfl

theorem suffixTurn_local (hR : R.Local R' w) : (suffixTurn R).Local (suffixTurn R') w id := by
  intro ts ds
  refine .acceptIte rfl (fun ts => ?member) ?_
  case member =>
    refine .bind (memberName_local ts ds) fun name ts => ?_
    refine .ahead startsTurbofish_fill (.opt₂ (turbofishArgs_follows hR) fun ts => ?_)
    exact .pure rfl
  refine .isAt (.ite (fun _ => ?call) fun _ => ?_)
  case call => exact .bind (callArgs_local hR ts ds) fun _ _ => .pure rfl
  refine .acceptIte rfl (fun ts => ?index) ?_
  case index =>
    refine .bind (hR.binary 1 ts _) fun i ts => ?_
    exact .bind (.discard (.expect (Kind.after_closer _ _))) fun _ _ => .pure rfl
  exact .acceptIte rfl (fun _ => .pure rfl) (.pure rfl)

theorem suffixed_local (hR : R.Local R' w) : (suffixed R).Local (suffixed R') w id := by
  intro ts ds
  refine .bind (primary_local hR ts ds) fun e ts => ?_
  exact .bind (Local.many (suffixTurn_local hR) ts ds) fun _ _ => .pure rfl

theorem unaryTurn_local : unaryTurn.Local unaryTurn w id := by
  intro ts ds
  refine .acceptIte rfl (fun _ => .pure rfl) ?_
  refine .acceptIte rfl (fun _ => .pure rfl) ?_
  refine .acceptIte rfl (fun _ => .pure rfl) ?_
  refine .acceptIte rfl (fun ts => .bind (.accept rfl) fun _ _ => .pure rfl) ?_
  exact .acceptIte rfl (fun ts => .bind (.accept rfl) fun _ _ => .pure rfl) (.pure rfl)

theorem unary_local (hR : R.Local R' w) : (unary R).Local (unary R') w id := by
  intro ts ds
  refine .bind (Local.many unaryTurn_local ts ds) fun ops ts => ?_
  exact .bind (suffixed_local hR ts ds) fun _ _ => .pure rfl

theorem cast_local (hR : R.Local R' w) : (cast R).Local (cast R') w id := by
  intro ts ds
  refine .bind (unary_local hR ts ds) fun e ts => ?_
  refine .bind (Local.many (fun ts ds => ?_) ts ds) fun types ts => .pure rfl
  refine .acceptIte rfl (fun ts => ?_) (.pure rfl)
  exact .bind (hR.type false ts ds) fun _ _ => .pure rfl

theorem binary_local (hR : R.Local R' w) (least : Nat) :
    (binary R least).Local (binary R' least) w id := by
  intro ts ds
  refine .bind (cast_local hR ts ds) fun left ts => ?_
  refine .bind (Local.many (fun ts ds => ?_) ts ds) fun more ts => .pure rfl
  refine .getSame (fun hs => by simp only [operatorAt?_fill hs]) ?_
  cases ho : operatorAt? ts with
  | none => exact .pure rfl
  | some found =>
    obtain ⟨op, width⟩ := found
    obtain ⟨hr, hw⟩ := operatorAt?_reads (w := w) ho ds
    refine .ite (fun _ => ?_) fun _ => .pure rfl
    refine .modifyThen hr hw ?_
    exact .bind (hR.binary _ _ ds) fun _ _ => .pure rfl

end Ferrotype.Grammar
