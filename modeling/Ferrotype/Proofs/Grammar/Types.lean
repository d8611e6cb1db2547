import Ferrotype.Proofs.Grammar.Exprs

/-!
# Types in a longer file

With the rules for types, the rules of every layer are known to read what they read wherever it
stands.
-/

namespace Ferrotype

/-! ## Attributes -/

def Attribute.down (k : Nat) (a : Attribute) : Attribute := { a with line := a.line + k }

namespace Grammar

open Rule

variable {w : Frame} {ts : List Token} {ds : List Delim} {R R' : Rules}

theorem attributeMeta_local (hR : R.Local R' w) (style : DocStyle) (line : Nat) :
    (attributeMeta R style line).Local (attributeMeta R' style (line + w.above)) w
      (Attribute.down w.above) := by
  intro ts ds
  refine .bind (simplePath_local ts ds) fun path ts => ?_
  refine .isAt (.ite (fun h => ?_) fun _ => ?_)
  · obtain ⟨t, us, rfl, hk⟩ := head_of_any (p := (· == .punct .eq)) h
    have ha : t.kind.after ds = some ds := by rw [beq_iff_eq.1 hk]; rfl
    refine .bind (.withText (.advanceThen ha (hR.binary 1 us ds))) fun r ts => .pure rfl
  refine .nextIs (.ite (fun _ => ?_) fun _ => .pure rfl)
  exact .bind (.withText .skipTree) fun r ts => .pure rfl

theorem startsUnsafe_fill (h : w.Sealed ts) : startsUnsafe (w.fill ts) = startsUnsafe ts := by
  refine h.pair (fun _ => rfl) (fun _ _ _ => rfl) (fun t ht => ?_) fun _ => ⟨rfl, rfl⟩
  rcases by simpa using ht with hk | ⟨hk, -⟩
  all_goals rw [hk]; rfl

theorem head_of_startsUnsafe (h : startsUnsafe ts = true) :
    ∃ t u us, ts = t :: u :: us ∧ t.kind.isDelim = false ∧ u.kind = .opener .paren := by
  unfold startsUnsafe at h
  split at h
  · next t u us =>
    simp only [Bool.and_eq_true, Bool.or_eq_true, beq_iff_eq] at h
    refine ⟨t, u, us, rfl, ?_, h.2⟩
    rcases h.1 with hk | ⟨hk, -⟩
    all_goals rw [hk]; rfl
  · cases h

theorem attributeBody_ends (hR : R.Local R' w) (style : DocStyle) :
    (attributeBody R style).Ends (attributeBody R' style) w (Attribute.down w.above) := by
  intro ts ds
  refine .bindMap (.expect rfl) fun t ts => ?_
  refine .ahead startsUnsafe_fill (.ite (fun h => ?_) fun _ => ?_)
  · obtain ⟨u, v, us, rfl, hu, hv⟩ := head_of_startsUnsafe h
    refine .advanceThen (Kind.after_of_not_delim hu _) (.advanceThen (by rw [hv]; rfl) ?_)
    refine .bindMap (attributeMeta_local hR style _ us _) fun a ts => ?_
    refine .bind (.discard (.expect (Kind.after_closer _ _))) fun _ ts => ?_
    exact .bindPure (.discard (.expectEnd (Kind.after_closer _ _) rfl)) fun _ => rfl
  · refine .bindMap (attributeMeta_local hR style _ ts _) fun a ts => ?_
    exact .bindPure (.discard (.expectEnd (Kind.after_closer _ _) rfl)) fun _ => rfl

/-! ### Kinds at the start of a list -/

theorem startsWith_cons (kind : Kind) (kinds : List Kind) (t : Token) (ts : List Token) :
    startsWith (kind :: kinds) (t :: ts) = (t.kind == kind && startsWith kinds ts) := by
  simp only [startsWith, List.length_cons, List.take_succ_cons, List.map_cons]
  rfl

theorem startsWith_fill {kinds : List Kind} (hk : ∀ kind ∈ kinds, kind.endsItem = false)
    (h : w.Sealed ts) : startsWith kinds (w.fill ts) = startsWith kinds ts := by
  induction kinds generalizing ts with
  | nil => simp [startsWith]
  | cons kind kinds ih =>
    simp only [List.mem_cons, forall_eq_or_imp] at hk
    cases ts with
    | nil => rw [Frame.fill_nil, h.nil]
    | cons t ts =>
      rw [Frame.fill_cons, startsWith_cons, startsWith_cons, Token.down_kind]
      by_cases ht : t.kind = kind
      · rw [ih hk.2 (h.behind_of_not_end (ht ▸ hk.1))]
      · rw [beq_false_of_ne ht, Bool.false_and, Bool.false_and]

/-- The tokens at the start are dropped. -/
theorem startsWith_reads {kinds more : List Kind} {es : List Delim}
    (hk : kinds.foldlM Kind.after ds = some es) (h : startsWith (kinds ++ more) ts = true) :
    Reads ds es ts (ts.drop kinds.length) ∧
      (w.fill ts).drop kinds.length = w.fill (ts.drop kinds.length) := by
  induction kinds generalizing ts ds with
  | nil =>
    cases hk
    exact ⟨.refl _ ts, rfl⟩
  | cons kind kinds ih =>
    obtain ⟨ds', hd, hk⟩ := Option.bind_eq_some_iff.1 hk
    cases ts with
    | nil => cases h
    | cons t ts =>
      rw [List.cons_append, startsWith_cons, Bool.and_eq_true, beq_iff_eq] at h
      obtain ⟨hr, hf⟩ := ih hk h.2
      exact ⟨(Reads.token (by rw [h.1, hd]) ts).trans hr, hf⟩

/-- One attribute or doc comment, as `attributes` reads them. -/
def attributeTurn (R : Rules) (style : DocStyle) (marks : List Kind) : Rule (Turn Attribute) := do
  match ← get with
  | t :: ts =>
    if t.kind = .doc style then
      set ts
      return .more (docAttribute style t)
    else if startsWith (marks ++ [.opener .bracket]) (t :: ts) then
      modify (List.drop marks.length)
      return .more (← attributeBody R style)
    else return .stop
  | [] => return .stop

theorem attributeTurn_local (hR : R.Local R' w) (style : DocStyle) {marks : List Kind}
    (hm : ∀ ds, marks.foldlM Kind.after ds = some ds)
    (he : ∀ kind ∈ marks ++ [.opener .bracket], kind.endsItem = false) :
    (attributeTurn R style marks).Local (attributeTurn R' style marks) w
      (Turn.map (Attribute.down w.above)) := by
  intro ts ds
  cases ts with
  | nil => exact .getSame (fun hs => by rw [Frame.fill_nil, hs.nil]) (.pure rfl)
  | cons t ts =>
  refine .getThen ?_
  simp only [Frame.fill_cons, Token.down_kind]
  refine .ite (fun hk => ?doc) fun _ => ?_
  case doc =>
    have ha : t.kind.after ds = some ds := by rw [hk]; rfl
    exact .setThen (fun _ => .token ha ts) rfl (.pure rfl)
  refine .iteSame (fun hs => ?_) (fun h => ?_) fun _ => .pure rfl
  · rw [← Frame.fill_cons, startsWith_fill he hs]
  · obtain ⟨hr, hd⟩ := startsWith_reads (w := w) (hm ds) h
    refine .modifyThen (fun _ => hr) hd ?_
    exact .bindMap ((attributeBody_ends hR style).local _ ds) fun _ _ => .pure rfl

theorem outerAttributes_local (hR : R.Local R' w) :
    (outerAttributes R).Local (outerAttributes R') w (List.map (Attribute.down w.above)) :=
  .manyMap (attributeTurn_local hR .outer (fun _ => rfl) (by simp [Kind.endsItem]))

theorem innerAttributes_local (hR : R.Local R' w) :
    (innerAttributes R).Local (innerAttributes R') w (List.map (Attribute.down w.above)) :=
  .manyMap (attributeTurn_local hR .inner (fun _ => rfl) (by simp [Kind.endsItem]))

/-! ## Generic parameters and bounds -/

theorem parameterName_local : parameterName.Local parameterName w id := by
  intro ts ds
  refine .isAt (.ite (fun h => ?_) fun _ => ?_)
  · obtain ⟨t, us, rfl, hk⟩ := head_of_any (p := (· == .lifetime)) h
    have ha : t.kind.after ds = some ds := by rw [beq_iff_eq.1 hk]; rfl
    exact .nextText fun _ => .bind (.advance ha) fun _ _ => .pure rfl
  · refine .bind (.discard (.accept rfl)) fun _ ts => ?_
    exact .bindMap (.expect rfl) fun _ _ => .pure rfl

theorem expectName_local : expectName.Local expectName w id :=
  fun _ _ => .bindMap (.expect rfl) fun _ _ => .pure rfl

theorem generics_local (hR : R.Local R' w) : (generics R).Local (generics R') w id := by
  intro ts ds
  refine .acceptIte rfl (fun ts => ?_) (.pure rfl)
  refine .bind (Local.strictCommaList (fun ts ds => ?_) ts ds) fun names ts => ?_
  · refine .bind (.discard (outerAttributes_local hR ts ds)) fun _ ts => ?_
    refine .bind (parameterName_local ts ds) fun name ts => ?_
    refine .bind (.dropping (fun _ _ => dropParameterRest_reads)
      fun _ _ => dropParameterRest_fill) fun _ _ => .pure rfl
  · exact .bind (.discard (.expect rfl)) fun _ _ => .pure rfl

theorem bound_local (hR : R.Local R' w) : (bound R).Local (bound R') w id := by
  intro ts ds
  refine .acceptIte rfl (fun _ => .pure rfl) ?_
  refine .acceptIte rfl (fun ts => ?_) ?_
  · refine .bind (.discard (hR.bounds ts _)) fun _ ts => ?_
    exact .discard (.expect (Kind.after_closer _ _))
  refine .nextIs (.opt₂ (fun h => ?_) fun ts => ?_)
  · obtain ⟨t, us, rfl, ht⟩ := head_of_any
      (p := fun kind => kind == .punct .question || kind == .punct .tilde) h
    have ha : t.kind.after ds = some ds := by
      rcases by simpa using ht with hk | hk
      all_goals rw [hk]; rfl
    exact .advanceThen ha (.discard (.accept rfl))
  refine .acceptIte rfl (fun ts => ?_) (.discard (typePath_local hR ts ds))
  exact .bind (.discard (generics_local hR ts ds)) fun _ ts => .discard (typePath_local hR ts ds)

theorem bounds_local (hR : R.Local R' w) (allowPlus : Bool) :
    (bounds R allowPlus).Local (bounds R' allowPlus) w id := by
  refine .many fun ts ds => .bind (.withText (bound_local hR ts ds)) fun r ts => ?_
  refine .ite (fun _ => ?_) fun _ => .pure rfl
  refine .acceptIte rfl (fun ts => ?_) (.pure rfl)
  exact .nextIs (.ite (fun _ => .pure rfl) fun _ => .pure rfl)

/-! ## Types -/

theorem fnQualifiers_local : fnQualifiers.Local fnQualifiers w id := by
  refine .many fun ts ds => .head (.nextText fun word => ?_)
  refine .ite (fun h => ?_) fun _ => ?_
  · rcases h with h | h | h
    all_goals
      obtain ⟨t, us, rfl, hk⟩ := head_of_kind h
      exact .bind (.advance (by rw [hk]; rfl)) fun _ _ => .pure rfl
  refine .ite (fun h => ?_) fun _ => .pure rfl
  obtain ⟨t, us, rfl, hk⟩ := head_of_kind h
  refine .advanceThen (by rw [hk]; rfl) ?_
  exact .bind (.discard (.accept rfl)) fun _ _ => .pure rfl

theorem startsNamed_fill (h : w.Sealed ts) : startsNamed (w.fill ts) = startsNamed ts := by
  refine h.pair (fun _ => rfl) (fun _ _ _ => rfl) (fun t ht => ?_) fun _ => ⟨rfl, rfl⟩
  rcases by simpa using ht with hk | hk
  all_goals rw [hk]; rfl

theorem bareParam_local (hR : R.Local R' w) : (bareParam R).Local (bareParam R') w id := by
  intro ts ds
  refine .bind (.discard (outerAttributes_local hR ts ds)) fun _ ts => ?_
  refine .acceptIte rfl (fun _ => .pure rfl) ?_
  refine .ahead startsNamed_fill (.opt₂ (fun h => ?_) fun ts => ?_)
  · unfold startsNamed at h
    split at h
    · next t u us =>
      simp only [Bool.and_eq_true, Bool.or_eq_true, beq_iff_eq] at h
      have ha : t.kind.after ds = some ds := by
        rcases h.1 with hk | hk
        all_goals rw [hk]; rfl
      exact .advanceThen ha (.advance (by rw [h.2]; rfl))
    · cases h
  · exact .bind (hR.type true ts ds) fun _ _ => .pure rfl

theorem bareFn_local (hR : R.Local R' w) : (bareFn R).Local (bareFn R') w id := by
  intro ts ds
  refine .bind (.discard (fnQualifiers_local ts ds)) fun _ ts => ?_
  refine .bind (.discard (.expect rfl)) fun _ ts => ?_
  refine .bind (.discard (.expect rfl)) fun _ ts => ?_
  refine .bind (Local.commaList (bareParam_local hR) ts _) fun inputs ts => ?_
  refine .bind (.discard (.expect (Kind.after_closer _ _))) fun _ ts => ?_
  exact .bind (arrowType_local hR ts ds) fun _ _ => .pure rfl

theorem referenceRest_local (hR : R.Local R' w) :
    (referenceRest R).Local (referenceRest R') w id := by
  intro ts ds
  refine .isAt (.join (fun h => .ite (fun hl => ?_) fun _ => .bind (.pure rfl) h)
    fun lifetime ts => ?_)
  · obtain ⟨t, us, rfl, hk⟩ := head_of_any (p := (· == .lifetime)) hl
    have ha : t.kind.after ds = some ds := by rw [beq_iff_eq.1 hk]; rfl
    exact .nextText fun _ => .advanceThen ha (.bind (.pure rfl) h)
  · refine .bind (.accept rfl) fun mutable ts => ?_
    exact .bind (hR.type false ts ds) fun _ _ => .pure rfl

theorem pointerRest_local (hR : R.Local R' w) : (pointerRest R).Local (pointerRest R') w id := by
  intro ts ds
  refine .acceptIte rfl (fun ts => .bind (hR.type false ts ds) fun _ _ => .pure rfl) ?_
  exact .acceptIte rfl (fun ts => .bind (hR.type false ts ds) fun _ _ => .pure rfl) .refuse

theorem sliceOrArray_local (hR : R.Local R' w) :
    (sliceOrArray R).Local (sliceOrArray R') w id := by
  intro ts ds
  refine .bind (.discard (.expect rfl)) fun _ ts => ?_
  refine .bind (hR.type true ts _) fun element ts => ?_
  refine .acceptIte rfl (fun ts => ?_) ?_
  · refine .bind (hR.binary 1 ts _) fun length ts => ?_
    exact .bind (.discard (.expect (Kind.after_closer _ _))) fun _ _ => .pure rfl
  · exact .bind (.discard (.expect (Kind.after_closer _ _))) fun _ _ => .pure rfl

theorem pathOrBounds_local (hR : R.Local R' w) (allowPlus : Bool) :
    (pathOrBounds R allowPlus).Local (pathOrBounds R' allowPlus) w id := by
  intro ts ds
  refine .bind (.withText (typePath_local hR ts ds)) fun r ts => ?_
  refine .ite (fun _ => ?_) fun _ => .pure rfl
  refine .acceptIte rfl (fun ts => ?_) (.pure rfl)
  exact .bind (bounds_local hR true ts ds) fun _ _ => .pure rfl

theorem type_local (hR : R.Local R' w) (allowPlus : Bool) :
    (type R allowPlus).Local (type R' allowPlus) w id := by
  intro ts ds
  refine .isAt (.ite (fun _ => Local.parenOrTuple (hR.type true) ts ds) fun _ => ?_)
  refine .isAt (.ite (fun _ => sliceOrArray_local hR ts ds) fun _ => ?_)
  refine .acceptIte rfl (fun ts => referenceRest_local hR ts ds) ?_
  refine .acceptIte rfl (fun ts => ?andAnd) ?_
  case andAnd => exact .bind (referenceRest_local hR ts ds) fun _ _ => .pure rfl
  refine .acceptIte rfl (fun ts => pointerRest_local hR ts ds) ?_
  refine .acceptIte rfl (fun _ => .pure rfl) ?_
  refine .acceptIte rfl (fun _ => .pure rfl) ?_
  refine .acceptIte rfl (fun ts => ?dyn) ?_
  case dyn => exact .bind (bounds_local hR _ ts ds) fun _ _ => .pure rfl
  refine .acceptIte rfl (fun ts => ?impl) ?_
  case impl => exact .bind (bounds_local hR _ ts ds) fun _ _ => .pure rfl
  refine .acceptIte rfl (fun ts => ?higher) ?_
  case higher => exact .bind (.discard (generics_local hR ts ds)) fun _ ts => hR.type _ ts ds
  refine .nextIs (.ite (fun _ => bareFn_local hR ts ds) fun _ => ?_)
  refine .isAt (.ite (fun _ => ?qualified) fun _ => ?_)
  case qualified => exact .bind (qualifiedPath_local hR ts ds) fun _ _ => .pure rfl
  refine .ahead startsMacro_fill (.ite (fun _ => ?call) fun _ => ?_)
  case call => exact .bind (macroCall_local ts ds) fun _ _ => .pure rfl
  exact .nextIs (.ite (fun _ => pathOrBounds_local hR _ ts ds) fun _ => .refuse)

end Grammar

/-! ## The layers of rules -/

/-- A layer of rules is followed by any layer above it. -/
theorem rules_local (w : Frame) {n m : Nat} (h : n ≤ m) : (rules n).Local (rules m) w := by
  induction n generalizing m with
  | zero =>
    constructor
    all_goals intros; intro ts ds; exact .throw
  | succ n ih =>
    obtain ⟨m, rfl⟩ : ∃ k, m = k + 1 := ⟨m - 1, by omega⟩
    have hR := ih (by omega : n ≤ m)
    exact ⟨Grammar.type_local hR, Grammar.bounds_local hR true, Grammar.unary_local hR,
      Grammar.binary_local hR⟩

/-- A rule of the whole grammar is local if it is so in every layer. -/
theorem Rule.whole_local {w : Frame} {rule : Rules → Rule α} {p : α → α}
    (h : ∀ {R R' : Rules}, R.Local R' w → (rule R).Local (rule R') w p) :
    (Rule.whole rule).Local (Rule.whole rule) w p := by
  intro ts ds hsp a rest ha
  have hle : ts.length ≤ (w.fill ts).length := by simp [Frame.length_fill]
  exact h (rules_local w hle) ts ds hsp a rest ha

end Ferrotype
