import Ferrotype.Proofs.Grammar.Follows

/-!
# Paths in a longer file

Each rule follows its steps; the rules for the parts are assumed to do so.
-/

namespace Ferrotype

/-- The rules for the parts, and those for the parts in the frame. -/
structure Rules.Local (R R' : Rules) (w : Frame) : Prop where
  type (allowPlus : Bool) : (R.type allowPlus).Local (R'.type allowPlus) w id
  bounds : R.bounds.Local R'.bounds w id
  unary : R.unary.Local R'.unary w id
  binary (least : Nat) : (R.binary least).Local (R'.binary least) w id

namespace Grammar

open Rule

variable {w : Frame} {ts : List Token} {ds : List Delim} {R R' : Rules}

/-! ## Lookahead -/

theorem not_endsItem_of_isPathWord {kind : Kind} (h : kind.isPathWord = true) :
    kind.endsItem = false := by
  cases kind <;> simp_all [Kind.isPathWord, Kind.endsItem]

theorem after_of_isPathWord {kind : Kind} (h : kind.isPathWord = true) (ds : List Delim) :
    kind.after ds = some ds := by
  cases kind <;> simp_all [Kind.isPathWord, Kind.after]

theorem pathContinues_fill (h : w.Sealed ts) : pathContinues (w.fill ts) = pathContinues ts :=
  h.pair (fun _ => rfl) (fun _ _ _ => rfl) (by simp +contextual [Kind.endsItem]) fun _ => ⟨rfl, rfl⟩

theorem startsTurbofish_fill (h : w.Sealed ts) :
    startsTurbofish (w.fill ts) = startsTurbofish ts :=
  h.pair (fun _ => rfl) (fun _ _ _ => rfl) (by simp +contextual [Kind.endsItem]) fun _ => ⟨rfl, rfl⟩

theorem dropPathWords_fill (h : w.Sealed ts) :
    dropPathWords (w.fill ts) = w.fill (dropPathWords ts) ∧ w.Sealed (dropPathWords ts) := by
  fun_induction dropPathWords ts with
  | case1 => simp [h.nil, Frame.fill, dropPathWords, Frame.Sealed]
  | case2 t ht =>
    have hw := h.behind_of_not_end (not_endsItem_of_isPathWord ht)
    simp [hw.nil, Frame.fill, dropPathWords, ht, Frame.Sealed]
  | case3 t ht =>
    refine ⟨?_, h⟩
    simp only [Frame.fill_cons, Frame.fill_nil]
    cases w.behind <;> simp [dropPathWords, ht]
  | case4 t c ts ht hc ih =>
    have hs := h.tail.behind_of_not_end (by simp [hc, Kind.endsItem])
    simpa [dropPathWords, ht, hc] using ih hs
  | case5 t c ts ht hc =>
    refine ⟨?_, h.tail⟩
    simp [dropPathWords, ht, hc]
  | case6 t c ts ht =>
    refine ⟨?_, h⟩
    simp [dropPathWords, ht]

theorem startsMacro_fill (h : w.Sealed ts) : startsMacro (w.fill ts) = startsMacro ts := by
  cases ts with
  | nil => rw [Frame.fill_nil, h.nil]
  | cons t ts =>
    by_cases hc : t.kind = .punct .colonColon
    · obtain ⟨he, hs⟩ := dropPathWords_fill (h.behind_of_not_end (by simp [hc, Kind.endsItem]))
      simp only [startsMacro, Frame.fill_cons, Token.down_kind, hc, if_true, he]
      exact hs.head_any (· == .punct .bang)
    · by_cases hp : t.kind.isPathWord = true
      · obtain ⟨he, hs⟩ := dropPathWords_fill h
        rw [Frame.fill_cons] at he
        simp only [startsMacro, Frame.fill_cons, Token.down_kind, hc, hp, if_true, if_false, he]
        exact hs.head_any (· == .punct .bang)
      · simp [startsMacro, hc, hp]

/-- The head of a list, from a test of its kind. -/
theorem head_of_any {p : Kind → Bool} (h : (ts.head?.any fun t => p t.kind) = true) :
    ∃ t us, ts = t :: us ∧ p t.kind = true := by
  cases ts with
  | nil => cases h
  | cons t us => exact ⟨t, us, rfl, h⟩

theorem head_of_pathContinues (h : pathContinues ts = true) :
    ∃ t us, ts = t :: us ∧ t.kind = .punct .colonColon := by
  unfold pathContinues at h
  split at h
  · simp_all
  · cases h

theorem head_of_startsTurbofish (h : startsTurbofish ts = true) :
    ∃ t us, ts = t :: us ∧ t.kind = .punct .colonColon := by
  unfold startsTurbofish at h
  split at h
  · simp_all
  · cases h

/-! ## Paths -/

theorem pathWord_local (fault : Expectation) : (pathWord fault).Local (pathWord fault) w id := by
  intro ts ds
  refine .nextIs (.ite (fun h => ?_) fun _ => .refuse)
  obtain ⟨t, us, rfl, ht⟩ := head_of_any h
  refine .nextText fun _ => .bind (.advance (after_of_isPathWord ht ds)) fun _ _ => .pure rfl

theorem simplePath_local : simplePath.Local simplePath w id := by
  intro ts ds
  refine .bind (.accept rfl) fun leading ts => ?_
  refine .bind (Local.many (fun ts ds => ?_) ts ds) fun words ts => .pure rfl
  refine .bind (pathWord_local _ ts ds) fun word ts => ?_
  refine .ahead pathContinues_fill (.ite (fun h => ?_) fun _ => .pure rfl)
  obtain ⟨t, us, rfl, ht⟩ := head_of_pathContinues h
  exact .bind (.advance (by rw [ht]; rfl)) fun _ _ => .pure rfl

theorem macroCall_local : macroCall.Local macroCall w id := by
  intro ts ds
  refine .bind (simplePath_local ts ds) fun name ts => ?_
  refine .bind (.discard (.expect rfl)) fun _ ts => ?_
  refine .nextIs (.ite (fun _ => ?_) fun _ => .refuse)
  exact .bind .skipTree fun _ _ => .pure rfl

/-! ## Generic arguments -/

theorem head_of_kind {kind : Kind} (h : ts.head?.map Token.kind = some kind) :
    ∃ t us, ts = t :: us ∧ t.kind = kind := by
  cases ts with
  | nil => cases h
  | cons t us => exact ⟨t, us, rfl, by simpa using h⟩

theorem pair_of_kinds {kind next : Kind} (h : ts.head?.map Token.kind = some kind)
    (hn : ts[1]?.map Token.kind = some next) :
    ∃ t u us, ts = t :: u :: us ∧ t.kind = kind ∧ u.kind = next := by
  obtain ⟨t, us, rfl, ht⟩ := head_of_kind h
  cases us with
  | nil => cases hn
  | cons u us => exact ⟨t, u, us, rfl, ht, by simpa using hn⟩

theorem genericArg_local (hR : R.Local R' w) : (genericArg R).Local (genericArg R') w id := by
  intro ts ds
  have ht := hR.type true
  refine .head ?_
  by_cases he : ∃ t, ts.head? = some t ∧ t.kind.endsItem = true
  case pos =>
    -- What ends an item starts a type, and is refused there.
    obtain ⟨t, hh, he⟩ := he
    refine .second_any fun next next' => ?_
    rcases Kind.endsItem_iff.1 he with hk | hk | hk | hk
    all_goals
      simp only [hh, hk, Option.map_some, Option.any_some, startsConst, Option.some.injEq,
        reduceCtorEq, Bool.false_eq_true, false_and, if_false]
      exact .bind (ht ts ds) fun _ _ => .pure rfl
  refine .second (fun t hh => by simpa [hh] using he) ?_
  refine .ite (fun h => ?_) fun _ => ?_
  · obtain ⟨t, us, rfl, hk⟩ := head_of_kind h
    exact .nextText fun _ => .bind (.advance (by rw [hk]; rfl)) fun _ _ => .pure rfl
  refine .ite (fun h => .bind .skipTree fun _ _ => .pure rfl) fun _ => ?_
  refine .ite (fun h => .bind (hR.unary ts ds) fun _ _ => .pure rfl) fun _ => ?_
  refine .ite (fun h => ?_) fun _ => ?_
  · obtain ⟨t, u, us, rfl, hk, hk'⟩ := pair_of_kinds h.1 h.2
    refine .nextText fun _ => .advanceThen (by rw [hk]; rfl) ?_
    refine .advanceThen (by rw [hk']; rfl) ?_
    exact .bind (ht us ds) fun _ _ => .pure rfl
  refine .ite (fun h => ?_) fun _ => .bind (ht ts ds) fun _ _ => .pure rfl
  obtain ⟨t, u, us, rfl, hk, hk'⟩ := pair_of_kinds h.1 h.2
  refine .nextText fun _ => .advanceThen (by rw [hk]; rfl) ?_
  refine .advanceThen (by rw [hk']; rfl) ?_
  exact .bind (.discard (hR.bounds us ds)) fun _ _ => .pure rfl

theorem genericArgs_local (hR : R.Local R' w) : (genericArgs R).Local (genericArgs R') w id := by
  intro ts ds
  refine .bind (.discard (.expect rfl)) fun _ ts => ?_
  refine .bind (Local.strictCommaList (genericArg_local hR) ts ds) fun arguments ts => ?_
  exact .bind (.discard (.expect rfl)) fun _ _ => .pure rfl

theorem arrowType_local (hR : R.Local R' w) : (arrowType R).Local (arrowType R') w id := by
  intro ts ds
  refine .acceptIte rfl (fun ts => ?_) (.pure rfl)
  exact .bind (hR.type false ts ds) fun _ _ => .pure rfl

/-- A step over `::`, if generic arguments follow in this form. -/
theorem turbofish_follows (h : startsTurbofish ts = true) :
    (discard advance : Rule PUnit).Follows (discard advance) w w.Sealed id ts ds ds := by
  obtain ⟨t, us, rfl, hk⟩ := head_of_startsTurbofish h
  exact .advance (by rw [hk]; rfl)

theorem segment_local (hR : R.Local R' w) : (segment R).Local (segment R') w id := by
  intro ts ds
  refine .bind (pathWord_local _ ts ds) fun name ts => ?_
  refine .ahead startsTurbofish_fill (.opt turbofish_follows fun ts => ?_)
  refine .isAt (.ite (fun _ => ?_) fun _ => ?_)
  · exact .bind (genericArgs_local hR ts ds) fun _ _ => .pure rfl
  refine .acceptIte rfl (fun ts => ?_) (.pure rfl)
  refine .bind (Local.commaList (hR.type true) ts _) fun inputs ts => ?_
  refine .bind (.discard (.expect (Kind.after_closer _ _))) fun _ ts => ?_
  exact .bind (arrowType_local hR ts ds) fun _ _ => .pure rfl

theorem segments_local (hR : R.Local R' w) : (segments R).Local (segments R') w id := by
  refine .many fun ts ds => .bind (segment_local hR ts ds) fun s ts => ?_
  refine .ahead pathContinues_fill (.ite (fun h => ?_) fun _ => .pure rfl)
  obtain ⟨t, us, rfl, ht⟩ := head_of_pathContinues h
  exact .bind (.advance (by rw [ht]; rfl)) fun _ _ => .pure rfl

theorem typePath_local (hR : R.Local R' w) : (typePath R).Local (typePath R') w id := by
  intro ts ds
  refine .bind (.accept rfl) fun leading ts => ?_
  exact .bind (segments_local hR ts ds) fun _ _ => .pure rfl

theorem qualifiedPath_local (hR : R.Local R' w) :
    (qualifiedPath R).Local (qualifiedPath R') w id := by
  intro ts ds
  refine .bind (.discard (.expect rfl)) fun _ ts => ?_
  refine .bind (hR.type true ts ds) fun qualifier ts => ?_
  refine .join (fun h => .acceptIte rfl (fun ts => ?_) (.bind (.pure rfl) h)) fun ofTrait ts => ?_
  · exact .bind (.discard (.accept rfl)) fun _ ts => .bind (segments_local hR ts ds) h
  refine .bind (.discard (.expect rfl)) fun _ ts => ?_
  refine .bind (.discard (.expect rfl)) fun _ ts => ?_
  refine .bind (.discard (.accept rfl)) fun _ ts => ?_
  exact .bind (segments_local hR ts ds) fun _ _ => .pure rfl

end Grammar

end Ferrotype
