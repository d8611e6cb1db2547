import Ferrotype.Proofs.Grammar.File

/-!
# Files behind files

The tokens of one file and, further down, those of another are read as one file: the items of the
first and then those of the second. The second must not have attributes of its own, since those
come before all items.
-/

namespace Ferrotype

theorem Unmistakable.fill {w : Frame} {ts : List Token} (h : Unmistakable ts) (hw : Unmistakable w.behind) :
    Unmistakable (w.fill ts) := by
  intro t ht
  rcases List.mem_append.1 ht with ht | ht
  · obtain ⟨u, hu, rfl⟩ := List.mem_map.1 ht
    exact h u hu
  · exact hw t ht

theorem Token.down_zero : Token.down 0 = id := rfl

namespace Grammar

open Rule

variable {w : Frame} {ts us mid rest : List Token} {R R' : Rules}

/-! ## Attributes -/

/-- The marks of an attribute of the file. -/
abbrev innerMarks : List Kind := [.punct .pound, .punct .bang]

/-- Whether an attribute of the file starts here. -/
def startsInner : List Token → Bool
  | t :: ts => t.kind == .doc .inner || startsWith (innerMarks ++ [.opener .bracket]) (t :: ts)
  | [] => false

theorem run_innerTurn {r : Turn Attribute} :
    attributeTurn R .inner innerMarks ts = .ok (r, rest) ↔
      (r = .stop ∧ rest = ts ∧ startsInner ts = false) ∨
      (∃ t, ts = t :: rest ∧ t.kind = .doc .inner ∧ r = .more (docAttribute .inner t)) ∨
      ∃ a, startsWith (innerMarks ++ [.opener .bracket]) ts = true ∧
        attributeBody R .inner (ts.drop innerMarks.length) = .ok (a, rest) ∧ r = .more a := by
  cases ts with
  | nil =>
    change (.ok (Turn.stop, []) : Except GrammarFault _) = _ ↔ _
    simp [startsInner, startsWith, eq_comm]
  | cons t ts =>
    change (if t.kind = .doc .inner then (do set ts; return .more (docAttribute .inner t))
      else if startsWith (innerMarks ++ [.opener .bracket]) (t :: ts) = true then do
        modify (List.drop innerMarks.length)
        return .more (← attributeBody R .inner)
      else return .stop : Rule (Turn Attribute)) (t :: ts) = _ ↔ _
    simp only [run_ite, run_bind, run_set, run_modify, run_pure, startsInner, Bool.or_eq_false_iff,
      beq_eq_false_iff_ne, List.cons.injEq]
    constructor
    · rintro (⟨hk, _, _, rfl, rfl, rfl⟩ | ⟨hk, ⟨hm, _, _, rfl, a, _, ha, rfl, rfl⟩ | ⟨hm, rfl, rfl⟩⟩)
      · exact .inr (.inl ⟨t, ⟨rfl, rfl⟩, hk, rfl⟩)
      · exact .inr (.inr ⟨a, hm, ha, rfl⟩)
      · exact .inl ⟨rfl, rfl, hk, by simpa using hm⟩
    · rintro (⟨rfl, rfl, hk, hm⟩ | ⟨_, ⟨rfl, rfl⟩, hk, rfl⟩ | ⟨a, hm, ha, rfl⟩)
      · exact .inr ⟨hk, .inr ⟨by rw [hm]; exact Bool.false_ne_true, rfl, rfl⟩⟩
      · exact .inl ⟨hk, ⟨⟩, ts, rfl, rfl, rfl⟩
      · refine .inr ⟨fun hk => ?_, .inl ⟨hm, ⟨⟩, _, rfl, a, _, ha, rfl, rfl⟩⟩
        simp [startsWith, hk] at hm

theorem startsInner_down (k : Nat) (ts : List Token) :
    startsInner (ts.map (Token.down k)) = startsInner ts := by
  cases ts <;> simp [startsInner, startsWith, Function.comp_def, ← List.map_take]

/-- A file that has no attributes does not start with one. -/
theorem startsInner_of_attributes_nil (h : innerAttributes R ts = .ok ([], rest)) :
    startsInner ts = false ∧ rest = ts := by
  refine many_induction (fun ts as rest => as = [] → startsInner ts = false ∧ rest = ts)
    ?stop ?last ?more h rfl
  case stop =>
    intro ts rest h _
    rcases run_innerTurn.1 h with ⟨-, hr, hs⟩ | ⟨_, -, -, h⟩ | ⟨_, -, -, h⟩
    · exact ⟨hs, hr⟩
    all_goals cases h
  all_goals simp

/-- An attribute of the file ends at a token that ends an item. -/
theorem innerTurn_more (hR : R.Local R' w) (hsp : Unmistakable ts) {a : Attribute}
    (h : attributeTurn R .inner innerMarks ts = .ok (.more a, mid)) (hs : w.Settled mid) :
    w.Sealed ts ∧ attributeTurn R' .inner innerMarks (w.fill ts) =
      .ok (.more (a.down w.above), w.fill mid) := by
  rcases run_innerTurn.1 h with ⟨h, -⟩ | ⟨t, rfl, hk, ha⟩ | ⟨b, hm, hb, ha⟩
  · cases h
  · cases ha
    exact ⟨hs.sealed_cons (by rw [hk]; rfl), run_innerTurn.2 (.inr (.inl ⟨_, rfl, hk, rfl⟩))⟩
  · cases ha
    have he : ∀ kind ∈ innerMarks ++ [.opener .bracket], kind.endsItem = false := by
      simp [Kind.endsItem]
    have hmarks : innerMarks.foldlM Kind.after [] = some [] := rfl
    obtain ⟨hr, hd⟩ := startsWith_reads (w := w) hmarks hm
    obtain ⟨hs, hb⟩ := (attributeBody_ends hR .inner _ [] (hsp.of_suffix hr.suffix) a mid hb).2.2 hs
    have hs := hs.of_suffix hr.suffix
    refine ⟨hs, run_innerTurn.2 (.inr (.inr ⟨_, ?_, ?_, rfl⟩))⟩
    · rw [startsWith_fill he hs, hm]
    · rw [hd, hb]

/-- A file of attributes alone is read as such before a file that has none. -/
theorem innerAttributes_join (hR : R.Local R' w) (hsp : Unmistakable ts) {as : List Attribute}
    (hw : startsInner w.behind = false) (h : innerAttributes R ts = .ok (as, [])) :
    innerAttributes R' (w.fill ts) = .ok (as.map (Attribute.down w.above), w.behind) := by
  suffices h : w.Settled ts ∧ innerAttributes R' (w.fill ts) =
      .ok (as.map (Attribute.down w.above), w.behind) from h.2
  refine many_induction (fun ts as rest => Unmistakable ts → rest = [] → w.Settled ts ∧
    innerAttributes R' (w.fill ts) = .ok (as.map (Attribute.down w.above), w.behind))
    ?stop ?last ?more h hsp rfl
  case stop =>
    intro ts rest h _ hr
    rcases run_innerTurn.1 h with ⟨-, rfl, -⟩ | ⟨_, -, -, h⟩ | ⟨_, -, -, h⟩
    · subst hr
      exact ⟨.inl rfl, many_stop (run_innerTurn.2 (.inl ⟨rfl, rfl, hw⟩))⟩
    all_goals cases h
  case last =>
    intro ts a rest h
    rcases run_innerTurn.1 h with ⟨h, -⟩ | ⟨_, -, -, h⟩ | ⟨_, -, -, h⟩
    all_goals cases h
  case more =>
    intro ts a mid as rest h hlt _ ih hsp hr
    have hmarks : ∀ kind ∈ innerMarks ++ [.opener .bracket], kind.endsItem = false := by
      simp [Kind.endsItem]
    have hmid := (attributeTurn_local hR .inner (fun _ => rfl) hmarks ts [] hsp _ _ h).1.suffix
    obtain ⟨hs, ih⟩ := ih (hsp.of_suffix hmid) hr
    obtain ⟨hs, hx⟩ := innerTurn_more hR hsp h hs
    exact ⟨.inr hs, many_more hx (Frame.length_fill_lt.2 hlt) ih⟩

/-! ## Items -/

/-- Items end as they do, so others may come behind them. -/
theorem ItemsOf.join {items items' : List Item} (h : ItemsOf ts items) (hsp : Unmistakable ts)
    (hw : ItemsOf w.behind items') :
    w.Settled ts ∧ ItemsOf (w.fill ts) (items.map (Item.down w.above) ++ items') := by
  induction h with
  | nil => exact ⟨.inl rfl, hw⟩
  | cons h hlt hr ih =>
    obtain ⟨hs, ih⟩ := ih (hsp.of_suffix (item_reads hsp h []).suffix)
    obtain ⟨hs, hx⟩ := (item_ends _ [] hsp _ _ h).2.2 hs
    exact ⟨.inr hs, .cons hx (Frame.length_fill_lt.2 hlt) ih⟩

/-! ## Files -/

/-- A file in a frame goes on with the items that come behind. -/
theorem sourceFile_fill {file : SourceFile} {items : List Item} (hsp : Unmistakable ts)
    (hsw : Unmistakable w.behind) (hstart : startsInner w.behind = false) (hw : ItemsOf w.behind items)
    (h : sourceFile ts = .ok (file, rest)) :
    sourceFile (w.fill ts) =
      .ok (⟨file.attributes.map (Attribute.down w.above),
        file.items.map (Item.down w.above) ++ items⟩, []) := by
  obtain ⟨-, mid, ha, hi⟩ := (run_sourceFile hsp).1 h
  have hr := (whole_local (w := w) innerAttributes_local ts [] hsp _ _ ha).1
  obtain ⟨hs, hj⟩ := hi.join (hsp.of_suffix hr.suffix) hw
  refine (run_sourceFile (hsp.fill hsw)).2 ⟨rfl, w.fill mid, ?_, hj⟩
  have hle : ts.length ≤ (w.fill ts).length := by simp [Frame.length_fill]
  rcases hs with rfl | hs
  · exact innerAttributes_join (rules_local w hle) hsp hstart ha
  · exact ((whole_local innerAttributes_local ts [] hsp _ _ ha).2.2 hs).2

/-- Nothing moves without lines above. -/
theorem sourceFile_down_zero {file : SourceFile} (hsp : Unmistakable ts)
    (h : sourceFile ts = .ok (file, rest)) : file.items.map (Item.down 0) = file.items := by
  have hfill : Frame.fill ⟨0, []⟩ ts = ts := by simp [Frame.fill, Token.down_zero]
  have hx := sourceFile_fill (w := ⟨0, []⟩) hsp (by simp [Unmistakable]) rfl .nil h
  rw [hfill, h] at hx
  injection hx with hx
  simpa using (congrArg SourceFile.items (Prod.mk.inj hx).1).symm

/-- Two files, the second of which moves down by `k` lines. -/
theorem sourceFile_join {fa fb : SourceFile} (k : Nat) (hst : Unmistakable ts) (hsu : Unmistakable us)
    (ha : sourceFile ts = .ok (fa, rest)) (hb : sourceFile us = .ok (fb, mid))
    (hn : fb.attributes = []) :
    sourceFile (ts ++ us.map (Token.down k)) =
      .ok (⟨fa.attributes, fa.items ++ fb.items.map (Item.down k)⟩, []) := by
  obtain ⟨-, rest, hi, hib⟩ := (run_sourceFile hsu).1 hb
  rw [hn] at hi
  obtain ⟨hstart, rfl⟩ := startsInner_of_attributes_nil hi
  have hib : ItemsOf (rest.map (Token.down k)) (fb.items.map (Item.down k)) := by
    simpa [Frame.fill] using (hib.join (w := ⟨k, []⟩) hsu .nil).2
  have hsw : Unmistakable (rest.map (Token.down k)) := by
    simpa [Frame.fill] using hsu.fill (w := ⟨k, []⟩) (by simp [Unmistakable])
  have hx := sourceFile_fill (w := ⟨0, rest.map (Token.down k)⟩) hst hsw
    ((startsInner_down k rest).trans hstart) hib ha
  have has : fa.attributes.map (Attribute.down 0) = fa.attributes := List.map_id _
  simpa [Frame.fill, Token.down_zero, sourceFile_down_zero hst ha, has] using hx

/-! ## The first token of a file -/

theorem otherItem_bracket {t : Token} (ht : t.kind = .opener .bracket) (r : ItemBody × List Token) :
    otherItem (t :: ts) ≠ .ok r := by
  obtain ⟨kind, text, place⟩ := t
  subst ht
  intro h
  have h : qualifiedItem (⟨.opener .bracket, text, place⟩ :: ts) = .ok (r.1, r.2) := by
    rcases ts with _ | ⟨u, us⟩ <;> exact h
  obtain ⟨_, _, hg, h⟩ := run_bind.1 h
  obtain ⟨rfl, rfl⟩ := run_get.1 hg
  obtain ⟨_, _, hq, h⟩ := run_bind.1 h
  have hf : fnQualifiers (⟨.opener .bracket, text, place⟩ :: ts) =
      .ok ([], ⟨.opener .bracket, text, place⟩ :: ts) := many_stop rfl
  rw [hf] at hq
  cases hq
  cases h

/-- No item starts with a square bracket. -/
theorem item_bracket {t : Token} (ht : t.kind = .opener .bracket) (r : Item × List Token) :
    item (t :: ts) ≠ .ok r := by
  obtain ⟨kind, text, place⟩ := t
  subst ht
  intro h
  have h : item (⟨.opener .bracket, text, place⟩ :: ts) = .ok (r.1, r.2) := h
  obtain ⟨as, _, ha, h⟩ := run_bind.1 h
  have hf : whole outerAttributes (⟨.opener .bracket, text, place⟩ :: ts) =
      .ok ([], ⟨.opener .bracket, text, place⟩ :: ts) := many_stop rfl
  rw [hf] at ha
  cases ha
  obtain ⟨_, _, hv, h⟩ := run_bind.1 h
  cases hv
  have h : (otherItem >>= fun body => pure ⟨[], .inherited, place.line, body⟩)
      (⟨.opener .bracket, text, place⟩ :: ts) = .ok (r.1, r.2) := by
    rcases ts with _ | ⟨u, us⟩ <;> exact h
  obtain ⟨body, mid, hb, -⟩ := run_bind.1 h
  exact otherItem_bracket rfl _ hb

/-- A file without attributes does not start with a square bracket. -/
theorem head_of_sourceFile {file : SourceFile} (hsp : Unmistakable ts)
    (h : sourceFile ts = .ok (file, rest)) (hn : file.attributes = []) :
    ts.head?.map Token.kind ≠ some (.opener .bracket) := by
  obtain ⟨-, mid, ha, hi⟩ := (run_sourceFile hsp).1 h
  rw [hn] at ha
  obtain ⟨-, rfl⟩ := startsInner_of_attributes_nil ha
  generalize file.items = items at hi
  cases hi with
  | nil => simp
  | cons h =>
    cases mid with
    | nil => simp
    | cons t ts => exact fun ht => item_bracket (by simpa using ht) _ h

end Grammar

end Ferrotype
