import Ferrotype.Proofs.Grammar.Functions

/-!
# Items in a longer file

An item ends with a semicolon or a block, and no rule looks behind it.
-/

namespace Ferrotype

/-! ## Items that are moved down -/

def Field.down (k : Nat) (f : Field) : Field :=
  { f with attributes := f.attributes.map (Attribute.down k), line := f.line + k }

def Payload.down (k : Nat) : Payload → Payload
  | .unit => .unit
  | .tuple fields => .tuple (fields.map (Field.down k))
  | .named fields => .named (fields.map (Field.down k))

def StructDef.down (k : Nat) (s : StructDef) : StructDef := { s with payload := s.payload.down k }

def Variant.down (k : Nat) (v : Variant) : Variant :=
  { v with
    payload := v.payload.down k
    attributes := v.attributes.map (Attribute.down k)
    line := v.line + k }

def EnumDef.down (k : Nat) (e : EnumDef) : EnumDef :=
  { e with variants := e.variants.map (Variant.down k) }

def MemberBody.down (k : Nat) : MemberBody → MemberBody
  | .fn signature hasDefault => .fn (signature.down k) hasDefault
  | .other kind name => .other kind name

def Member.down (k : Nat) (m : Member) : Member where
  attributes := m.attributes.map (Attribute.down k)
  line := m.line + k
  body := m.body.down k

def TraitDef.down (k : Nat) (t : TraitDef) : TraitDef :=
  { t with members := t.members.map (Member.down k) }

def ItemBody.down (k : Nat) : ItemBody → ItemBody
  | .structDef s => .structDef (s.down k)
  | .enumDef e => .enumDef (e.down k)
  | .traitDef t => .traitDef (t.down k)
  | .other kind name => .other kind name

def Item.down (k : Nat) (i : Item) : Item :=
  { i with
    attributes := i.attributes.map (Attribute.down k)
    line := i.line + k
    body := i.body.down k }

namespace Grammar

open Rule

variable {α β : Type} {w : Frame} {Q : List Token → Prop} {ts rest : List Token}
  {ds es : List Delim}

/-! ## Visibility -/

theorem scopeWord?_fill (h : w.Sealed ts) : scopeWord? (w.fill ts) = scopeWord? ts := by
  match ts, h with
  | [], h => rw [Frame.fill_nil, h.nil]
  | [o], h =>
    rw [Frame.fill_cons, Frame.fill_nil]
    rcases h.last with hw | ho
    · rw [hw]
      rfl
    · rcases Kind.endsItem_iff.1 ho with ho | ho | ho | ho
      all_goals
        rcases w.behind with _ | ⟨_, _ | ⟨_, _⟩⟩
        all_goals simp [scopeWord?, ho]
  | [o, v], h =>
    rw [Frame.fill_cons, Frame.fill_cons, Frame.fill_nil]
    rcases h.tail.last with hw | hv
    · rw [hw]
      rfl
    · rcases Kind.endsItem_iff.1 hv with hv | hv | hv | hv
      all_goals cases w.behind <;> simp [scopeWord?, hv]
  | o :: v :: c :: us, _ => rfl

theorem scopeWord?_reads {word : String} (h : scopeWord? ts = some word) (ds : List Delim) :
    Reads ds ds ts (ts.drop 3) ∧ (w.fill ts).drop 3 = w.fill (ts.drop 3) := by
  unfold scopeWord? at h
  split at h
  · next o v c us =>
    split at h
    · next hk =>
      have hv : v.kind.isDelim = false := by
        rcases hk.2.2 with hv | hv | hv
        all_goals rw [hv]; rfl
      have ho : o.kind.after ds = some (.paren :: ds) := by rw [hk.1]; rfl
      have hc : c.kind.after (.paren :: ds) = some ds := by rw [hk.2.1]; exact Kind.after_closer _ _
      exact ⟨((Reads.token ho _).trans (.plain hv _ _)).trans (.token hc us), rfl⟩
    · cases h
  · cases h

theorem visibility_local : visibility.Local visibility w id := by
  intro ts ds
  refine .acceptIte rfl (fun ts => ?_) (.pure rfl)
  refine .getThen (.inSealed (fun hs => by rw [scopeWord?_fill hs]) ?_)
  cases hw : scopeWord? ts with
  | some word =>
    obtain ⟨hr, hd⟩ := scopeWord?_reads (w := w) hw ds
    exact .setThen (fun _ => hr) hd (.pure rfl)
  | none =>
  refine .iteSame (fun hs => ?_) (fun h => ?_) fun _ => .pure rfl
  · rw [startsWith_fill (by simp [Kind.endsItem]) hs]
  · have h : startsWith ([.opener .paren, .keyword .inKw] ++ []) ts = true := h
    have hk : [.opener .paren, .keyword .inKw].foldlM Kind.after ds = some (.paren :: ds) := rfl
    obtain ⟨hr, hd⟩ := startsWith_reads (w := w) hk h
    refine .setThen (fun _ => hr) hd ?_
    refine .bind (simplePath_local _ _) fun path ts => ?_
    exact .bind (.discard (.expect (Kind.after_closer _ _))) fun _ _ => .pure rfl

/-! ## The end of an item -/

/-- A group is closed by the closer of its first opener. -/
theorem closeGroup_last {openers : List Token} {opener : Token} {d : Delim}
    (h : closeGroup openers ts = .ok []) (ho : openers.getLast? = some opener)
    (hd : opener.kind = .opener d) : ∃ t, ts.getLast? = some t ∧ t.kind = .closer d := by
  fun_induction closeGroup openers ts with
  | case1 => cases ho
  | case2 | case5 => cases h
  | case3 o outer t ts e he ih =>
    obtain ⟨u, hu, hk⟩ := ih h (by rw [← ho, List.getLast?_cons_cons])
    exact ⟨u, by simp [List.getLast?_cons, hu], hk⟩
  | case4 o outer t ts e he hk ih =>
    cases outer with
    | nil =>
      obtain rfl : ts = [] := by simpa [closeGroup] using h
      obtain rfl : o = opener := by simpa using ho
      rw [hk] at hd
      cases hd
      exact ⟨t, rfl, he⟩
    | cons o' outer =>
      obtain ⟨u, hu, hk⟩ := ih h (by rw [← ho, List.getLast?_cons_cons])
      exact ⟨u, by simp [List.getLast?_cons, hu], hk⟩
  | case6 o outer t ts _ _ ih =>
    obtain ⟨u, hu, hk⟩ := ih h ho
    exact ⟨u, by simp [List.getLast?_cons, hu], hk⟩

/-- What is dropped up to the end is one token that ends an item, or a block. -/
theorem dropTree_sealed {t : Token} (h : dropTree (t :: ts) = .ok rest)
    (ht : t.kind = .punct .semicolon ∨ t.kind = .opener .brace) (hs : w.Settled rest) :
    w.Sealed (t :: ts) := by
  rcases hs with rfl | hs
  · rcases ht with ht | ht
    · obtain rfl : ts = [] := by simpa [dropTree, ht] using h
      exact .inr ⟨t, rfl, by rw [ht]; rfl⟩
    · have h : closeGroup [t] ts = .ok [] := by simpa [dropTree, ht] using h
      obtain ⟨u, hu, hk⟩ := closeGroup_last h rfl ht
      exact .inr ⟨u, by simp [List.getLast?_cons, hu], by rw [hk]; rfl⟩
  · have hr : Reads [] [] (t :: ts) rest := dropTree_reads h
    exact hs.of_suffix hr.suffix

theorem skipTreeEnd {t : Token} (ht : t.kind = .punct .semicolon ∨ t.kind = .opener .brace) :
    skipTree.Follows skipTree w w.Settled id (t :: ts) ds ds := by
  intro _ u rest h
  have h := run_skipTree.1 h
  exact ⟨dropTree_reads h, fun _ _ => dropTree_length h, fun hs =>
    ⟨dropTree_sealed h ht hs, run_skipTree.2 (dropTree_fill h)⟩⟩

theorem advanceEnd {t : Token} (hk : t.kind.after ds = some es) (ht : t.kind.endsItem = true) :
    (discard advance : Rule PUnit).Follows (discard advance) w w.Settled id (t :: ts) ds es := by
  intro _ u rest h
  cases h
  exact ⟨.token hk ts, fun _ _ => Nat.lt_succ_self _, fun hs => ⟨hs.sealed_cons ht, rfl⟩⟩

/-- A semicolon may end the item; without it there are other ways on. -/
theorem acceptEnd {kind : Kind} {a a' : α} {y y' : Rule α} {g : α → α}
    (hk : kind.after ds = some es) (he : kind.endsItem = true) (ha : g a = a')
    (hy : y.Follows y' w w.Settled g ts ds es) :
    (accept kind >>= fun b => if b = true then pure a else y).Follows
      (accept kind >>= fun b => if b = true then pure a' else y') w w.Settled g ts ds es := by
  intro hsp b rest h
  obtain ⟨c, mid, hc, hb⟩ := run_bind.1 h
  rcases run_accept.1 hc with ⟨rfl, t, rfl, rfl⟩ | ⟨rfl, rfl, hn⟩
  · obtain ⟨rfl, rfl⟩ := run_pure.1 hb
    have ht : accept t.kind (w.fill (t :: mid)) = .ok (true, w.fill mid) := accept_eq_true rfl
    exact ⟨.token hk mid, fun _ _ => Nat.lt_succ_self _, fun hs =>
      ⟨hs.sealed_cons he, (bind_ok ht _).trans (by rw [← ha]; rfl)⟩⟩
  · obtain ⟨hr, hl, hy⟩ := hy hsp b rest hb
    refine ⟨hr, hl, fun hq => ?_⟩
    obtain ⟨hs, hy⟩ := hy hq
    exact ⟨hs, (bind_ok (accept_eq_false ((hs.headIs _).trans hn)) _).trans hy⟩

theorem skipToSemicolon_ends : skipToSemicolon.Ends skipToSemicolon w id := by
  intro ts ds
  refine .bindRun .skipTo fun _ rest h => ?_
  obtain ⟨t, us, rfl, hk⟩ := dropTreesUntil_stop (run_skipTo.1 h)
  have hk := beq_iff_eq.1 hk
  exact advanceEnd (by rw [hk]; rfl) (by rw [hk]; rfl)

theorem skipToBlockOrSemicolon_ends :
    skipToBlockOrSemicolon.Ends skipToBlockOrSemicolon w id := by
  intro ts ds
  refine .bindRun .skipTo fun _ rest h => ?_
  obtain ⟨t, us, rfl, hk⟩ := dropTreesUntil_stop (run_skipTo.1 h)
  exact skipTreeEnd (by simpa using hk)

/-! ## Lines -/

/-- The line of the next token moves down with it. At the end of the file nothing comes of it. -/
theorem nextLineThen {f f' : Nat → Rule α} {g : α → α} (hn : ∀ line r, f line [] ≠ .ok r)
    (hf : ∀ line, (f line).Follows (f' (line + w.above)) w Q g ts ds es) :
    (nextLine >>= f).Follows (nextLine >>= f') w Q g ts ds es := by
  cases ts with
  | nil => exact fun _ b rest h => absurd h (hn 0 _)
  | cons t ts => exact hf t.place.line

theorem bind_nil {x : Rule α} {f : α → Rule β} (h : ∀ r, x [] ≠ .ok r) (r : β × List Token) :
    (x >>= f) [] ≠ .ok r := by
  intro hb
  obtain ⟨a, mid, ha, -⟩ := run_bind.1 hb
  exact h _ ha

theorem wholeType_nil (r : Ty × List Token) : wholeType true [] ≠ .ok r := by
  intro h
  cases h

theorem memberBody_nil (r : MemberBody × List Token) : memberBody [] ≠ .ok r := by
  intro h
  cases h

theorem fnQualifiers_nil : fnQualifiers [] = .ok ([], []) := many_stop rfl

theorem otherItem_nil (r : ItemBody × List Token) : otherItem [] ≠ .ok r := by
  intro h
  have h : qualifiedItem [] = .ok (r.1, r.2) := h
  obtain ⟨_, _, hg, h⟩ := run_bind.1 h
  obtain ⟨rfl, rfl⟩ := run_get.1 hg
  obtain ⟨_, _, hq, h⟩ := run_bind.1 h
  rw [fnQualifiers_nil] at hq
  cases hq
  cases h

/-! ## Structs and enums -/

theorem namedField_local : namedField.Local namedField w (Field.down w.above) := by
  intro ts ds
  refine .bindMap (whole_local outerAttributes_local ts ds) fun attributes ts => ?_
  refine .bind (visibility_local ts ds) fun visibility ts => ?_
  refine .bindMap (.expect rfl) fun name ts => ?_
  refine .bind (.discard (.expect rfl)) fun _ ts => ?_
  exact .bind (wholeType_local true ts ds) fun _ _ => .pure rfl

theorem namedFields_ends : namedFields.Ends namedFields w (List.map (Field.down w.above)) := by
  intro ts ds
  refine .bind (.discard (.expect rfl)) fun _ ts => ?_
  refine .bindMap (Local.commaListMap namedField_local ts _) fun fields ts => ?_
  exact .bindPure (.discard (.expectEnd (Kind.after_closer _ _) rfl)) fun _ => rfl

theorem tupleField_local : tupleField.Local tupleField w (Field.down w.above) := by
  intro ts ds
  refine .bindMap (whole_local outerAttributes_local ts ds) fun attributes ts => ?_
  refine .bind (visibility_local ts ds) fun visibility ts => ?_
  refine nextLineThen (fun _ => bind_nil wholeType_nil) fun line => ?_
  exact .bind (wholeType_local true ts ds) fun _ _ => .pure rfl

theorem tupleFields_local : tupleFields.Local tupleFields w (List.map (Field.down w.above)) := by
  intro ts ds
  refine .bind (.discard (.expect rfl)) fun _ ts => ?_
  refine .bindMap (Local.commaListMap tupleField_local ts _) fun fields ts => ?_
  exact .bind (.discard (.expect (Kind.after_closer _ _))) fun _ _ => .pure rfl

theorem structDef_ends : structDef.Ends structDef w (StructDef.down w.above) := by
  intro ts ds
  refine .bind (.discard (.expect rfl)) fun _ ts => ?_
  refine .bind (expectName_local ts ds) fun name ts => ?_
  refine .bind (whole_local generics_local ts ds) fun generics ts => ?_
  refine .bind (skipWhere_local ts ds) fun _ ts => ?_
  refine .isAt (.ite (fun _ => .bindPure (namedFields_ends ts ds) fun _ => rfl) fun _ => ?_)
  refine .isAt (.ite (fun _ => ?_) fun _ => ?_)
  · refine .bindMap (tupleFields_local ts ds) fun fields ts => ?_
    refine .bind (skipWhere_local ts ds) fun _ ts => ?_
    exact .bindPure (.discard (.expectEnd rfl rfl)) fun _ => rfl
  exact acceptEnd rfl rfl rfl .refuse

theorem variant_local : variant.Local variant w (Variant.down w.above) := by
  intro ts ds
  refine .bindMap (whole_local outerAttributes_local ts ds) fun attributes ts => ?_
  refine .bind (.discard (visibility_local ts ds)) fun _ ts => ?_
  refine .bindMap (.expect rfl) fun name ts => ?_
  have hj (payload : Payload) (ts) : Rule.Follows
      (do
        let discriminant ←
          if ← accept (.punct .eq) then pure (some (← whole fun R => binary R 1)) else pure none
        return ⟨name.text, payload, discriminant, attributes, name.place.line⟩)
      (do
        let discriminant ←
          if ← accept (.punct .eq) then pure (some (← whole fun R => binary R 1)) else pure none
        return ⟨name.text, payload.down w.above, discriminant,
          attributes.map (Attribute.down w.above), name.place.line + w.above⟩)
      w w.Sealed (Variant.down w.above) ts ds ds := by
    refine .join (fun h => .acceptIte rfl (fun ts => ?_) (.bind (.pure rfl) h)) fun _ _ => .pure rfl
    exact .bind (whole_local (fun hR => binary_local hR 1) ts ds) fun _ ts => .bind (.pure rfl) h
  refine .isAt (.isAt (.ite (fun _ => ?_) fun _ => ?_))
  · refine .bindMap (namedFields_ends.local ts ds) fun fields ts => ?_
    exact .bindMap (p := Payload.down w.above) (.pure rfl) hj
  refine .ite (fun _ => ?_) fun _ => .bindMap (p := Payload.down w.above) (.pure rfl) hj
  refine .bindMap (tupleFields_local ts ds) fun fields ts => ?_
  exact .bindMap (p := Payload.down w.above) (.pure rfl) hj

theorem enumDef_ends : enumDef.Ends enumDef w (EnumDef.down w.above) := by
  intro ts ds
  refine .bind (.discard (.expect rfl)) fun _ ts => ?_
  refine .bind (expectName_local ts ds) fun name ts => ?_
  refine .bind (whole_local generics_local ts ds) fun generics ts => ?_
  refine .bind (skipWhere_local ts ds) fun _ ts => ?_
  refine .bind (.discard (.expect rfl)) fun _ ts => ?_
  refine .bindMap (Local.commaListMap variant_local ts _) fun variants ts => ?_
  exact .bindPure (.discard (.expectEnd (Kind.after_closer _ _) rfl)) fun _ => rfl

/-! ## Macros and traits -/

theorem macroBody_ends : macroBody.Ends macroBody w id := by
  intro ts ds
  refine .nextIs (.ite (fun h => .isAt ?_) fun _ => .refuse)
  cases hb : headIs (.opener .brace) ts with
  | true =>
    obtain ⟨t, us, rfl, hk⟩ := head_of_any (p := (· == .opener .brace)) hb
    exact .bindPure (skipTreeEnd (.inr (beq_iff_eq.1 hk))) fun _ => rfl
  | false => exact .bind .skipTree fun _ ts => .discard (.expectEnd rfl rfl)

theorem isWord_fill (h : w.Sealed ts) (word : String) :
    (w.fill ts).head?.any (isWord word) = ts.head?.any (isWord word) := by
  rw [h.head]
  cases ts <;> rfl

theorem head_of_isWord {word : String} (h : ts.head?.any (isWord word) = true) :
    ∃ t us, ts = t :: us ∧ t.kind = .identifier := by
  cases ts with
  | nil => cases h
  | cons t us =>
    simp only [isWord, List.head?_cons, Option.any_some, Bool.and_eq_true, beq_iff_eq] at h
    exact ⟨t, us, rfl, h.1⟩

theorem startsTrait_fill (h : w.Sealed ts) : startsTrait (w.fill ts) = startsTrait ts := by
  obtain ⟨hd, hs⟩ := dropIf_fill (p := (· == .keyword .unsafeKw)) h (by simp [Kind.endsItem])
  simp only [startsTrait, hd, isWord_fill hs]
  split
  · next ha =>
    obtain ⟨t, us, he, hk⟩ := head_of_isWord ha
    rw [he] at hs ⊢
    exact (hs.behind_of_not_end (by rw [hk]; rfl)).headIs _
  · exact hs.headIs _

theorem startsConstItem_fill (h : w.Sealed ts) :
    startsConstItem (w.fill ts) = startsConstItem ts :=
  h.pair (fun _ => rfl) (fun _ _ _ => rfl) (by simp +contextual [Kind.endsItem]) fun _ => ⟨rfl, rfl⟩

theorem head_of_startsConstItem (h : startsConstItem ts = true) :
    ∃ t u us, ts = t :: u :: us ∧ t.kind.isDelim = false ∧ u.kind.isDelim = false := by
  unfold startsConstItem at h
  split at h
  · next t u us =>
    simp only [Bool.and_eq_true, Bool.or_eq_true, beq_iff_eq] at h
    refine ⟨t, u, us, rfl, by rw [h.1]; rfl, ?_⟩
    rcases h.2 with hu | hu
    all_goals rw [hu]; rfl
  · cases h

theorem memberBody_local : memberBody.Local memberBody w (MemberBody.down w.above) := by
  intro ts ds
  refine .acceptIte rfl (fun ts => ?type) ?_
  case type =>
    refine .bind (expectName_local ts ds) fun name ts => ?_
    exact .bind (skipToSemicolon_ends.local ts ds) fun _ _ => .pure rfl
  refine .ahead startsConstItem_fill (.ite (fun h => ?const) fun _ => ?_)
  case const =>
    obtain ⟨t, u, us, rfl, ht, hu⟩ := head_of_startsConstItem h
    refine .advanceThen (Kind.after_of_not_delim ht ds) (.nextText fun name => ?_)
    refine .advanceThen (Kind.after_of_not_delim hu ds) ?_
    exact .bind (skipToSemicolon_ends.local us ds) fun _ _ => .pure rfl
  refine .ahead startsMacro_fill (.ite (fun _ => ?call) fun _ => ?_)
  case call =>
    refine .bind (simplePath_local ts ds) fun name ts => ?_
    refine .bind (.discard (.expect rfl)) fun _ ts => ?_
    exact .bind (macroBody_ends.local ts ds) fun _ _ => .pure rfl
  refine .nextIs (.ite (fun _ => ?_) fun _ => .refuse)
  refine .bindMap (signature_local ts ds) fun signature ts => ?_
  refine .isAt (.ite (fun _ => .bind .skipTree fun _ _ => .pure rfl) fun _ => ?_)
  exact .bind (.discard (.expect rfl)) fun _ _ => .pure rfl

theorem traitMember_local : traitMember.Local traitMember w (Member.down w.above) := by
  intro ts ds
  refine .bindMap (whole_local outerAttributes_local ts ds) fun attributes ts => ?_
  refine nextLineThen (fun _ => bind_nil memberBody_nil) fun line => ?_
  exact .bindMap (memberBody_local ts ds) fun _ _ => .pure rfl

theorem supertraits_local : supertraits.Local supertraits w id := by
  intro ts ds
  refine .acceptIte rfl (fun ts => ?_) (.pure rfl)
  refine .nextIs (.ite (fun _ => .pure rfl) fun _ => ?_)
  exact whole_local (fun hR => bounds_local hR true) ts ds

theorem traitDef_ends : traitDef.Ends traitDef w (TraitDef.down w.above) := by
  intro ts ds
  refine .bind (.accept rfl) fun isUnsafe ts => ?_
  refine .ahead (fun hs => isWord_fill hs _) (.opt (fun h => ?_) fun ts => ?_)
  · obtain ⟨t, us, rfl, hk⟩ := head_of_isWord h
    exact .advance (by rw [hk]; rfl)
  refine .bind (.discard (.expect rfl)) fun _ ts => ?_
  refine .bind (expectName_local ts ds) fun name ts => ?_
  refine .bind (whole_local generics_local ts ds) fun generics ts => ?_
  refine .bind (supertraits_local ts ds) fun supertraits ts => ?_
  refine .bind (skipWhere_local ts ds) fun _ ts => ?_
  refine .bind (.discard (.expect rfl)) fun _ ts => ?_
  refine .bind (.discard (whole_local innerAttributes_local ts _)) fun _ ts => ?_
  refine .bindMap (Local.manyMap (p := Member.down w.above) (fun ts ds => ?_) ts _)
    fun members ts => ?_
  · refine .isAt (.ite (fun _ => .pure rfl) fun _ => ?_)
    exact .bindMap (traitMember_local ts ds) fun _ _ => .pure rfl
  · exact .bindPure (.discard (.expectEnd (Kind.after_closer _ _) rfl)) fun _ => rfl

/-! ## Items that are read over -/

theorem startsWordThen_fill {word : String} {kind : Kind} (h : w.Sealed ts) :
    startsWordThen word kind (w.fill ts) = startsWordThen word kind ts :=
  h.pair (p := isWord word) (fun _ => rfl) (fun _ _ _ => rfl)
    (fun t ht => by
      simp only [isWord, Bool.and_eq_true, beq_iff_eq] at ht
      rw [ht.1]
      rfl)
    fun _ => ⟨rfl, rfl⟩

theorem head_of_startsWordThen {word : String} {kind : Kind}
    (h : startsWordThen word kind ts = true) :
    ∃ t u us, ts = t :: u :: us ∧ t.kind = .identifier ∧ u.kind = kind := by
  unfold startsWordThen at h
  split at h
  · next t u us =>
    simp only [isWord, Bool.and_eq_true, beq_iff_eq] at h
    exact ⟨t, u, us, rfl, h.1.1, h.2⟩
  · cases h

theorem moduleBody_ends : moduleBody.Ends moduleBody w id := by
  intro ts ds
  refine acceptEnd rfl rfl rfl (.isAt (.ite (fun h => ?_) fun _ => .refuse))
  obtain ⟨t, us, rfl, hk⟩ := head_of_any (p := (· == .opener .brace)) h
  exact skipTreeEnd (.inr (beq_iff_eq.1 hk))

theorem qualifiedItem_ends : qualifiedItem.Ends qualifiedItem w (ItemBody.down w.above) := by
  intro ts ds
  refine .getThen ?_
  refine .bind (fnQualifiers_local ts ds) fun qualifiers ts => ?_
  refine .acceptIte rfl (fun ts => ?_) ?_
  · refine .bind (expectName_local ts ds) fun name ts => ?_
    exact .bindPure (skipToBlockOrSemicolon_ends ts ds) fun _ => rfl
  refine .isAt (.ite (fun _ => .bindPure (skipToBlockOrSemicolon_ends ts ds) fun _ => rfl) fun _ => ?_)
  refine .isAt (.ite (fun h => ?_) fun _ => .throw)
  simp only [Bool.and_eq_true] at h
  obtain ⟨t, us, rfl, hk⟩ := head_of_any (p := (· == .opener .brace)) h.1
  exact .bindPure (skipTreeEnd (.inr (beq_iff_eq.1 hk))) fun _ => rfl

theorem head_of_startsCrate (h : startsWith [.keyword .externKw, .keyword .crateKw] ts = true) :
    ∃ t u us, ts = t :: u :: us ∧ t.kind = .keyword .externKw ∧ u.kind = .keyword .crateKw := by
  match ts with
  | [] | [t] => simp [startsWith] at h
  | t :: u :: us => exact ⟨t, u, us, rfl, by simpa [startsWith] using h⟩

theorem otherItem_ends : otherItem.Ends otherItem w (ItemBody.down w.above) := by
  intro ts ds
  refine .ahead startsWordThen_fill (.ite (fun h => ?rules) fun _ => ?_)
  case rules =>
    obtain ⟨t, u, us, rfl, ht, hu⟩ := head_of_startsWordThen h
    refine .advanceThen (by rw [ht]; rfl) (.advanceThen (by rw [hu]; rfl) ?_)
    refine .bind (expectName_local us ds) fun name ts => ?_
    exact .bindPure (macroBody_ends ts ds) fun _ => rfl
  refine .ahead startsMacro_fill (.ite (fun _ => ?call) fun _ => ?_)
  case call =>
    refine .bind (simplePath_local ts ds) fun name ts => ?_
    refine .bind (.discard (.expect rfl)) fun _ ts => ?_
    refine .bind (.discard (.accept rfl)) fun _ ts => ?_
    exact .bindPure (macroBody_ends ts ds) fun _ => rfl
  refine .ahead startsWordThen_fill (.ite (fun h => ?union) fun _ => ?_)
  case union =>
    obtain ⟨t, u, us, rfl, ht, hu⟩ := head_of_startsWordThen h
    refine .advanceThen (by rw [ht]; rfl) (.nextText fun name => .advanceThen (by rw [hu]; rfl) ?_)
    exact .bindPure (skipToBlockOrSemicolon_ends us ds) fun _ => rfl
  refine .isAt (.ite (fun _ => ?use) fun _ => ?_)
  case use => exact .bindPure (skipToSemicolon_ends ts ds) fun _ => rfl
  refine .acceptIte rfl (fun ts => ?static) ?_
  case static =>
    refine .bind (.discard (.accept rfl)) fun _ ts => .nextText fun name => ?_
    exact .bindPure (skipToSemicolon_ends ts ds) fun _ => rfl
  refine .acceptIte rfl (fun ts => ?type) ?_
  case type =>
    refine .bind (expectName_local ts ds) fun name ts => ?_
    exact .bindPure (skipToSemicolon_ends ts ds) fun _ => rfl
  refine .acceptIte rfl (fun ts => ?module) ?_
  case module =>
    refine .bind (expectName_local ts ds) fun name ts => ?_
    exact .bindPure (moduleBody_ends ts ds) fun _ => rfl
  refine .ahead startsConstItem_fill (.ite (fun h => ?const) fun _ => ?_)
  case const =>
    obtain ⟨t, u, us, rfl, ht, hu⟩ := head_of_startsConstItem h
    refine .advanceThen (Kind.after_of_not_delim ht ds) (.nextText fun name => ?_)
    refine .advanceThen (Kind.after_of_not_delim hu ds) ?_
    exact .bindPure (skipToSemicolon_ends us ds) fun _ => rfl
  refine .ahead (startsWith_fill (by simp [Kind.endsItem])) (.ite (fun h => ?crate) fun _ => ?_)
  case crate =>
    obtain ⟨t, u, us, rfl, ht, hu⟩ := head_of_startsCrate h
    refine .advanceThen (by rw [ht]; rfl) (.advanceThen (by rw [hu]; rfl) (.nextText fun name => ?_))
    exact .bindPure (skipToSemicolon_ends us ds) fun _ => rfl
  exact qualifiedItem_ends ts ds

/-! ## Items -/

theorem item_ends : item.Ends item w (Item.down w.above) := by
  intro ts ds
  refine .bindMap (whole_local outerAttributes_local ts ds) fun attributes ts => ?_
  refine .bind (visibility_local ts ds) fun visibility ts => ?_
  refine nextLineThen (fun line r h => ?_) fun line => ?_
  · have h : (otherItem >>= fun body => pure ⟨attributes, visibility, line, body⟩) [] = .ok r := h
    exact bind_nil otherItem_nil r h
  refine .isAt (.isAt (.ahead startsTrait_fill ?_))
  refine .ite (fun _ => .bindPure₂ (structDef_ends ts ds) fun _ => rfl) fun _ => ?_
  refine .ite (fun _ => .bindPure₂ (enumDef_ends ts ds) fun _ => rfl) fun _ => ?_
  refine .ite (fun _ => .bindPure₂ (traitDef_ends ts ds) fun _ => rfl) fun _ => ?_
  exact .bindPure (otherItem_ends ts ds) fun _ => rfl

end Grammar

end Ferrotype
