import Ferrotype.Proofs.Grammar.Join
import Ferrotype.Proofs.Plain.Parts

/-!
# Plain declarations are read

The source text of plain declarations is read as a file of their trees.
-/

namespace Ferrotype

namespace Grammar

open Rule

variable {ts rest : List Token} {p : Position}

/-! ## Structs -/

theorem namedFields_reads (fields : List PlainField) (hp : p.line = 1) (rest : List Token) :
    namedFields (layout p (.opener .brace ::
      (commaBetween (fields.map PlainField.words) ++ [.closer .brace])) ++ rest) =
        .ok (fields.map PlainField.tree, rest) := by
  have hlist (p q : Position) (hp : p.line = 1) (ts : List Token) :=
    commaList_entries TypeEnd.comma (TypeEnd.closer .brace) nofun
      (entries_map fun f (_ : f ∈ fields) => field_entry f) hp q ts
  rw [layout_cons rfl, layout_append, layout_cons rfl, layout, List.cons_append, List.append_assoc,
    List.singleton_append, namedFields, bind_ok (expect_opener _ _ _ _)]
  refine (bind_ok (hlist _ _ ?_ _) _).trans ?_
  · exact hp
  rw [bind_ok (expect_closer _ _ _ _)]
  rfl

theorem structDef_reads (name : Name) (fields : List PlainField) (hp : p.line = 1)
    (rest : List Token) : structDef (layout p (PlainItem.struct name fields).words ++ rest) =
      .ok (⟨name.text, .named (fields.map PlainField.tree), []⟩, rest) := by
  have hfields (q : Position) (hq : q.line = 1) := namedFields_reads fields hq rest
  rw [PlainItem.words, layout_cons rfl, layout_cons rfl, List.cons_append, List.cons_append,
    structDef, bind_ok (expect_keyword _ _ _ _), bind_ok (expectName_name _ _ _),
    bind_ok (generics_none rfl), bind_ok (skipWhere_none rfl)]
  refine (bind_ok (isAt_word (.opener .brace) _ _) _).trans ?_
  rw [if_pos rfl]
  refine (bind_ok (hfields _ ?_) _).trans ?_
  · exact hp
  rfl

/-! ## Enums -/

theorem enumDef_entries (name : Name) {wss : List (List Word)} {variants : List Variant}
    (h : List.Forall₂ (Entry 1 Stopped (Word.closer .brace).kind variant) wss variants)
    (hp : p.line = 1) (rest : List Token) :
    enumDef (layout p (.keyword .enumKw :: name.word :: .opener .brace ::
      (commaBetween wss ++ [.closer .brace])) ++ rest) =
        .ok (⟨name.text, variants, []⟩, rest) := by
  have hlist (p q : Position) (hp : p.line = 1) (ts : List Token) :=
    commaList_entries Stopped.comma (Stopped.closer .brace) nofun h hp q ts
  rw [layout_cons rfl, layout_cons rfl, layout_cons rfl, layout_append, layout_cons rfl, layout]
  simp only [List.cons_append, List.append_assoc, List.nil_append]
  unfold enumDef
  rw [bind_ok (expect_keyword _ _ _ _), bind_ok (expectName_name _ _ _),
    bind_ok (generics_none rfl), bind_ok (skipWhere_none rfl), bind_ok (expect_opener _ _ _ _)]
  refine (bind_ok (hlist _ _ ?_ _) _).trans ?_
  · exact hp
  rw [bind_ok (expect_closer _ _ _ _)]
  rfl

/-! ## Traits -/

/-- One turn of the members of a trait. -/
def memberTurn : Rule (Turn Member) := do
  if ← isAt (.closer .brace) then return .stop else return .more (← traitMember)

theorem members_reads (methods : List PlainMethod) (hp : p.line = 1) (q : Position)
    (rest : List Token) :
    many memberTurn (layout p (methods.flatMap PlainMethod.words) ++
      (Word.closer .brace).token q :: rest) =
        .ok (methods.map PlainMethod.tree, (Word.closer .brace).token q :: rest) := by
  induction methods generalizing p with
  | nil => exact many_stop rfl
  | cons m methods ih =>
    have hm := traitMember_reads m hp
    rw [List.flatMap_cons, layout_append, List.append_assoc]
    have hf (ts : List Token) : headIs (.closer .brace) (layout p m.words ++ ts) = false := by
      rw [PlainMethod.words, PlainMethod.signatureWords, List.cons_append, layout_cons rfl]
      rfl
    have hlen := length_le_layout p m.words
    refine many_more ?_ ?_ (ih ((line_behind p m.words).trans hp))
    · rw [memberTurn, isAt_else (hf _), bind_ok (hm _)]
      rfl
    · have hpos : 0 < m.words.length := List.length_pos_of_mem (List.mem_cons_self ..)
      simp only [List.length_append]
      omega

theorem traitDef_reads (name : Name) (methods : List PlainMethod) (hp : p.line = 1)
    (rest : List Token) : traitDef (layout p (PlainItem.trait name methods).words ++ rest) =
      .ok (⟨name.text, methods.map PlainMethod.tree, [], [], false, false⟩, rest) := by
  have hmembers (p q : Position) (hp : p.line = 1) := members_reads methods hp q rest
  have hin (p q : Position) (ts : List Token) : (discard (whole innerAttributes) : Rule PUnit)
      (layout p (methods.flatMap PlainMethod.words) ++ (Word.closer .brace).token q :: ts) =
        .ok (⟨⟩, layout p (methods.flatMap PlainMethod.words) ++
          (Word.closer .brace).token q :: ts) := by
    refine run_discard.2 ⟨[], ?_⟩
    cases methods with
    | nil => exact innerAttributes_word (by rintro ⟨⟩) (by rintro ⟨⟩) q ts
    | cons m methods => exact innerAttributes_word (by rintro ⟨⟩) (by rintro ⟨⟩) p _
  rw [PlainItem.words, layout_cons rfl, layout_cons rfl, layout_cons rfl, layout_append,
    layout_cons rfl, layout]
  simp only [List.cons_append, List.append_assoc, List.nil_append]
  unfold traitDef
  rw [bind_ok (accept_eq_false rfl), bind_ok (ahead_eq _ _)]
  change (discard (expect (.keyword .traitKw) "") >>= _) _ = _
  rw [bind_ok (expect_keyword _ _ _ _), bind_ok (expectName_name _ _ _),
    bind_ok (generics_none rfl)]
  have hsuper (p : Position) (ts : List Token) : supertraits ((Word.opener .brace).token p :: ts) =
    .ok ([], (Word.opener .brace).token p :: ts) := rfl
  rw [bind_ok (hsuper _ _), bind_ok (skipWhere_none rfl), bind_ok (expect_opener _ _ _ _),
    bind_ok (hin _ _ _)]
  change (many memberTurn >>= _) _ = _
  refine (bind_ok (hmembers _ _ ?_) _).trans ?_
  · exact hp
  rw [bind_ok (expect_closer _ _ _ _)]
  rfl

/-! ## Items -/

theorem item_enum (p : Position) (ts : List Token) : item ((Word.keyword .enumKw).token p :: ts) =
    (do return ⟨[], .inherited, p.line, .enumDef (← enumDef)⟩ : Rule Item)
      ((Word.keyword .enumKw).token p :: ts) := by
  unfold item
  rw [bind_ok (outerAttributes_word (by rintro ⟨⟩) (by rintro ⟨⟩) _ _)]
  rfl

/-- The variants of an enum are all that has to be read. -/
theorem item_entries (name : Name) {wss : List (List Word)} {variants : List Variant}
    (h : List.Forall₂ (Entry 1 Stopped (Word.closer .brace).kind variant) wss variants)
    (hp : p.line = 1) (rest : List Token) :
    item (layout p (.keyword .enumKw :: name.word :: .opener .brace ::
      (commaBetween wss ++ [.closer .brace])) ++ rest) =
        .ok (⟨[], .inherited, 1, .enumDef ⟨name.text, variants, []⟩⟩, rest) := by
  have he := (item_enum p _).trans (bind_ok (enumDef_entries name h hp rest) _)
  rwa [hp] at he

theorem item_plain (i : PlainItem) (hp : p.line = 1) (rest : List Token) :
    item (layout p i.words ++ rest) = .ok (i.tree, rest) := by
  have ha (k : Keyword) (ts : List Token) : whole outerAttributes ((Word.keyword k).token p :: ts) =
      .ok ([], (Word.keyword k).token p :: ts) :=
    outerAttributes_word (by rintro ⟨⟩) (by rintro ⟨⟩) p ts
  cases i with
  | struct name fields =>
    have hs (ts : List Token) : item ((Word.keyword .structKw).token p :: ts) = (do
        return ⟨[], .inherited, p.line, .structDef (← structDef)⟩ : Rule Item)
          ((Word.keyword .structKw).token p :: ts) := by
      unfold item
      rw [bind_ok (ha _ _)]
      rfl
    rw [PlainItem.tree, ← hp]
    exact (hs _).trans (bind_ok (structDef_reads name fields hp rest) _)
  | enumeration name variants =>
    exact item_entries name (entries_map fun v (_ : v ∈ variants) => variant_entry v) hp rest
  | trait name methods =>
    have ht (ts : List Token) : item ((Word.keyword .traitKw).token p :: ts) = (do
        return ⟨[], .inherited, p.line, .traitDef (← traitDef)⟩ : Rule Item)
          ((Word.keyword .traitKw).token p :: ts) := by
      unfold item
      rw [bind_ok (ha _ _)]
      rfl
    rw [PlainItem.tree, ← hp]
    exact (ht _).trans (bind_ok (traitDef_reads name methods hp rest) _)

theorem itemsOf_plain (items : List PlainItem) (hp : p.line = 1) :
    ItemsOf (layout p (items.flatMap PlainItem.words)) (items.map PlainItem.tree) := by
  induction items generalizing p with
  | nil => exact .nil
  | cons i items ih =>
    have hlen := length_le_layout p i.words
    obtain ⟨k, ws, hw⟩ := i.first
    rw [List.flatMap_cons, layout_append]
    refine .cons (item_plain i hp _) ?_ (ih ((line_behind p i.words).trans hp))
    rw [hw, List.length_cons] at hlen
    rw [List.length_append, hw]
    omega

/-! ## Files -/

theorem sourceFile_items {items : List Item}
    (ha : whole innerAttributes ts = .ok ([], ts)) (h : ItemsOf ts items) :
    sourceFile ts = .ok (⟨[], items⟩, []) := by
  unfold sourceFile
  rw [bind_ok ha]
  change (many itemTurn >>= _) _ = _
  rw [bind_ok (many_of_itemsOf h)]
  rfl

theorem sourceFile_plain (items : List PlainItem) :
    sourceFile (layout .start (items.flatMap PlainItem.words)) =
      .ok (⟨[], items.map PlainItem.tree⟩, []) := by
  refine sourceFile_items ?_ (itemsOf_plain items rfl)
  cases items with
  | nil => exact many_stop rfl
  | cons i items =>
    obtain ⟨k, ws, hw⟩ := i.first
    rw [List.flatMap_cons, hw, List.cons_append, layout_cons rfl]
    exact innerAttributes_word (by rintro ⟨⟩) (by rintro ⟨⟩) _ _

end Grammar

/-- The source text of plain declarations has their trees. -/
theorem ofText_sourceOf (items : List PlainItem) :
    SourceFile.ofText (sourceOf items) = .ok ⟨[], items.map PlainItem.tree⟩ := by
  obtain ⟨finish, ht⟩ := tokenize_sourceOf items
  exact SourceFile.ofText_eq_ok.2
    ⟨_, ht, SourceFile.ofTokens_eq_ok.2 ⟨[], Grammar.sourceFile_plain items⟩⟩

end Ferrotype
