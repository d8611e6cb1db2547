import Ferrotype.Proofs.Grammar.File
import Ferrotype.Proofs.Halting.Types

/-!
# Items and files come to an end

A file is a repetition of items, and an item reads a token.
-/

namespace Ferrotype.Grammar

open Rule

variable {ts rest : List Token}

/-! ## Rules of the whole grammar -/

theorem wholeType_halts (allowPlus : Bool) : (wholeType allowPlus).Halts (fun _ => true) ts :=
  whole_halts fun hR => type_halts hR (Nat.le_refl _) allowPlus

theorem wholeExpr_halts : (whole fun R => binary R 1).Halts (fun _ => true) ts :=
  whole_halts fun hR => binary_halts hR (Nat.le_refl _) 1

theorem wholeAttributes_halts (style : DocStyle) (marks : List Kind) :
    (whole fun R => attributes R style marks).Halts (fun _ => false) ts :=
  whole_halts fun hR => attributes_halts hR (Nat.le_refl _) style marks

theorem outerAttributes_halts : (whole outerAttributes).Halts (fun _ => false) ts :=
  wholeAttributes_halts _ _

theorem innerAttributes_halts : (whole innerAttributes).Halts (fun _ => false) ts :=
  wholeAttributes_halts _ _

theorem wholeGenerics_halts : (whole generics).Halts (fun _ => false) ts :=
  whole_halts fun hR => generics_halts hR (Nat.le_refl _)

/-! ## Signatures -/

theorem dropIf_suffix (p : Kind → Bool) (ts : List Token) : dropIf p ts <:+ ts := by
  cases ts with
  | nil => exact List.suffix_refl []
  | cons t ts =>
    simp only [dropIf]
    split
    · exact List.suffix_cons t ts
    · exact List.suffix_refl _

theorem behindSelf?_cons (h : behindSelf? ts = some rest) : ∃ t, ts = t :: rest := by
  unfold behindSelf? at h
  split at h
  · next t us =>
    split at h
    · cases h
      exact ⟨t, rfl⟩
    · cases h
  · cases h

/-- The tokens of a receiver are read. -/
theorem plainReceiver?_length {mutable : Bool} (h : plainReceiver? ts = some (mutable, rest)) :
    rest.length < ts.length := by
  obtain ⟨us, hb, he⟩ := Option.map_eq_some_iff.1 h
  cases he
  obtain ⟨t, ht⟩ := behindSelf?_cons hb
  have hl := (dropIf_suffix (· == .keyword .mutKw) ts).length_le
  rw [ht] at hl
  exact hl

theorem refReceiver?_length {mutable : Bool} (h : refReceiver? ts = some (mutable, rest)) :
    rest.length < ts.length := by
  unfold refReceiver? at h
  split at h
  · next t us =>
    split at h
    · have hr : rest.length < (dropIf (· == .lifetime) us).length := plainReceiver?_length h
      have hl := (dropIf_suffix (· == .lifetime) us).length_le
      exact Nat.lt_succ_of_le (by omega)
    · cases h
  · cases h

theorem param_halts : param.Halts (fun _ => true) ts := by
  refine .get ?_
  cases hr : refReceiver? ts with
  | some r =>
    have hs : Reads [] [] ts r.2 := refReceiver?_reads hr []
    exact .setRead hs.suffix (refReceiver?_length hr) (.pure rfl)
  | none =>
  cases hp : plainReceiver? ts with
  | some r =>
    have hs : Reads [] [] ts r.2 := plainReceiver?_reads hp []
    refine .setRead hs.suffix (plainReceiver?_length hp) ?_
    refine .join (fun hj => .acceptIte (fun us hu => ?_) (.pureThen hj)) fun type us _ => .pure rfl
    refine .bind (wholeType_halts true) fun type vs hv => ?_
    exact .pureThen fun type xs hx => hj type xs (by omega)
  | none =>
  refine .ite (fun _ => ?_) fun _ => .read (wholeType_halts true) fun _ _ _ => .pure rfl
  refine .bind (.withText .skipTo) fun r us _ => .bind (.discard .advance) fun _ us _ => ?_
  exact .read (wholeType_halts true) fun _ _ _ => .pure rfl

theorem fnInput_halts : fnInput.Halts (fun _ => true) ts := by
  refine .bind outerAttributes_halts fun attributes us _ => .acceptIte (fun _ _ => .pure rfl) ?_
  exact .read param_halts fun _ _ _ => .pure rfl

theorem skipWhere_halts : skipWhere.Halts (fun _ => false) ts :=
  .acceptIte (fun _ _ => .skipTo) (.pure rfl)

theorem signature_halts : signature.Halts (fun _ => true) ts := by
  refine .bind fnQualifiers_halts fun qualifiers us _ => .read (.discard .expect) fun _ us _ => ?_
  refine .bind .expectName fun name us _ => .bind wholeGenerics_halts fun generics us _ => ?_
  refine .bind (.discard .expect) fun _ us _ => ?_
  refine .bind (.commaList fun us _ => fnInput_halts) fun inputs us _ => ?_
  refine .bind (.discard .expect) fun _ us _ => ?_
  refine .join (fun hj => .acceptIte (fun vs hv => ?_) (.pureThen hj)) fun output vs _ => ?_
  · refine .bind (wholeType_halts true) fun type xs hx => ?_
    exact .pureThen fun type ys hy => hj type ys (by omega)
  · exact .bind skipWhere_halts fun _ _ _ => .pure rfl

/-! ## Structs and enums -/

theorem visibility_halts : visibility.Halts (fun _ => false) ts := by
  refine .acceptIte (fun us _ => .get ?_) (.pure rfl)
  cases scopeWord? us with
  | some word => exact .set (List.drop_suffix 3 us) (.pure rfl)
  | none =>
  refine .ite (fun _ => .set (List.drop_suffix 2 us) ?_) fun _ => .pure rfl
  exact .bind simplePath_halts fun path _ _ => .bind (.discard .expect) fun _ _ _ => .pure rfl

theorem namedField_halts : namedField.Halts (fun _ => true) ts := by
  refine .bind outerAttributes_halts fun attributes us _ => .bind visibility_halts fun _ us _ => ?_
  refine .read .expect fun name us _ => .bind (.discard .expect) fun _ us _ => ?_
  exact .bind (wholeType_halts true) fun _ _ _ => .pure rfl

theorem namedFields_halts : namedFields.Halts (fun _ => true) ts := by
  refine .read (.discard .expect) fun _ us _ => ?_
  refine .bind (.commaList fun us _ => namedField_halts) fun fields us _ => ?_
  exact .bind (.discard .expect) fun _ _ _ => .pure rfl

theorem tupleField_halts : tupleField.Halts (fun _ => true) ts := by
  refine .bind outerAttributes_halts fun attributes us _ => .bind visibility_halts fun _ us _ => ?_
  exact .nextLine fun line => .read (wholeType_halts true) fun _ _ _ => .pure rfl

theorem tupleFields_halts : tupleFields.Halts (fun _ => true) ts := by
  refine .read (.discard .expect) fun _ us _ => ?_
  refine .bind (.commaList fun us _ => tupleField_halts) fun fields us _ => ?_
  exact .bind (.discard .expect) fun _ _ _ => .pure rfl

theorem structDef_halts : structDef.Halts (fun _ => true) ts := by
  refine .read (.discard .expect) fun _ us _ => .bind .expectName fun name us _ => ?_
  refine .bind wholeGenerics_halts fun generics us _ => .bind skipWhere_halts fun _ us _ => ?_
  refine .isAt (.ite (fun _ => .bind namedFields_halts fun _ _ _ => .pure rfl) fun _ => ?_)
  refine .isAt (.ite (fun _ => ?_) fun _ => .acceptIte (fun _ _ => .pure rfl) .refuse)
  refine .bind tupleFields_halts fun fields us _ => .bind skipWhere_halts fun _ us _ => ?_
  exact .bind (.discard .expect) fun _ _ _ => .pure rfl

theorem variant_halts : variant.Halts (fun _ => true) ts := by
  refine .bind outerAttributes_halts fun attributes us _ => ?_
  refine .bind (.discard visibility_halts) fun _ us _ => .read .expect fun name us _ => ?_
  have hj (payload : Payload) (us) : Rule.Halts
      (do
        let discriminant ←
          if ← accept (.punct .eq) then pure (some (← whole fun R => binary R 1)) else pure none
        return Variant.mk name.text payload discriminant attributes name.place.line)
      (fun _ => false) us := by
    refine .join (fun hj => .acceptIte (fun vs hv => ?_) (.pureThen hj)) fun _ _ _ => .pure rfl
    refine .bind wholeExpr_halts fun value xs hx => ?_
    exact .pureThen fun value ys hy => hj value ys (by omega)
  refine .isAt (.isAt (.ite (fun _ => ?_) fun _ => .ite (fun _ => ?_) fun _ => hj _ _))
  · exact .bind namedFields_halts fun _ _ _ => hj _ _
  · exact .bind tupleFields_halts fun _ _ _ => hj _ _

theorem enumDef_halts : enumDef.Halts (fun _ => true) ts := by
  refine .read (.discard .expect) fun _ us _ => .bind .expectName fun name us _ => ?_
  refine .bind wholeGenerics_halts fun generics us _ => .bind skipWhere_halts fun _ us _ => ?_
  refine .bind (.discard .expect) fun _ us _ => ?_
  refine .bind (.commaList fun us _ => variant_halts) fun variants us _ => ?_
  exact .bind (.discard .expect) fun _ _ _ => .pure rfl

/-! ## Macros and traits -/

theorem macroBody_halts : macroBody.Halts (fun _ => true) ts := by
  refine .nextIs (.ite (fun _ => .isAt (.read .skipTree fun _ us _ => ?_)) fun _ => .refuse)
  exact .ite (fun _ => .pure rfl) fun _ => .any (.discard .expect)

theorem memberBody_halts : memberBody.Halts (fun _ => true) ts := by
  refine .acceptIte (fun us _ => ?type) (.ahead (.ite (fun _ => ?const) fun _ => ?_))
  case type =>
    exact .bind .expectName fun name us _ => .bind .skipToSemicolon fun _ _ _ => .pure rfl
  case const =>
    refine .bind (.discard .advance) fun _ us _ => .nextText fun name => ?_
    refine .bind (.discard .advance) fun _ us _ => ?_
    exact .read .skipToSemicolon fun _ _ _ => .pure rfl
  refine .ahead (.ite (fun _ => ?call) fun _ => .nextIs (.ite (fun _ => ?_) fun _ => .refuse))
  case call =>
    refine .read simplePath_halts fun name us _ => .bind (.discard .expect) fun _ us _ => ?_
    exact .bind macroBody_halts fun _ _ _ => .pure rfl
  refine .read signature_halts fun signature us _ => .isAt (.ite (fun _ => ?_) fun _ => ?_)
  · exact .bind .skipTree fun _ _ _ => .pure rfl
  · exact .bind (.discard .expect) fun _ _ _ => .pure rfl

theorem traitMember_halts : traitMember.Halts (fun _ => true) ts := by
  refine .bind outerAttributes_halts fun attributes us _ => .nextLine fun line => ?_
  exact .read memberBody_halts fun _ _ _ => .pure rfl

theorem supertraits_halts : supertraits.Halts (fun _ => false) ts := by
  refine .acceptIte (fun us _ => .nextIs (.ite (fun _ => .pure rfl) fun _ => ?_)) (.pure rfl)
  exact .any (whole_halts fun hR => bounds_halts hR (Nat.le_refl _) true)

theorem traitDef_halts : traitDef.Halts (fun _ => true) ts := by
  refine .bind .accept fun isUnsafe us _ => ?_
  refine .ahead (.opt (fun _ => .discard .advance) fun us _ => .read (.discard .expect) fun _ us _ => ?_)
  refine .bind .expectName fun name us _ => .bind wholeGenerics_halts fun generics us _ => ?_
  refine .bind supertraits_halts fun supertraits us _ => .bind skipWhere_halts fun _ us _ => ?_
  refine .bind (.discard .expect) fun _ us _ => .bind (.discard innerAttributes_halts) fun _ us _ => ?_
  refine .bind (.many fun us _ => .isAt (.ite (fun _ => .pure rfl) fun _ => ?_)) fun members us _ => ?_
  · exact .read traitMember_halts fun _ _ _ => .pure rfl
  · exact .bind (.discard .expect) fun _ _ _ => .pure rfl

/-! ## Items that are read over -/

theorem moduleBody_halts : moduleBody.Halts (fun _ => true) ts :=
  .acceptIte (fun _ _ => .pure rfl) (.isAt (.ite (fun _ => .skipTree) fun _ => .refuse))

theorem qualifiedItem_halts : qualifiedItem.Halts (fun _ => true) ts := by
  refine .get (.bind fnQualifiers_halts fun qualifiers us _ => .acceptIte (fun us _ => ?fn) ?_)
  case fn =>
    exact .bind .expectName fun name us _ => .bind .skipToBlockOrSemicolon fun _ _ _ => .pure rfl
  refine .isAt (.ite (fun _ => ?_) fun _ => .isAt (.ite (fun _ => ?_) fun _ => ?_))
  · exact .read .skipToBlockOrSemicolon fun _ _ _ => .pure rfl
  · exact .read .skipTree fun _ _ _ => .pure rfl
  · exact .throw (by simp)

theorem otherItem_halts : otherItem.Halts (fun _ => true) ts := by
  refine .ahead (.ite (fun _ => ?rules) fun _ => .ahead (.ite (fun _ => ?call) fun _ => ?_))
  case rules =>
    refine .bind (.discard .advance) fun _ us _ => .bind (.discard .advance) fun _ us _ => ?_
    exact .read .expectName fun name us _ => .bind macroBody_halts fun _ _ _ => .pure rfl
  case call =>
    refine .read simplePath_halts fun name us _ => .bind (.discard .expect) fun _ us _ => ?_
    exact .bind (.discard .accept) fun _ us _ => .bind macroBody_halts fun _ _ _ => .pure rfl
  refine .ahead (.ite (fun _ => ?union) fun _ => .isAt (.ite (fun _ => ?use) fun _ => ?_))
  case union =>
    refine .bind (.discard .advance) fun _ us _ => .nextText fun name => ?_
    refine .bind (.discard .advance) fun _ us _ => ?_
    exact .read .skipToBlockOrSemicolon fun _ _ _ => .pure rfl
  case use => exact .read .skipToSemicolon fun _ _ _ => .pure rfl
  refine .acceptIte (fun us _ => ?static) (.acceptIte (fun us _ => ?type) ?_)
  case static =>
    refine .bind (.discard .accept) fun _ us _ => .nextText fun name => ?_
    exact .bind .skipToSemicolon fun _ _ _ => .pure rfl
  case type =>
    exact .bind .expectName fun name us _ => .bind .skipToSemicolon fun _ _ _ => .pure rfl
  refine .acceptIte (fun us _ => ?module) (.ahead (.ite (fun _ => ?const) fun _ => ?_))
  case module =>
    exact .bind .expectName fun name us _ => .bind moduleBody_halts fun _ _ _ => .pure rfl
  case const =>
    refine .bind (.discard .advance) fun _ us _ => .nextText fun name => ?_
    refine .bind (.discard .advance) fun _ us _ => ?_
    exact .read .skipToSemicolon fun _ _ _ => .pure rfl
  refine .ahead (.ite (fun _ => ?crate) fun _ => qualifiedItem_halts)
  refine .bind (.discard .advance) fun _ us _ => .bind (.discard .advance) fun _ us _ => ?_
  exact .nextText fun name => .read .skipToSemicolon fun _ _ _ => .pure rfl

/-! ## Items and files -/

theorem item_halts : item.Halts (fun _ => true) ts := by
  refine .bind outerAttributes_halts fun attributes us _ => .bind visibility_halts fun _ us _ => ?_
  refine .nextLine fun line => .isAt (.isAt (.ahead (.ite (fun _ => ?_) fun _ => ?_)))
  · exact .read structDef_halts fun _ _ _ => .pure rfl
  refine .ite (fun _ => .read enumDef_halts fun _ _ _ => .pure rfl) fun _ => ?_
  refine .ite (fun _ => .read traitDef_halts fun _ _ _ => .pure rfl) fun _ => ?_
  exact .read otherItem_halts fun _ _ _ => .pure rfl

theorem sourceFile_halts : sourceFile.Halts (fun _ => false) ts := by
  refine .bind innerAttributes_halts fun attributes us _ => ?_
  refine .bind (.many fun us _ => .get (.ite (fun _ => .pure rfl) fun _ => ?_)) fun _ _ _ => .pure rfl
  exact .read item_halts fun _ _ _ => .pure rfl

end Ferrotype.Grammar
