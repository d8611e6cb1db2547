import Ferrotype.Grammar.Cursor
import Ferrotype.Proofs.Reworded.Types

/-!
# Files of reworded tokens

The rules for items, from the parts of a signature up to a whole file, find trees that are alike.
-/

namespace Ferrotype

open Grammar Rule

variable {E : Token → Token → Prop} {T : String → String → Prop} {ts us : List Token}

/-! ## Lookahead -/

namespace Rewording

variable (w : Rewording E T) (h : List.Forall₂ E ts us)
include w h

theorem dropIf (p : Kind → Bool) : List.Forall₂ E (dropIf p ts) (dropIf p us) := by
  cases h with
  | nil => exact .nil
  | cons hd h =>
    simp only [Grammar.dropIf, ← w.kind hd]
    split
    · exact h
    · exact .cons hd h

theorem behindSelf? : Option.Rel (List.Forall₂ E) (behindSelf? ts) (behindSelf? us) := by
  cases h with
  | nil => exact .none
  | cons hd h =>
    simp only [Grammar.behindSelf?, ← w.kind hd, ← w.headIs h]
    split
    · exact .some h
    · exact .none

/-- Whether a receiver is mutable, and what stands behind it. -/
theorem plainReceiver? : Option.Rel (fun p q => p.1 = q.1 ∧ List.Forall₂ E p.2 q.2)
    (plainReceiver? ts) (plainReceiver? us) := by
  have hb := w.behindSelf? (w.dropIf h (· == .keyword .mutKw))
  unfold Grammar.plainReceiver?
  rw [← w.headIs h]
  generalize Grammar.behindSelf? _ = r at hb ⊢
  generalize Grammar.behindSelf? _ = s at hb ⊢
  cases hb with
  | some h => exact .some ⟨rfl, h⟩
  | none => exact .none

theorem refReceiver? : Option.Rel (fun p q => p.1 = q.1 ∧ List.Forall₂ E p.2 q.2)
    (refReceiver? ts) (refReceiver? us) := by
  cases h with
  | nil => exact .none
  | cons hd h =>
    simp only [Grammar.refReceiver?, ← w.kind hd]
    split
    · exact w.plainReceiver? (w.dropIf h (· == .lifetime))
    · exact .none

theorem hasPattern (depth : Nat) : hasPattern depth ts = hasPattern depth us := by
  induction h generalizing depth with
  | nil => rfl
  | cons hd _ ih => simp only [Grammar.hasPattern, w.kind hd, ih]

/-- The word of a scope is a keyword. -/
theorem scopeWord? : scopeWord? ts = scopeWord? us := by
  rcases h with _ | ⟨h₁, _ | ⟨h₂, _ | ⟨h₃, h⟩⟩⟩
  · rfl
  · rfl
  · rfl
  simp only [Grammar.scopeWord?, w.kind h₁, w.kind h₂, w.kind h₃]
  split
  · next hk =>
    rw [w.word h₂]
    intro style hs
    rw [w.kind h₂] at hs
    simp [hs] at hk
  · rfl

theorem startsConstItem : startsConstItem ts = startsConstItem us := by
  rcases h with _ | ⟨h₁, _ | ⟨h₂, h⟩⟩
  · rfl
  · rfl
  · simp only [Grammar.startsConstItem, w.kind h₁, w.kind h₂]

theorem startsWordThen (word : String) (kind : Kind) :
    startsWordThen word kind ts = startsWordThen word kind us := by
  rcases h with _ | ⟨h₁, _ | ⟨h₂, h⟩⟩
  · rfl
  · rfl
  · simp only [Grammar.startsWordThen, w.isWord h₁, w.kind h₂]

theorem headWord (word : String) :
    ts.head?.any (Grammar.isWord word) = us.head?.any (Grammar.isWord word) := by
  cases h with
  | nil => rfl
  | cons hd _ => simp only [List.head?_cons, Option.any_some, w.isWord hd]

theorem startsTrait : startsTrait ts = startsTrait us := by
  have hd := w.dropIf h (· == .keyword .unsafeKw)
  unfold Grammar.startsTrait
  simp only [← w.headWord hd]
  split
  · exact w.headIs (List.forall₂_drop 1 hd) _
  · exact w.headIs hd _

end Rewording

namespace Grammar

/-- A constant has a name, or an underscore for one. -/
def isConstName (kind : Kind) : Bool := kind == .identifier || kind == .underscore

theorem startsConstItem_name (h : startsConstItem ts = true) :
    (ts.tail.head?.any fun t => isConstName t.kind) = true := by
  unfold startsConstItem at h
  split at h
  · exact (Bool.and_eq_true_iff.1 h).2
  · cases h

theorem startsWordThen_kind {word : String} {kind : Kind}
    (h : startsWordThen word kind ts = true) :
    (ts.tail.head?.any fun t => t.kind == kind) = true := by
  unfold startsWordThen at h
  split at h
  · exact (Bool.and_eq_true_iff.1 h).2
  · cases h

open Rule.Agree

variable (w : Rewording E T) (h : List.Forall₂ E ts us)
include w h

theorem wholeType_agree (allowPlus : Bool) :
    Rule.Agree E (wholeType allowPlus) (wholeType allowPlus) (Ty.Alike T) ts us :=
  whole_agree w h fun hR => type_agree w h hR allowPlus

theorem wholeAttributes_agree : Rule.Agree E (whole outerAttributes) (whole outerAttributes)
    (Attribute.AllAlike T) ts us := whole_agree w h fun hR => outerAttributes_agree w h hR

theorem wholeGenerics_agree : Rule.Agree E (whole generics) (whole generics) Eq ts us :=
  whole_agree w h fun hR => generics_agree w h hR

/-! ## Signatures -/

theorem param_agree : Rule.Agree E param param (Param.Alike T) ts us := by
  apply Agree.get
  have hr := w.refReceiver? h
  generalize refReceiver? ts = r at hr ⊢
  generalize refReceiver? us = s at hr ⊢
  cases hr with
  | @some p q hp =>
    obtain ⟨hm, h⟩ := hp
    simp only [hm]
    exact Agree.set (pure (.receiver .none) h)
  | none =>
  have hr := w.plainReceiver? h
  generalize plainReceiver? ts = r at hr ⊢
  generalize plainReceiver? us = s at hr ⊢
  cases hr with
  | @some p q hp =>
    obtain ⟨hm, h⟩ := hp
    simp only [hm]
    apply Agree.set
    refine join (R := Option.Rel (Ty.Alike T))
      (fun hj => acceptIte w h (fun ts us h => ?_) (pureThen hj .none h))
      fun _ _ _ _ ht h => pure (.receiver ht) h
    apply Agree.bind (wholeType_agree w h true)
    intro t t' ts us ht h
    exact pureThen hj (.some ht) h
  | none =>
  simp only [← w.hasPattern h]
  refine ite (fun _ => ?_) fun _ => ?_
  · apply Agree.bind (withText w h (skipTo w h))
    rintro ⟨_, x⟩ ⟨_, y⟩ ts us ⟨-, hx⟩ h
    apply skip (advance h)
    intro ts us h
    exact Agree.bind (wholeType_agree w h true) fun _ _ _ _ ht h => pure (.typed hx ht) h
  · exact Agree.bind (wholeType_agree w h true) fun _ _ _ _ ht h => pure (.typed joined_nil ht) h

theorem fnInput_agree :
    Rule.Agree E fnInput fnInput (Option.Rel (FnInput.Alike T)) ts us := by
  apply Agree.bind (wholeAttributes_agree w h)
  intro as as' ts us ha h
  refine acceptIte w h (fun _ _ h => pure .none h) ?_
  exact Agree.bind (param_agree w h) fun _ _ _ _ hp h => pure (.some ⟨ha, hp⟩) h

theorem skipWhere_agree : Rule.Agree E skipWhere skipWhere Eq ts us :=
  acceptIte w h (fun _ _ h => skipTo w h) (pure rfl h)

/-- A function is variadic if one of its inputs is none. -/
theorem signature_agree : Rule.Agree E signature signature (Signature.Alike T) ts us := by
  apply bindEq (fnQualifiers_agree w h)
  intro qualifiers ts us h
  apply expectOver w h
  intro ts us h
  apply bindEq (expectName w h)
  intro name ts us h
  apply bindEq (wholeGenerics_agree w h)
  intro generics ts us h
  apply expectOver w h
  intro ts us h
  apply Agree.bind (commaList w h fun ts us h => fnInput_agree w h)
  intro inputs inputs' ts us hi h
  apply expectOver w h
  intro ts us h
  have hv : inputs.any Option.isNone = inputs'.any Option.isNone := by
    clear h
    induction hi with
    | nil => rfl
    | cons hd _ ih =>
      cases hd with
      | some _ => simpa using ih
      | none => rfl
  refine join (R := Option.Rel (Ty.Alike T))
    (fun hj => acceptIte w h (fun ts us h => ?_) (pureThen hj .none h))
    fun output output' ts us ho h => ?_
  · apply Agree.bind (wholeType_agree w h true)
    intro t t' ts us ht h
    exact pureThen hj (.some ht) h
  · apply bindEq (skipWhere_agree w h)
    intro _ ts us h
    exact pure ⟨rfl, List.rel_filterMap (fun _ _ hi => hi) hi, ho, rfl, rfl, hv⟩ h

/-! ## Structs and enums -/

theorem visibility_agree : Rule.Agree E visibility visibility Eq ts us := by
  refine acceptIte w h (fun ts us h => ?_) (pure rfl h)
  apply Agree.get
  rw [← w.scopeWord? h]
  cases scopeWord? ts with
  | some word => exact Agree.set (pure rfl (List.forall₂_drop 3 h))
  | none =>
    have hs := w.startsWith h [.opener .paren, .keyword .inKw]
    simp only [← hs]
    refine ite (fun _ => ?_) fun _ => pure rfl h
    apply Agree.set
    apply bindEq (simplePath_agree w (List.forall₂_drop 2 h))
    intro path ts us h
    exact expectOver w h fun _ _ h => pure rfl h

theorem namedField_agree : Rule.Agree E namedField namedField (Field.Alike T) ts us := by
  apply Agree.bind (wholeAttributes_agree w h)
  intro as as' ts us ha h
  apply bindEq (visibility_agree w h)
  intro visibility ts us h
  apply Agree.bind (expect w h)
  rintro t u ts us ⟨hd, hk⟩ h
  apply expectOver w h
  intro ts us h
  apply Agree.bind (wholeType_agree w h true)
  intro type type' ts us ht h
  have hn : t.text = u.text := w.word hd (by simp [hk])
  exact pure ⟨congrArg some hn, ht, rfl, ha, by rw [w.place hd]⟩ h

theorem namedFields_agree :
    Rule.Agree E namedFields namedFields (List.Forall₂ (Field.Alike T)) ts us := by
  apply expectOver w h
  intro ts us h
  apply Agree.bind (commaList w h fun ts us h => namedField_agree w h)
  intro fields fields' ts us hf h
  exact expectOver w h fun _ _ h => pure hf h

theorem tupleField_agree : Rule.Agree E tupleField tupleField (Field.Alike T) ts us := by
  apply Agree.bind (wholeAttributes_agree w h)
  intro as as' ts us ha h
  apply bindEq (visibility_agree w h)
  intro visibility ts us h
  apply Agree.nextLine w h
  intro line
  apply Agree.bind (wholeType_agree w h true)
  intro type type' ts us ht h
  exact pure ⟨rfl, ht, rfl, ha, rfl⟩ h

theorem tupleFields_agree :
    Rule.Agree E tupleFields tupleFields (List.Forall₂ (Field.Alike T)) ts us := by
  apply expectOver w h
  intro ts us h
  apply Agree.bind (commaList w h fun ts us h => tupleField_agree w h)
  intro fields fields' ts us hf h
  exact expectOver w h fun _ _ h => pure hf h

/-- A keyword, a name and generics. -/
theorem headed {β : Type} {P : β → β → Prop} {kind : Kind} {x y : String → List String → Rule β}
    (hx : ∀ name generics ts us, List.Forall₂ E ts us →
      Rule.Agree E (x name generics) (y name generics) P ts us) :
    Rule.Agree E
      (do
        Functor.discard (Rule.expect kind "")
        let name ← Rule.expectName
        let generics ← whole generics
        x name generics)
      (do
        Functor.discard (Rule.expect kind "")
        let name ← Rule.expectName
        let generics ← whole generics
        y name generics) P ts us := by
  apply expectOver w h
  intro ts us h
  apply bindEq (expectName w h)
  intro name ts us h
  apply bindEq (wholeGenerics_agree w h)
  exact hx name

theorem structDef_agree : Rule.Agree E structDef structDef (StructDef.Alike T) ts us := by
  apply headed w h
  intro name generics ts us h
  apply bindEq (skipWhere_agree w h)
  intro _ ts us h
  apply isAt w h
  refine ite (fun _ => ?named) fun _ => ?_
  case named =>
    exact Agree.bind (namedFields_agree w h) fun _ _ _ _ hf h => pure ⟨rfl, .named hf, rfl⟩ h
  apply isAt w h
  refine ite (fun _ => ?_) fun _ =>
    acceptIte w h (fun _ _ h => pure ⟨rfl, .unit, rfl⟩ h) (refuse h)
  apply Agree.bind (tupleFields_agree w h)
  intro fields fields' ts us hf h
  apply bindEq (skipWhere_agree w h)
  intro _ ts us h
  exact expectOver w h fun _ _ h => pure ⟨rfl, .tuple hf, rfl⟩ h

theorem variant_agree : Rule.Agree E variant variant (Variant.Alike T) ts us := by
  apply Agree.bind (wholeAttributes_agree w h)
  intro as as' ts us ha h
  apply skip (visibility_agree w h)
  intro ts us h
  apply Agree.bind (expect w h)
  rintro t u ts us ⟨hd, hk⟩ h
  rw [w.word hd (by simp [hk]), w.place hd]
  have behind {p p' : Payload} (hp : Payload.Alike T p p') {ts us : List Token}
      (h : List.Forall₂ E ts us) : Rule.Agree E
        (do
          let discriminant ←
            if ← Rule.accept (.punct .eq) then pure (some (← whole fun R => binary R 1)) else pure none
          return Variant.mk u.text p discriminant as u.place.line)
        (do
          let discriminant ←
            if ← Rule.accept (.punct .eq) then pure (some (← whole fun R => binary R 1)) else pure none
          return Variant.mk u.text p' discriminant as' u.place.line)
        (Variant.Alike T) ts us := by
    refine join (R := Option.Rel (Expr.Alike T))
      (fun hj => acceptIte w h (fun ts us h => ?_) (pureThen hj .none h))
      fun _ _ _ _ he h => pure ⟨rfl, hp, he, ha, rfl⟩ h
    apply Agree.bind (whole_agree w h fun hR => binary_agree w h hR 1)
    intro e e' ts us he h
    exact pureThen hj (.some he) h
  apply isAt w h
  apply isAt w h
  refine ite (fun _ => ?_) fun _ => ite (fun _ => ?_) fun _ => behind .unit h
  · exact Agree.bind (namedFields_agree w h) fun _ _ _ _ hf h => behind (.named hf) h
  exact Agree.bind (tupleFields_agree w h) fun _ _ _ _ hf h => behind (.tuple hf) h

theorem enumDef_agree : Rule.Agree E enumDef enumDef (EnumDef.Alike T) ts us := by
  apply headed w h
  intro name generics ts us h
  apply bindEq (skipWhere_agree w h)
  intro _ ts us h
  apply expectOver w h
  intro ts us h
  apply Agree.bind (commaList w h fun ts us h => variant_agree w h)
  intro variants variants' ts us hv h
  exact expectOver w h fun _ _ h => pure ⟨rfl, hv, rfl⟩ h

/-! ## Macros and traits -/

theorem macroBody_agree : Rule.Agree E macroBody macroBody Eq ts us := by
  apply nextIs w h
  refine ite (fun _ => ?_) fun _ => refuse h
  apply isAt w h
  apply bindEq (skipTree w h)
  intro _ ts us h
  exact ite (fun _ => pure rfl h) fun _ => (expect w h).discard

/-- A name, and what is read over behind it. -/
theorem nameThen {β : Type} {x : Rule Unit} {make : String → β} {P : β → β → Prop}
    (hx : ∀ {ts us}, List.Forall₂ E ts us → Rule.Agree E x x Eq ts us)
    (hm : ∀ name, P (make name) (make name)) :
    Rule.Agree E (do let name ← Rule.expectName; x; return make name)
      (do let name ← Rule.expectName; x; return make name) P ts us := by
  apply bindEq (expectName w h)
  intro name ts us h
  exact bindEq (hx h) fun _ _ _ h => pure (hm name) h

/-- A constant up to its end, of which only the name is kept. -/
theorem constantThen {β : Type} {make : String → β} {P : β → β → Prop}
    (hc : startsConstItem ts = true) (hm : ∀ name, P (make name) (make name)) :
    Rule.Agree E
      (do
        discard Rule.advance
        let name ← Rule.nextText
        discard Rule.advance
        Rule.skipToSemicolon
        return make name)
      (do
        discard Rule.advance
        let name ← Rule.nextText
        discard Rule.advance
        Rule.skipToSemicolon
        return make name) P ts us := by
  apply Agree.tail
  apply nextWord w (forall₂_tail h) (p := isConstName) (fun _ => rfl) (startsConstItem_name hc)
  intro name
  apply skip (advance (forall₂_tail h))
  intro ts us h
  exact bindEq (skipToSemicolon w h) fun _ _ _ h => pure (hm name) h

theorem memberBody_agree :
    Rule.Agree E memberBody memberBody (MemberBody.Alike T) ts us := by
  refine acceptIte w h (fun ts us h => nameThen w h (skipToSemicolon w) fun _ => .other) ?_
  apply ahead (w.startsConstItem h)
  refine ite (fun hc => constantThen w h hc fun _ => .other) fun _ => ?_
  apply ahead (w.startsMacro h)
  refine ite (fun _ => ?call) fun _ => ?_
  case call =>
    apply bindEq (simplePath_agree w h)
    intro name ts us h
    apply expectOver w h
    intro ts us h
    exact bindEq (macroBody_agree w h) fun _ _ _ h => pure .other h
  apply nextIs w h
  refine ite (fun _ => ?_) fun _ => refuse h
  apply Agree.bind (signature_agree w h)
  intro signature signature' ts us hs h
  apply isAt w h
  refine ite (fun _ => ?_) fun _ => expectOver w h fun _ _ h => pure (.fn hs) h
  exact bindEq (skipTree w h) fun _ _ _ h => pure (.fn hs) h

theorem traitMember_agree :
    Rule.Agree E traitMember traitMember (Member.Alike T) ts us := by
  apply Agree.bind (wholeAttributes_agree w h)
  intro as as' ts us ha h
  apply Agree.nextLine w h
  intro line
  exact Agree.bind (memberBody_agree w h) fun _ _ _ _ hb h => pure ⟨ha, rfl, hb⟩ h

theorem supertraits_agree :
    Rule.Agree E supertraits supertraits (List.Forall₂ (Joined T)) ts us := by
  refine acceptIte w h (fun ts us h => ?_) (pure .nil h)
  apply nextIs w h
  refine ite (fun _ => pure .nil h) fun _ => ?_
  exact whole_agree w h fun hR => bounds_agree w h hR true

theorem traitDef_agree : Rule.Agree E traitDef traitDef (TraitDef.Alike T) ts us := by
  apply bindEq (accept w h)
  intro isUnsafe ts us h
  apply ahead (w.headWord h "auto")
  refine opt h (fun _ => (advance h).discard) fun ts us h => ?_
  apply headed w h
  intro name generics ts us h
  apply Agree.bind (supertraits_agree w h)
  intro bounds bounds' ts us hb h
  apply bindEq (skipWhere_agree w h)
  intro _ ts us h
  apply expectOver w h
  intro ts us h
  apply skip (whole_agree w h fun hR => innerAttributes_agree w h hR)
  intro ts us h
  apply Agree.bind (P := List.Forall₂ (Member.Alike T))
  · apply many h
    intro ts us h
    apply isAt w h
    refine ite (fun _ => pure .stop h) fun _ => ?_
    exact Agree.bind (traitMember_agree w h) fun _ _ _ _ hm h => pure (.more hm) h
  · intro members members' ts us hm h
    exact expectOver w h fun _ _ h => pure ⟨rfl, hm, rfl, hb, rfl, rfl⟩ h

/-! ## Items that are read over -/

theorem moduleBody_agree : Rule.Agree E moduleBody moduleBody Eq ts us := by
  refine acceptIte w h (fun _ _ h => pure rfl h) ?_
  apply isAt w h
  exact ite (fun _ => skipTree w h) fun _ => refuse h

theorem qualifiedItem_agree :
    Rule.Agree E qualifiedItem qualifiedItem (ItemBody.Alike T) ts us := by
  apply Agree.get
  have hf := forall₂_head? h
  apply bindEq (fnQualifiers_agree w h)
  intro qualifiers ts us h
  refine acceptIte w h (fun ts us h => nameThen w h (skipToBlockOrSemicolon w) fun _ => .other) ?_
  apply isAt w h
  refine ite (fun _ => ?_) fun _ => ?_
  · exact bindEq (skipToBlockOrSemicolon w h) fun _ _ _ h => pure .other h
  apply isAt w h
  refine ite (fun _ => ?_) fun _ => throw hf
  exact bindEq (skipTree w h) fun _ _ _ h => pure .other h

theorem otherItem_agree : Rule.Agree E otherItem otherItem (ItemBody.Alike T) ts us := by
  apply ahead (w.startsWordThen h _ _)
  refine ite (fun _ => ?rules) fun _ => ?_
  case rules =>
    apply skip (advance h)
    intro ts us h
    apply skip (advance h)
    intro ts us h
    exact nameThen w h (macroBody_agree w) fun _ => .other
  apply ahead (w.startsMacro h)
  refine ite (fun _ => ?call) fun _ => ?_
  case call =>
    apply bindEq (simplePath_agree w h)
    intro name ts us h
    apply expectOver w h
    intro ts us h
    apply skip (accept w h)
    intro ts us h
    exact bindEq (macroBody_agree w h) fun _ _ _ h => pure .other h
  apply ahead (w.startsWordThen h _ _)
  refine ite (fun hu => ?union) fun _ => ?_
  case union =>
    apply Agree.tail
    apply nextWord w (forall₂_tail h) (p := (· == .identifier)) (fun _ => rfl)
      (startsWordThen_kind hu)
    intro name
    apply skip (advance (forall₂_tail h))
    intro ts us h
    exact bindEq (skipToBlockOrSemicolon w h) fun _ _ _ h => pure .other h
  apply isAt w h
  refine ite (fun _ => bindEq (skipToSemicolon w h) fun _ _ _ h => pure .other h) fun _ => ?_
  refine acceptIte w h (fun ts us h => ?static) ?_
  case static =>
    apply skip (accept w h)
    intro ts us h
    apply nextText w h
    intro x y hx _
    exact bindEq (skipToSemicolon w h) fun _ _ _ h => pure (.anyName (.inl rfl) hx) h
  refine acceptIte w h (fun ts us h => nameThen w h (skipToSemicolon w) fun _ => .other) ?_
  refine acceptIte w h (fun ts us h => nameThen w h (moduleBody_agree w) fun _ => .other) ?_
  apply ahead (w.startsConstItem h)
  refine ite (fun hc => constantThen w h hc fun _ => .other) fun _ => ?_
  apply ahead (w.startsWith h _)
  refine ite (fun _ => ?_) fun _ => qualifiedItem_agree w h
  apply skip (advance h)
  intro ts us h
  apply skip (advance h)
  intro ts us h
  apply nextText w h
  intro x y hx _
  exact bindEq (skipToSemicolon w h) fun _ _ _ h => pure (.anyName (.inr rfl) hx) h

/-! ## Items and files -/

theorem item_agree : Rule.Agree E item item (Item.Alike T) ts us := by
  apply Agree.bind (wholeAttributes_agree w h)
  intro as as' ts us ha h
  apply bindEq (visibility_agree w h)
  intro visibility ts us h
  apply Agree.nextLine w h
  intro line
  apply isAt w h
  apply isAt w h
  apply ahead (w.startsTrait h)
  refine ite (fun _ => ?_) fun _ => ite (fun _ => ?_) fun _ => ite (fun _ => ?_) fun _ => ?_
  · exact Agree.bind (structDef_agree w h) fun _ _ _ _ hs h => pure ⟨ha, rfl, rfl, .structDef hs⟩ h
  · exact Agree.bind (enumDef_agree w h) fun _ _ _ _ he h => pure ⟨ha, rfl, rfl, .enumDef he⟩ h
  · exact Agree.bind (traitDef_agree w h) fun _ _ _ _ ht h => pure ⟨ha, rfl, rfl, .traitDef ht⟩ h
  · exact Agree.bind (otherItem_agree w h) fun _ _ _ _ hb h => pure ⟨ha, rfl, rfl, hb⟩ h

theorem sourceFile_agree :
    Rule.Agree E sourceFile sourceFile (SourceFile.Alike T) ts us := by
  apply Agree.bind (whole_agree w h fun hR => innerAttributes_agree w h hR)
  intro as as' ts us ha h
  apply Agree.bind (P := List.Forall₂ (Item.Alike T))
  · apply many h
    intro ts us h
    apply Agree.get
    cases h with
    | nil => exact pure .stop .nil
    | cons hd h =>
      exact Agree.bind (item_agree w (.cons hd h)) fun _ _ _ _ hi h => pure (.more hi) h
  · intro items items' ts us hi h
    exact pure ⟨ha, hi⟩ h

end Grammar

/-! ## Files -/

/-- Two files of reworded tokens are both read, as files that are alike, or neither is. -/
theorem ofTokens_alike {tokens tokens' : Tokens} (w : Rewording E T)
    (h : List.Forall₂ E tokens.list tokens'.list) :
    (∃ file file', SourceFile.ofTokens tokens = .ok file ∧
      SourceFile.ofTokens tokens' = .ok file' ∧ SourceFile.Alike T file file') ∨
    ∃ f g, SourceFile.ofTokens tokens = .error (.ofGrammar tokens.finish f) ∧
      SourceFile.ofTokens tokens' = .error (.ofGrammar tokens'.finish g) ∧
        Option.Rel E f.token? g.token? := by
  have hf := sourceFile_agree w h
  simp only [SourceFile.ofTokens, Cursor.read, Cursor.start]
  unfold Rule.Agree at hf
  generalize sourceFile tokens.list = r at hf
  generalize sourceFile tokens'.list = s at hf
  cases hf with
  | ok hf _ => exact .inl ⟨_, _, rfl, rfl, hf⟩
  | error hf => exact .inr ⟨_, _, rfl, rfl, hf⟩

end Ferrotype
