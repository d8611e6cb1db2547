import Ferrotype.Proofs.Grammar.Operators
import Ferrotype.Proofs.Grammar.Types
import Ferrotype.Proofs.Plain.Text
import Ferrotype.Proofs.Plain.Types

/-!
# Parts of plain declarations are read

A field, a variant or a function of a plain declaration is read from its words, up to what stands
behind it in the list.
-/

namespace Ferrotype

namespace Grammar

open Rule

variable {ts rest : List Token} {p : Position}

/-! ## Steps -/

theorem expect_name (n : Name) (p : Position) (ts : List Token) :
    expect .identifier "identifier" (n.word.token p :: ts) = .ok (n.word.token p, ts) :=
  run_expect.2 ⟨rfl, rfl⟩

theorem expectName_name (n : Name) (p : Position) (ts : List Token) :
    expectName (n.word.token p :: ts) = .ok (n.text, ts) := by
  unfold expectName
  rw [bind_ok (expect_name n p ts)]
  rfl

theorem outerAttributes_word {w : Word} (hd : w.kind ≠ .doc .outer) (hp : w.kind ≠ .punct .pound)
    (p : Position) (ts : List Token) :
    whole outerAttributes (w.token p :: ts) = .ok ([], w.token p :: ts) :=
  attributes_none _ hd hp [] ts

theorem innerAttributes_word {w : Word} (hd : w.kind ≠ .doc .inner) (hp : w.kind ≠ .punct .pound)
    (p : Position) (ts : List Token) :
    whole innerAttributes (w.token p :: ts) = .ok ([], w.token p :: ts) :=
  attributes_none _ hd hp [.punct .bang] ts

theorem outerAttributes_name (n : Name) (p : Position) (ts : List Token) :
    whole outerAttributes (n.word.token p :: ts) = .ok ([], n.word.token p :: ts) :=
  outerAttributes_word (by rintro ⟨⟩) (by rintro ⟨⟩) p ts

theorem visibility_name (n : Name) (p : Position) (ts : List Token) :
    visibility (n.word.token p :: ts) = .ok (.inherited, n.word.token p :: ts) := rfl

/-! ## Fields -/

theorem namedField_reads (f : PlainField) (hp : p.line = 1) (hr : TypeEnd rest) :
    namedField (layout p f.words ++ rest) = .ok (f.tree, rest) := by
  rw [PlainField.words, layout_cons rfl, layout_cons rfl, List.cons_append, List.cons_append,
    namedField, bind_ok (outerAttributes_name _ _ _), bind_ok (visibility_name _ _ _),
    bind_ok (expect_name _ _ _), bind_ok (expect_mark _ _ _ _), bind_ok (wholeType_reads _ _ _ hr),
    PlainField.tree, ← hp]
  rfl

theorem field_entry (f : PlainField) :
    Entry 1 TypeEnd (Word.closer .brace).kind namedField f.words f.tree :=
  ⟨⟨_, _, rfl, by rintro ⟨⟩⟩, fun _ _ hp hr => namedField_reads f hp hr⟩

/-! ## Variants -/

theorem Stopped.headIs {kind : Kind} (h : Stopped ts) (hk : ∀ w ∈ stops, w.kind ≠ kind) :
    headIs kind ts = false := by
  obtain ⟨w, hw, p, rest, rfl⟩ := h
  exact beq_eq_false_iff_ne.2 (hk w hw)

theorem intValue_reads (text : String) (p : Position) (hr : Stopped rest) :
    whole (fun R => binary R 1) (Word.token ⟨.int, text, false⟩ p :: rest) =
      .ok (.literal text .int, rest) :=
  Expr.Plain.reads (e := .literal text .int) (.literal (by decide)) .literal p hr

theorem value_reads (v : PlainValue) (p : Position) (hr : Stopped rest) :
    whole (fun R => binary R 1) (v.word.token p :: rest) = .ok (v.tree, rest) := by
  cases v with
  | number d => exact intValue_reads d.text p hr
  | symbol n =>
    have hw : pathWordOf n.text = n.word := by
      rw [pathWordOf, n.wordKind]
      rfl
    have hr := Expr.Plain.reads (e := .path [n.text] false false) (.path (by simp)) .path p hr
    have hws : (Expr.path [n.text] false false).words = [n.word] := by
      rw [Expr.words, pathWords, hw]
      rfl
    rwa [hws] at hr

/-- A variant that holds nothing, from behind its name on. -/
def bareVariant (name : String) (line : Nat) : Rule Variant := do
  let discriminant ←
    if ← accept (.punct .eq) then pure (some (← whole fun R => binary R 1)) else pure none
  return ⟨name, .unit, discriminant, [], line⟩

theorem variant_bare (n : Name) (p : Position) (hb : headIs (.opener .brace) ts = false)
    (hp : headIs (.opener .paren) ts = false) :
    variant (n.word.token p :: ts) = bareVariant n.text p.line ts := by
  have hv : (discard visibility : Rule PUnit) (n.word.token p :: ts) =
      .ok (⟨⟩, n.word.token p :: ts) := run_discard.2 ⟨_, visibility_name n p ts⟩
  unfold variant
  rw [bind_ok (outerAttributes_name _ _ _), bind_ok hv, bind_ok (expect_name _ _ _)]
  change (isAt (.opener .brace) >>= _) ts = _
  rw [bind_ok (isAt_eq_false hb), bind_ok (isAt_eq_false hp)]
  rfl

theorem variant_valued (n : Name) {w : Word} {e : Expr} (hw : w.twice = false)
    (he : ∀ p, whole (fun R => binary R 1) (w.token p :: rest) = .ok (e, rest)) (hp : p.line = 1) :
    variant (layout p [n.word, .mark .eq, w] ++ rest) = .ok (⟨n.text, .unit, some e, [], 1⟩, rest) := by
  rw [layout_cons rfl, List.cons_append, layout_cons rfl, List.cons_append, layout_cons hw, layout,
    List.singleton_append, variant_bare n p rfl rfl, bareVariant, bind_ok (accept_mark _ _ _),
    if_pos rfl, bind_ok (he _), hp]
  rfl

theorem variant_reads (v : PlainVariant) (hp : p.line = 1) (hr : Stopped rest) :
    variant (layout p v.words ++ rest) = .ok (v.tree, rest) := by
  obtain ⟨name, value⟩ := v
  cases value with
  | none =>
    have hv : variant (name.word.token p :: rest) = bareVariant name.text p.line rest :=
      variant_bare name p (hr.headIs (by decide)) (hr.headIs (by decide))
    refine hv.trans ?_
    unfold bareVariant
    rw [bind_ok (accept_eq_false (hr.headIs (by decide))), hp]
    rfl
  | some value =>
    exact variant_valued name (by cases value <;> rfl) (fun p => value_reads value p hr) hp

theorem variant_entry (v : PlainVariant) :
    Entry 1 Stopped (Word.closer .brace).kind variant v.words v.tree :=
  ⟨⟨_, _, rfl, by rintro ⟨⟩⟩, fun _ _ hp hr => variant_reads v hp hr⟩

/-! ## Inputs -/

/-- An input without attributes, from its first word on. -/
theorem fnInput_word {w : Word} {a : Param} (hd : w.kind ≠ .doc .outer)
    (hp : w.kind ≠ .punct .pound) (he : w.kind ≠ .punct .dotDotDot)
    (h : param (w.token p :: ts) = .ok (a, rest)) :
    fnInput (w.token p :: ts) = .ok (some ⟨[], a⟩, rest) := by
  unfold fnInput
  rw [bind_ok (outerAttributes_word hd hp _ _), bind_ok (accept_word_ne he _ _),
    if_neg Bool.false_ne_true, bind_ok h]
  rfl

/-- `&self` -/
theorem receiver_reads (p : Position) (hr : TypeEnd rest) :
    fnInput (layout p [.mark .and, .keyword .selfValueKw] ++ rest) =
      .ok (some ⟨[], .receiver true false none⟩, rest) := by
  have hc : headIs (.punct .colonColon) rest = false := hr.headIs rfl
  have hb (p : Position) : behindSelf? ((Word.keyword .selfValueKw).token p :: rest) =
      some rest := by simp [behindSelf?, Word.token, Word.keyword, hc]
  have hs (p q : Position) : refReceiver?
      ((Word.mark .and).token p :: (Word.keyword .selfValueKw).token q :: rest) =
        some (false, rest) := by
    change (behindSelf? ((Word.keyword .selfValueKw).token q :: rest)).map _ = _
    rw [hb]
    rfl
  have hp (p q : Position) :
      param ((Word.mark .and).token p :: (Word.keyword .selfValueKw).token q :: rest) =
        .ok (.receiver true false none, rest) := by
    unfold param
    rw [bind_ok (run_get.2 ⟨rfl, rfl⟩), hs]
    rfl
  exact fnInput_word (by rintro ⟨⟩) (by rintro ⟨⟩) (by rintro ⟨⟩) (hp _ _)

/-- A parameter is a pattern of one name. -/
theorem input_reads (f : PlainField) (p : Position) (hr : TypeEnd rest) :
    fnInput (layout p f.words ++ rest) = .ok (some f.input, rest) := by
  have hskip (p q : Position) (ts : List Token) : withText (skipTo (· == .punct .colon))
      (f.name.word.token p :: (Word.mark .colon).token q :: ts) =
        .ok (((), f.name.text), (Word.mark .colon).token q :: ts) := by
    refine run_withText.2 ⟨run_skipTo.2 ?_, ?_⟩
    · rw [dropTreesUntil, if_neg (by rintro ⟨⟩)]
      change dropTreesUntil (· == .punct .colon) ((Word.mark .colon).token q :: ts) = _
      rw [dropTreesUntil, if_pos (by rfl)]
    · simp [textOf]
      rfl
  have hp (p q : Position) (ts : List Token) : param
      (f.name.word.token p :: (Word.mark .colon).token q :: ts) = (do
        return .typed f.name.text (← wholeType true) : Rule Param) ts := by
    unfold param
    rw [bind_ok (run_get.2 ⟨rfl, rfl⟩)]
    change (withText (skipTo (· == .punct .colon)) >>= _) (_ :: _) = _
    rw [bind_ok (hskip _ _ _)]
    rfl
  rw [PlainField.words, layout_cons rfl, layout_cons rfl, List.cons_append, List.cons_append]
  refine fnInput_word (by rintro ⟨⟩) (by rintro ⟨⟩) (by rintro ⟨⟩) ?_
  rw [hp, bind_ok (wholeType_reads _ _ _ hr)]
  rfl

theorem entries_inputs (params : List PlainField) :
    List.Forall₂ (Entry 1 TypeEnd (Word.closer .paren).kind fnInput)
      ([.mark .and, .keyword .selfValueKw] :: params.map PlainField.words)
      (some ⟨[], .receiver true false none⟩ :: params.map fun f => some f.input) := by
  refine .cons ⟨⟨_, _, rfl, by rintro ⟨⟩⟩, fun p _ _ hr => receiver_reads p hr⟩ ?_
  exact entries_map fun f _ => ⟨⟨_, _, rfl, by rintro ⟨⟩⟩, fun p _ _ hr => input_reads f p hr⟩

/-! ## Functions -/

theorem generics_none (h : headIs (.punct .lt) ts = false) : whole generics ts = .ok ([], ts) :=
  bind_ok (accept_eq_false h) _

theorem skipWhere_none (h : headIs (.keyword .whereKw) ts = false) :
    skipWhere ts = .ok ((), ts) := by
  unfold skipWhere
  rw [bind_ok (accept_eq_false h)]
  rfl

theorem TypeEnd.semicolon (p : Position) (ts : List Token) :
    TypeEnd ((Word.mark .semicolon).token p :: ts) := ⟨_, _, rfl, rfl⟩

/-- What may stand between the inputs of a function and its semicolon. -/
theorem result_reads {α : Type} (result : Option PlainType) (f : Option Ty → Rule α)
    (p q : Position) (ts : List Token) : (do
      let output ← if ← accept (.punct .arrow) then pure (some (← wholeType true)) else pure none
      f output : Rule α) (layout p (result.elim [] fun t => .mark .arrow :: t.words) ++
        (Word.mark .semicolon).token q :: ts) =
      f (result.map PlainType.tree) ((Word.mark .semicolon).token q :: ts) := by
  cases result with
  | none =>
    rw [Option.elim, layout, List.nil_append, bind_ok (accept_eq_false rfl)]
    rfl
  | some t =>
    rw [Option.elim, layout_cons rfl, List.cons_append, bind_ok (accept_mark _ _ _), if_pos rfl,
      bind_ok (wholeType_reads t true _ (.semicolon q ts))]
    rfl

theorem signature_reads (m : PlainMethod) (hp : p.line = 1) (q : Position) (ts : List Token) :
    signature (layout p m.signatureWords ++ (Word.mark .semicolon).token q :: ts) =
      .ok (m.signature, (Word.mark .semicolon).token q :: ts) := by
  have hq (p : Position) (ts : List Token) : fnQualifiers ((Word.keyword .fnKw).token p :: ts) =
      .ok ([], (Word.keyword .fnKw).token p :: ts) := many_stop rfl
  have hi (p q : Position) (hp : p.line = 1) (ts : List Token) :=
    commaList_entries TypeEnd.comma (TypeEnd.closer .paren) nofun (entries_inputs m.params) hp q ts
  rw [PlainMethod.signatureWords, layout_cons rfl, layout_cons rfl, layout_cons rfl, layout_append,
    layout_cons rfl]
  simp only [List.cons_append, List.append_assoc]
  unfold signature
  rw [bind_ok (hq _ _), bind_ok (expect_keyword _ _ _ _), bind_ok (expectName_name _ _ _),
    bind_ok (generics_none rfl), bind_ok (expect_opener _ _ _ _)]
  refine (bind_ok (hi _ _ ?_ _) _).trans ?_
  · exact hp
  rw [bind_ok (expect_closer _ _ _ _)]
  refine (result_reads m.result _ _ _ _).trans ?_
  rw [bind_ok (skipWhere_none rfl)]
  refine run_pure.2 ⟨?_, rfl⟩
  simp [PlainMethod.signature, List.filterMap_map, List.any_map, Function.comp_def]

/-- A function of a trait that has no body. -/
theorem memberBody_reads (m : PlainMethod) (hp : p.line = 1) (rest : List Token) :
    memberBody (layout p m.words ++ rest) = .ok (.fn m.signature false, rest) := by
  have hfn (ts : List Token) : memberBody ((Word.keyword .fnKw).token p :: ts) = (do
      let signature ← signature
      if ← isAt (.opener .brace) then
        skipTree
        return .fn signature true
      else
        discard <| expect (.punct .semicolon) ""
        return .fn signature false : Rule MemberBody) ((Word.keyword .fnKw).token p :: ts) := by
    cases ts <;> rfl
  have hs := signature_reads m hp (behind p m.signatureWords) rest
  rw [PlainMethod.words, layout_append, layout_cons rfl, layout, List.append_assoc,
    List.singleton_append]
  rw [PlainMethod.signatureWords, layout_cons rfl, List.cons_append] at hs ⊢
  rw [hfn, bind_ok hs, isAt_else rfl, bind_ok (expect_mark _ _ _ _)]
  rfl

theorem traitMember_reads (m : PlainMethod) (hp : p.line = 1) (rest : List Token) :
    traitMember (layout p m.words ++ rest) = .ok (m.tree, rest) := by
  have hb := memberBody_reads m hp rest
  have hl (ts : List Token) : nextLine ((Word.keyword .fnKw).token p :: ts) =
      .ok (1, (Word.keyword .fnKw).token p :: ts) := by
    rw [← hp]
    rfl
  rw [PlainMethod.words, PlainMethod.signatureWords, List.cons_append, layout_cons rfl,
    List.cons_append] at hb ⊢
  unfold traitMember
  rw [bind_ok (outerAttributes_word (by rintro ⟨⟩) (by rintro ⟨⟩) _ _),
    bind_ok (hl _), bind_ok hb]
  rfl

end Grammar

end Ferrotype
