import Ferrotype.Proofs.Reworded.Steps
import Ferrotype.Proofs.Token.Newlines
import Ferrotype.Schema.Extract

/-!
# Trees of lines that end in another way

Trees that differ in the ends of lines have outlines that differ in escapes only. What an attribute
or a type says of its field does not depend on these.
-/

namespace Ferrotype

open Text

/-- Texts that are the same, or hold the same lines, ended in the two ways. -/
def SameLines (x y : String) : Prop := x = y ∨ '\r' ∉ x.toList ∧ y = withReturns x

/-! ## Tokens -/

theorem BinaryOp.ofText?_of_newline {x : String} (h : '\n' ∈ x.toList) : ofText? x = none := by
  apply List.find?_eq_none.2
  intro op _ ho
  obtain rfl : op.text = x := by simpa using ho
  revert h
  cases op <;> decide

theorem withReturns_of_not_mem {x : String} (h : '\n' ∉ x.toList) : withReturns x = x := by
  rw [withReturns, crlf_of_not_mem h, String.ofList_toList]

/-- No operator goes over several lines. -/
theorem BinaryOp.ofText?_withReturns (x : String) : ofText? (withReturns x) = ofText? x := by
  by_cases h : '\n' ∈ x.toList
  · rw [ofText?_of_newline h, ofText?_of_newline]
    rwa [withReturns, String.toList_ofList, newline_mem_crlf]
  · rw [withReturns_of_not_mem h]

theorem rewording_reflowed : Rewording Token.Reflowed SameLines where
  kind h := by cases h <;> rfl
  place h := by cases h <;> rfl
  text h := by
    cases h with
    | same => exact .inl rfl
    | doc _ _ hx => exact .inr ⟨hx, rfl⟩
  word h hk := by
    cases h with
    | same => rfl
    | doc style => exact absurd rfl (hk style)
  operator h := by
    cases h with
    | same => rfl
    | doc => exact (BinaryOp.ofText?_withReturns _).symm
  empty := .inl rfl

/-! ## Texts -/

theorem SameLines.reflow {x y : String} (h : SameLines x y) : Reflow x.toList y.toList := by
  obtain rfl | ⟨-, rfl⟩ := h
  · exact .refl _
  · rw [withReturns, String.toList_ofList]
    exact .crlf _

/-- Texts that are related one by one are so with a separator between them, too. -/
theorem intercalate_rel {R : List Char → List Char → Prop} (refl : ∀ s, R s s)
    (append : ∀ {x y x' y' : List Char}, R x y → R x' y' → R (x ++ x') (y ++ y'))
    {xs ys : List String} (h : List.Forall₂ (fun x y => R x.toList y.toList) xs ys) (sep : String) :
    R (sep.intercalate xs).toList (sep.intercalate ys).toList := by
  induction h with
  | nil => exact refl _
  | cons hd tl ih =>
    cases tl with
    | nil => simpa using hd
    | cons =>
      rw [String.intercalate_cons_cons, String.intercalate_cons_cons]
      simp only [String.toList_append]
      exact append (append hd (refl _)) ih

theorem Joined.reflow {x y : String} (h : Joined SameLines x y) : Reflow x.toList y.toList := by
  obtain ⟨xs, ys, hall, rfl, rfl⟩ := h
  exact intercalate_rel .refl .append (hall.imp fun _ _ => SameLines.reflow) " "

/-! ## Outlines -/

namespace Outline

/-- One of the texts has some escapes of `\r` more than the other. -/
def Alike (o o' : Outline) : Prop := QuotedReflow o.debugText.toList o'.debugText.toList

/-- Fields of one name. -/
def FieldAlike (f f' : String × Outline) : Prop := f.1 = f'.1 ∧ Alike f.2 f'.2

namespace Alike

variable {o o' : Outline} {os os' : List Outline} {fs fs' : List (String × Outline)}

theorem refl (o : Outline) : Alike o o := QuotedReflow.refl _

theorem text {x y : String} (h : Reflow x.toList y.toList) : Alike (.text x) (.text y) := by
  simp only [Alike, debugText, quoted, String.toList_ofList]
  exact quotedChars_reflow h

theorem debugTexts (h : List.Forall₂ Alike os os') :
    List.Forall₂ (fun x y => QuotedReflow x.toList y.toList) (debugTexts os) (debugTexts os') := by
  induction h with
  | nil => exact .nil
  | cons hd _ ih => exact .cons hd ih

theorem list (h : List.Forall₂ Alike os os') : Alike (.list os) (.list os') := by
  simp only [Alike, debugText, String.toList_append]
  have hi := intercalate_rel .refl .append (debugTexts h) ", "
  exact ((QuotedReflow.refl _).append hi).append (.refl _)

theorem texts {xs ys : List String} (h : List.Forall₂ (Joined SameLines) xs ys) :
    Alike (.texts xs) (.texts ys) := by
  apply list
  rw [List.forall₂_map_left_iff, List.forall₂_map_right_iff]
  exact h.imp fun _ _ hj => text hj.reflow

theorem debugFields (h : List.Forall₂ FieldAlike fs fs') :
    List.Forall₂ (fun x y => QuotedReflow x.toList y.toList) (debugFields fs)
      (debugFields fs') := by
  induction h with
  | nil => exact .nil
  | @cons f f' _ _ hd _ ih =>
    obtain ⟨name, o⟩ := f
    obtain ⟨name', o'⟩ := f'
    obtain ⟨rfl, ho⟩ := hd
    refine .cons ?_ ih
    simp only [String.toList_append]
    exact (QuotedReflow.refl _).append ho

theorem node {name : String} (h : List.Forall₂ FieldAlike fs fs') :
    Alike (.node name fs) (.node name fs') := by
  simp only [Alike, debugText, String.toList_append]
  have hi := intercalate_rel .refl .append (debugFields h) ", "
  exact (((QuotedReflow.refl _).append (.refl _)).append hi).append (.refl _)

end Alike

end Outline

/-! ## Types and expressions -/

open Outline.Alike in
mutual

/-- By recursion on the first tree, with a case for each form. -/
theorem Ty.outline_alike : (t : Ty) → ∀ {t'}, Ty.Alike SameLines t t' →
    Outline.Alike t.outline t'.outline
  | .path q _ ss, _, .path hq hs =>
    node (.cons ⟨rfl, list (Segment.outlines_alike ss hs)⟩
      (.cons ⟨rfl, .refl _⟩ (.cons ⟨rfl, Ty.outlineOption_alike q hq⟩ .nil)))
  | .reference _ _ t, _, .reference h =>
    node (.cons ⟨rfl, Ty.outline_alike t h⟩ (.cons ⟨rfl, .refl _⟩ (.cons ⟨rfl, .refl _⟩ .nil)))
  | .pointer _ t, _, .pointer h =>
    node (.cons ⟨rfl, Ty.outline_alike t h⟩ (.cons ⟨rfl, .refl _⟩ .nil))
  | .tuple ts, _, .tuple h => node (.cons ⟨rfl, list (Ty.outlines_alike ts h)⟩ .nil)
  | .slice t, _, .slice h => node (.cons ⟨rfl, Ty.outline_alike t h⟩ .nil)
  | .array t e, _, .array ht he =>
    node (.cons ⟨rfl, Ty.outline_alike t ht⟩ (.cons ⟨rfl, Expr.outline_alike e he⟩ .nil))
  | .paren t, _, .paren h => node (.cons ⟨rfl, Ty.outline_alike t h⟩ .nil)
  | .traitObject .., _, .traitObject h => node (.cons ⟨rfl, texts h⟩ (.cons ⟨rfl, .refl _⟩ .nil))
  | .implTrait _, _, .implTrait h => node (.cons ⟨rfl, texts h⟩ .nil)
  | .bareFn ts o, _, .bareFn ht ho =>
    node (.cons ⟨rfl, list (Ty.outlines_alike ts ht)⟩
      (.cons ⟨rfl, Ty.outlineOption_alike o ho⟩ .nil))
  | .never, _, .never => .refl _
  | .infer, _, .infer => .refl _
  | .macroCall _, _, .macroCall => .refl _

theorem Ty.outlines_alike : (ts : List Ty) → ∀ {ts'}, List.Forall₂ (Ty.Alike SameLines) ts ts' →
    List.Forall₂ Outline.Alike (Ty.outlines ts) (Ty.outlines ts')
  | [], _, .nil => .nil
  | t :: ts, _, .cons h hs => .cons (Ty.outline_alike t h) (Ty.outlines_alike ts hs)

theorem Ty.outlineOption_alike : (t : Option Ty) → ∀ {t'}, Option.Rel (Ty.Alike SameLines) t t' →
    Outline.Alike (Ty.outlineOption t) (Ty.outlineOption t')
  | none, _, .none => .refl _
  | some t, _, .some h => Ty.outline_alike t h

theorem Segment.outline_alike : (s : Segment) → ∀ {s'}, Segment.Alike SameLines s s' →
    Outline.Alike s.outline s'.outline
  | .mk _ a, _, .mk h => node (.cons ⟨rfl, .refl _⟩ (Arguments.outline_alike a h))

theorem Segment.outlines_alike : (ss : List Segment) → ∀ {ss'},
    List.Forall₂ (Segment.Alike SameLines) ss ss' →
    List.Forall₂ Outline.Alike (Segment.outlines ss) (Segment.outlines ss')
  | [], _, .nil => .nil
  | s :: ss, _, .cons h hs => .cons (Segment.outline_alike s h) (Segment.outlines_alike ss hs)

theorem Arguments.outline_alike : (a : Arguments) → ∀ {a'}, Arguments.Alike SameLines a a' →
    List.Forall₂ Outline.FieldAlike a.outline a'.outline
  | .none, _, .none => List.forall₂_same.2 fun _ _ => ⟨rfl, .refl _⟩
  | .angle as, _, .angle h =>
    .cons ⟨rfl, list (GenericArg.outlines_alike as h)⟩
      (List.forall₂_same.2 fun _ _ => ⟨rfl, .refl _⟩)
  | .paren ts o, _, .paren ht ho =>
    .cons ⟨rfl, .refl _⟩ (.cons ⟨rfl, .refl _⟩ (.cons ⟨rfl, list (Ty.outlines_alike ts ht)⟩
      (.cons ⟨rfl, Ty.outlineOption_alike o ho⟩ .nil)))

theorem GenericArg.outline_alike : (a : GenericArg) → ∀ {a'}, GenericArg.Alike SameLines a a' →
    Outline.Alike a.outline a'.outline
  | .type t, _, .type h =>
    node (.cons ⟨rfl, .refl _⟩ (.cons ⟨rfl, Ty.outline_alike t h⟩
      (List.forall₂_same.2 fun _ _ => ⟨rfl, .refl _⟩)))
  | .lifetime _, _, .lifetime => .refl _
  | .const e, _, .const h =>
    node (.cons ⟨rfl, .refl _⟩ (.cons ⟨rfl, .refl _⟩ (.cons ⟨rfl, .refl _⟩
      (.cons ⟨rfl, Expr.outline_alike e h⟩ .nil))))
  | .binding _ t, _, .binding h =>
    node (.cons ⟨rfl, .refl _⟩ (.cons ⟨rfl, Ty.outline_alike t h⟩
      (List.forall₂_same.2 fun _ _ => ⟨rfl, .refl _⟩)))
  | .constraint _, _, .constraint => .refl _

theorem GenericArg.outlines_alike : (as : List GenericArg) → ∀ {as'},
    List.Forall₂ (GenericArg.Alike SameLines) as as' →
    List.Forall₂ Outline.Alike (GenericArg.outlines as) (GenericArg.outlines as')
  | [], _, .nil => .nil
  | a :: as, _, .cons h hs => .cons (GenericArg.outline_alike a h) (GenericArg.outlines_alike as hs)

theorem Expr.outline_alike : (e : Expr) → ∀ {e'}, Expr.Alike SameLines e e' →
    Outline.Alike e.outline e'.outline
  | .literal .., _, .literal => .refl _
  | .path .., _, .path => .refl _
  | .unary _ e, _, .unary h =>
    node (.cons ⟨rfl, .refl _⟩ (.cons ⟨rfl, Expr.outline_alike e h⟩ .nil))
  | .binary l _ r, _, .binary hl hr =>
    node (.cons ⟨rfl, Expr.outline_alike l hl⟩ (.cons ⟨rfl, .refl _⟩
      (.cons ⟨rfl, Expr.outline_alike r hr⟩ .nil)))
  | .cast e t, _, .cast he ht =>
    node (.cons ⟨rfl, Expr.outline_alike e he⟩ (.cons ⟨rfl, Ty.outline_alike t ht⟩ .nil))
  | .call f as, _, .call hf ha =>
    node (.cons ⟨rfl, Expr.outline_alike f hf⟩
      (.cons ⟨rfl, list (Expr.outlines_alike as ha)⟩ .nil))
  | .member e _, _, .member h =>
    node (.cons ⟨rfl, Expr.outline_alike e h⟩ (.cons ⟨rfl, .refl _⟩ .nil))
  | .index e i, _, .index he hi =>
    node (.cons ⟨rfl, Expr.outline_alike e he⟩ (.cons ⟨rfl, Expr.outline_alike i hi⟩ .nil))
  | .paren e, _, .paren h => node (.cons ⟨rfl, Expr.outline_alike e h⟩ .nil)
  | .tuple es, _, .tuple h => node (.cons ⟨rfl, list (Expr.outlines_alike es h)⟩ .nil)
  | .array es, _, .array h => node (.cons ⟨rfl, list (Expr.outlines_alike es h)⟩ .nil)
  | .block, _, .block => .refl _
  | .macroCall _, _, .macroCall => .refl _
  | .question e, _, .question h => node (.cons ⟨rfl, Expr.outline_alike e h⟩ .nil)

theorem Expr.outlines_alike : (es : List Expr) → ∀ {es'},
    List.Forall₂ (Expr.Alike SameLines) es es' →
    List.Forall₂ Outline.Alike (Expr.outlines es) (Expr.outlines es')
  | [], _, .nil => .nil
  | e :: es, _, .cons h hs => .cons (Expr.outline_alike e h) (Expr.outlines_alike es hs)

end

/-! ## Attributes -/

/-- What is looked for in the text of an attribute holds no end of a line, and no escape of one. -/
theorem Attribute.Alike.allowsAbsence_eq {a a' : Attribute} (h : Attribute.Alike SameLines a a') :
    a.allowsAbsence = a'.allowsAbsence := by
  cases h with
  | comment => simp [allowsAbsence]
  | @written path style v v' x y line hv ht =>
    have htokens : QuotedReflow (quoted x).toList (quoted y).toList := by
      simp only [quoted, String.toList_ofList]
      exact quotedChars_reflow ht.reflow
    have htext : QuotedReflow (Attribute.debugText ⟨path, style, v, x, false, line⟩).toList
        (Attribute.debugText ⟨path, style, v', y, false, line⟩).toList := by
      unfold Attribute.debugText
      dsimp only
      simp only [String.toList_append]
      apply QuotedReflow.append
      · apply QuotedReflow.append
        · exact (QuotedReflow.refl _).append htokens
        · cases hv with
          | none => exact .refl _
          | some he =>
            dsimp only
            rw [String.toList_append, String.toList_append]
            exact (QuotedReflow.refl _).append (Expr.outline_alike _ he)
      · exact .refl _
    have ho := htext.occursIn_eq (p := "skip_serializing_if".toList) (by decide) (by decide)
      (by decide)
    simp only [allowsAbsence, ho]

/-! ## Types -/

section

variable {T : String → String → Prop}

mutual

theorem Ty.resolve_alike : (t : Ty) → ∀ {t'}, Ty.Alike T t t' → t.resolve = t'.resolve
  | .path _ _ ss, _, .path _ hs => resolveLast_alike ss hs
  | .reference .., _, .reference _ | .pointer .., _, .pointer _ | .tuple _, _, .tuple _
  | .slice _, _, .slice _ | .array .., _, .array .. | .paren _, _, .paren _
  | .traitObject .., _, .traitObject _ | .implTrait _, _, .implTrait _
  | .bareFn .., _, .bareFn .. | .never, _, .never | .infer, _, .infer
  | .macroCall _, _, .macroCall => rfl

theorem resolveLast_alike : (ss : List Segment) → ∀ {ss'},
    List.Forall₂ (Segment.Alike T) ss ss' → resolveLast ss = resolveLast ss'
  | [], _, .nil => rfl
  | [s], _, .cons h .nil => Segment.resolve_alike s h
  | _ :: s :: ss, _, .cons _ hs => by
    have hr := resolveLast_alike (s :: ss) hs
    cases hs with
    | cons => exact hr

theorem Segment.resolve_alike : (s : Segment) → ∀ {s'}, Segment.Alike T s s' →
    s.resolve = s'.resolve
  | .mk name (.angle [.type t]), _, .mk (.angle hs) => by
    obtain _ | ⟨⟨h⟩, ⟨⟩⟩ := hs
    rw [Segment.resolve, Segment.resolve, Ty.resolve_alike t h]
  | .mk _ (.angle [.lifetime _]), _, .mk (.angle hs)
  | .mk _ (.angle [.const _]), _, .mk (.angle hs)
  | .mk _ (.angle [.binding ..]), _, .mk (.angle hs)
  | .mk _ (.angle [.constraint _]), _, .mk (.angle hs) => by
    obtain _ | ⟨⟨⟩, ⟨⟩⟩ := hs
    rfl
  | .mk _ (.angle (_ :: _ :: _)), _, .mk (.angle hs) => by
    obtain _ | ⟨_, _ | _⟩ := hs
    rw [Segment.resolve, Segment.resolve] <;> simp
  | .mk _ .none, _, .mk .none | .mk _ (.paren ..), _, .mk (.paren ..)
  | .mk _ (.angle []), _, .mk (.angle .nil) => rfl

end

theorem Ty.Alike.isOption_eq {t t' : Ty} (h : Ty.Alike T t t') : t.isOption = t'.isOption := by
  cases h with
  | path _ hs =>
    have hn := congrArg List.getLast? (Segment.Alike.map_name hs)
    rw [List.getLast?_map, List.getLast?_map] at hn
    have ha := congrArg (Option.any (· == "Option")) hn
    simpa [isOption, lastSegment?, Option.any_map] using ha
  | _ => rfl

end

end Ferrotype
