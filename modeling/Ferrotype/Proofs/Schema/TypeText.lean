import Ferrotype.Schema.Type
import Mathlib.Data.List.Basic

/-!
# The texts of types

The text of a type from the texts of its parts, as characters.
-/

namespace Ferrotype

variable {ρ : Type}

/-! ## Parts -/

def TsProperty.name : TsProperty ρ → String
  | mk name _ _ _ => name

def TsProperty.type : TsProperty ρ → TsType ρ
  | mk _ type _ _ => type

def TsParam.name : TsParam ρ → String
  | mk name _ _ => name

def TsParam.type : TsParam ρ → TsType ρ
  | mk _ type _ => type

namespace TsType

/-! ## Texts -/

/-- Where no value stands for a type, nothing stops the text. -/
theorem render_eq (t : TsType Empty) : t.render = .ok t.text := by
  unfold text
  cases t.render with
  | ok text => rfl
  | error value => exact value.elim

def chars (t : TsType Empty) : List Char := t.text.toList

theorem chars_of_render {t : TsType Empty} {text : String} (h : t.render = .ok text) :
    t.chars = text.toList := by
  rw [render_eq] at h
  exact congrArg String.toList (Except.ok.inj h)

/-- A name, a mark if what it names may be absent, and a type. -/
def labelled (name : String) (type : TsType Empty) (optional : Bool) : List Char :=
  name.toList ++ ((if optional then ['?'] else []) ++ ':' :: ' ' :: type.chars)

end TsType

def TsProperty.chars : TsProperty Empty → List Char
  | mk name type optional readonly =>
    (if readonly then "readonly ".toList else []) ++ TsType.labelled name type optional

def TsParam.chars : TsParam Empty → List Char
  | mk name type optional => TsType.labelled name type optional

namespace TsType

/-- Texts with a comma and a blank between each two. -/
def commaList (ss : List (List Char)) : List Char := [',', ' '].intercalate ss

theorem toList_mark (optional : Bool) :
    (mark optional).toList = if optional then ['?'] else [] := by
  cases optional <;> rfl

theorem renderAll_eq (ts : List (TsType Empty)) : renderAll ts = .ok (ts.map text) := by
  induction ts with
  | nil => rfl
  | cons t ts ih =>
    rw [renderAll, render_eq, ih]
    rfl

theorem map_text (ts : List (TsType Empty)) : (ts.map text).map String.toList = ts.map chars :=
  List.map_map

theorem renderProperties_eq (ps : List (TsProperty Empty)) :
    ∃ texts, renderProperties ps = .ok texts ∧
      texts.map String.toList = ps.map TsProperty.chars := by
  induction ps with
  | nil => exact ⟨[], rfl, rfl⟩
  | cons p ps ih =>
    obtain ⟨name, type, optional, readonly⟩ := p
    obtain ⟨texts, ht, hm⟩ := ih
    refine ⟨_, by rw [renderProperties, render_eq, ht]; rfl, ?_⟩
    cases readonly <;> simp [TsProperty.chars, labelled, chars, toList_mark, hm]

theorem renderParams_eq (ps : List (TsParam Empty)) :
    ∃ texts, renderParams ps = .ok texts ∧ texts.map String.toList = ps.map TsParam.chars := by
  induction ps with
  | nil => exact ⟨[], rfl, rfl⟩
  | cons p ps ih =>
    obtain ⟨name, type, optional⟩ := p
    obtain ⟨texts, ht, hm⟩ := ih
    refine ⟨_, by rw [renderParams, render_eq, ht]; rfl, ?_⟩
    simp [TsParam.chars, labelled, chars, toList_mark, hm]

/-! ## Characters -/

theorem text_array {t : TsType Empty} (h : t.isLoose = false) :
    (TsType.array t).text = t.text ++ "[]" := by
  have hr : (TsType.array t).render = .ok (t.text ++ "[]") := by
    rw [render, render_eq, h]
    rfl
  rw [render_eq] at hr
  exact Except.ok.inj hr

theorem chars_array {t : TsType Empty} (h : t.isLoose = false) :
    (array t).chars = t.chars ++ ['[', ']'] := by
  simp [chars, text_array h]

theorem chars_array_loose {t : TsType Empty} (h : t.isLoose = true) :
    (array t).chars = '(' :: (t.chars ++ [')', '[', ']']) := by
  have hr : (array t).render = .ok ("(" ++ t.text ++ ")" ++ "[]") := by
    rw [render, render_eq, h]
    rfl
  rw [chars_of_render hr]
  simp [chars]

theorem chars_object (ps : List (TsProperty Empty)) :
    (object ps).chars = '{' :: ' ' :: (commaList (ps.map TsProperty.chars) ++ [' ', '}']) := by
  obtain ⟨texts, ht, hm⟩ := renderProperties_eq ps
  have hr : (object ps).render = .ok ("\x7b " ++ ", ".intercalate texts ++ " \x7d") := by
    rw [render, ht]
    rfl
  rw [chars_of_render hr]
  simp [commaList, hm]

theorem chars_union (ts : List (TsType Empty)) :
    (union ts).chars = [' ', '|', ' '].intercalate (ts.map chars) := by
  have hr : (union ts).render = .ok (" | ".intercalate (ts.map text)) := by
    rw [render, renderAll_eq]
    rfl
  rw [chars_of_render hr, String.toList_intercalate, map_text]
  rfl

theorem chars_function (ps : List (TsParam Empty)) (result : TsType Empty) :
    (function ps result).chars =
      '(' :: (commaList (ps.map TsParam.chars) ++ [')', ' ', '=', '>', ' '] ++ result.chars) := by
  obtain ⟨texts, ht, hm⟩ := renderParams_eq ps
  have hr : (function ps result).render =
      .ok ("(" ++ ", ".intercalate texts ++ ") => " ++ result.text) := by
    rw [render, ht, render_eq]
    rfl
  rw [chars_of_render hr]
  simp [commaList, hm, chars]

theorem chars_generic (base : String) (ts : List (TsType Empty)) :
    (generic base ts).chars = base.toList ++ '<' :: (commaList (ts.map chars) ++ ['>']) := by
  have hr : (generic base ts).render =
      .ok (base ++ "<" ++ ", ".intercalate (ts.map text) ++ ">") := by
    rw [render, renderAll_eq]
    rfl
  rw [chars_of_render hr]
  simp only [String.toList_append, String.toList_intercalate, map_text]
  simp [commaList]

end TsType

end Ferrotype
