import Ferrotype.Proofs.Text.Quoted
import Ferrotype.Schema.Extract

/-!
# Optional fields

A field is optional if its type is, or if the serializer may leave it out. The latter is looked for
in a dump of the attribute, in which texts stand between quotes and with escapes. It is found there
just if the attribute says it.
-/

namespace Ferrotype

open Text

/-- The word by which the serializer is told to leave a field out. -/
def absenceWord : List Char := "skip_serializing_if".toList

theorem isPlainWord_absenceWord : IsPlainWord absenceWord := by
  have hs : absenceWord.all isShown = true := by decide
  exact ⟨List.all_eq_true.1 hs, 's', rfl, by decide⟩

/-! ## Dumps -/

theorem debugText_string (s : String) : (Expr.literal s .str).outline.debugText =
    "Literal(value=" ++ (quoted s ++ ", kind='str')") := by
  have hd : (Expr.literal s .str).outline.debugText =
      "Literal" ++ "(" ++ ", ".intercalate ["value=" ++ quoted s, "kind=" ++ quoted "str"] ++ ")" :=
    rfl
  have hs : "Literal" ++ "(" ++ "value=" = "Literal(value=" := by decide
  have he : ", " ++ ("kind=" ++ quoted "str") ++ ")" = ", kind='str')" := by decide
  rw [hd, String.intercalate_cons_cons, String.intercalate_singleton, ← hs, ← he]
  simp only [String.append_assoc]

/-- What stands in a dump in front of the text of what follows the path. -/
def dumpStart (style : DocStyle) (path : String) : String :=
  "Attribute \x7b style: " ++ style.name ++ ", path: " ++ path ++ ", tokens: "

theorem debugText_bare {a : Attribute} (h : a.value = none) :
    a.debugText = dumpStart a.style a.path ++ (quoted a.tokens ++ " \x7d") := by
  have hd : a.debugText = dumpStart a.style a.path ++ quoted a.tokens ++ "" ++ " \x7d" := by
    unfold Attribute.debugText
    rw [h]
    rfl
  rw [hd, String.append_empty, String.append_assoc]

theorem debugText_valued {a : Attribute} {s : String} (h : a.value = some (.literal s .str)) :
    a.debugText = dumpStart a.style a.path ++ (quoted a.tokens ++ (", value: Literal(value=" ++
      (quoted s ++ ", kind='str') \x7d"))) := by
  have hd : a.debugText = dumpStart a.style a.path ++ quoted a.tokens ++
      (", value: " ++ (Expr.literal s .str).outline.debugText) ++ " \x7d" := by
    unfold Attribute.debugText
    rw [h]
    rfl
  have hm : ", value: " ++ "Literal(value=" = ", value: Literal(value=" := by decide
  have he : ", kind='str')" ++ " \x7d" = ", kind='str') \x7d" := by decide
  rw [hd, debugText_string, ← hm, ← he]
  simp only [String.append_assoc]

theorem absenceWord_dumpStart (style : DocStyle) :
    ¬absenceWord <:+: (dumpStart style "serde").toList := by
  cases style <;> decide

/-! ## Attributes -/

/-- The texts that an attribute holds: what follows its path, and its value if that is a text. -/
def Attribute.Says (a : Attribute) (w : List Char) : Prop :=
  w <:+: a.tokens.toList ∨ ∃ s, a.value = some (.literal s .str) ∧ w <:+: s.toList

/-- The value of an attribute is a text, if there is one. -/
def Attribute.IsTextual (a : Attribute) : Prop :=
  a.value = none ∨ ∃ s, a.value = some (.literal s .str)

theorem Attribute.IsTextual.infix_debugText {a : Attribute} (h : a.IsTextual)
    (hp : a.path = "serde") : absenceWord <:+: a.debugText.toList ↔ a.Says absenceWord := by
  have hw := isPlainWord_absenceWord
  have hs := absenceWord_dumpStart a.style
  unfold Says
  obtain hv | ⟨s, hv⟩ := h
  · have he : ¬absenceWord <:+: " \x7d".toList := by decide
    rw [debugText_bare hv, hp, hw.infix_quoted, hv]
    simp only [hs, he, false_or, or_false, reduceCtorEq, false_and, exists_false]
  · have hm : ¬absenceWord <:+: ", value: Literal(value=".toList := by decide
    have he : ¬absenceWord <:+: ", kind='str') \x7d".toList := by decide
    rw [debugText_valued hv, hp, hw.infix_quoted, hw.infix_quoted, hv]
    simp only [hs, hm, he, false_or, or_false, Option.some.injEq, Expr.literal.injEq, and_true,
      exists_eq_left']

theorem Attribute.allowsAbsence_iff {a : Attribute} (h : a.path = "serde" → a.IsTextual) :
    a.allowsAbsence = true ↔ a.path = "serde" ∧ a.Says absenceWord := by
  rw [allowsAbsence, Bool.and_eq_true, beq_iff_eq, occursIn_iff]
  exact and_congr_right fun hp => (h hp).infix_debugText hp

/-! ## Fields -/

theorem Ty.isOption_iff (t : Ty) : t.isOption = true ↔
    ∃ qualifier leading segments s, t = .path qualifier leading segments ∧
      segments.getLast? = some s ∧ s.name = "Option" := by
  cases t <;> simp [isOption, lastSegment?, Option.any_eq_true]

/--
A field whose attributes for the serializer have no value but texts is optional just if its type is
a path to `Option`, or one of these attributes holds the word, in what follows its path or in its
value.
-/
theorem Field.isOptional_iff (f : Field)
    (h : ∀ a ∈ f.attributes, a.path = "serde" → a.IsTextual) : f.isOptional = true ↔
      (∃ qualifier leading segments s, f.type = .path qualifier leading segments ∧
        segments.getLast? = some s ∧ s.name = "Option") ∨
      ∃ a ∈ f.attributes, a.path = "serde" ∧ a.Says absenceWord := by
  rw [isOptional, Bool.or_eq_true, Ty.isOption_iff, List.any_eq_true]
  refine or_congr_right (exists_congr fun a => and_congr_right fun ha => ?_)
  exact Attribute.allowsAbsence_iff (h a ha)

/-- A value that holds the word because of an escape, and one that a line break takes apart. -/
theorem Field.isOptional_iff_escape :
    let escaped : Attribute := ⟨"serde", .outer, some (.literal "skip_serializing_if" .str),
      "= \"skip\\x5fserializing_if\"", false, 1⟩
    let broken : Attribute := ⟨"serde", .outer, some (.literal "skip_serializing\n_if" .str),
      "= \"skip_serializing\\n_if\"", false, 1⟩
    (⟨some "a", .never, .inherited, [escaped], 2⟩ : Field).isOptional = true ∧
      (⟨some "b", .never, .inherited, [broken], 2⟩ : Field).isOptional = false := by
  intro escaped broken
  constructor
  · have hi : ∀ a ∈ [escaped], a.path = "serde" → a.IsTextual := by
      simp [Attribute.IsTextual, escaped]
    refine (isOptional_iff _ hi).2 (.inr ⟨escaped, List.mem_singleton_self _, rfl, ?_⟩)
    exact .inr ⟨_, rfl, List.infix_rfl⟩
  · have hi : ∀ a ∈ [broken], a.path = "serde" → a.IsTextual := by
      simp [Attribute.IsTextual, broken]
    have ht : ¬absenceWord <:+: broken.tokens.toList := by decide
    have hv : ¬absenceWord <:+: "skip_serializing\n_if".toList := by decide
    refine Bool.eq_false_iff.2 fun h => ?_
    obtain ⟨_, _, _, _, hp, -⟩ | ⟨a, ha, -, hs⟩ := (isOptional_iff _ hi).1 h
    · cases hp
    · rw [List.mem_singleton.1 ha] at hs
      obtain hs | ⟨_, he, hs⟩ := hs
      · exact ht hs
      · cases he
        exact hv hs

end Ferrotype
