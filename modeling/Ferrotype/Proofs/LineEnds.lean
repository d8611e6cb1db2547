import Ferrotype.Proofs.Grammar.Join
import Ferrotype.Proofs.Output.Order
import Ferrotype.Proofs.Reworded.Items
import Ferrotype.Proofs.Schema.Docs
import Ferrotype.Transpile

/-!
# Two ways to end the lines of a source

A source that ends its lines with `\r\n` gives the same output and the same notices as one that ends
them with `\n`. Only quoted literals may not go over several lines, since they are copied.
-/

namespace Ferrotype

open Text

/-! ## Output -/

namespace Output

theorem ordinalLines_withNewlines (index : Nat) (ms : List EnumMember) :
    ordinalLines index (ms.map EnumMember.withNewlines) = ordinalLines index ms := by
  induction ms generalizing index with
  | nil => rfl
  | cons m ms ih =>
    rw [List.map_cons, ordinalLines, ordinalLines, ih]
    simp only [EnumMember.withNewlines, docLines_withNewlines]

theorem fieldLines_withNewlines (f : InterfaceField) :
    fieldLines f.withNewlines = fieldLines f := by
  have hd : docLines 1 f.withNewlines.doc = docLines 1 f.doc := docLines_withNewlines 1 f.doc
  rw [fieldLines, hd]
  rfl

theorem methodLines_withNewlines (m : Method) : methodLines m.withNewlines = methodLines m := by
  have hd : docLines 1 m.withNewlines.doc = docLines 1 m.doc := docLines_withNewlines 1 m.doc
  rw [methodLines, hd]
  rfl

theorem unionLines_withNewlines (name : String) (ms : List EnumMember) (doc : Option String) :
    unionLines name (ms.map EnumMember.withNewlines) (doc.map withNewlines) =
      unionLines name ms doc := by
  have ht : (ms.map EnumMember.withNewlines).map unionText = ms.map unionText := by
    rw [List.map_map]
    rfl
  unfold unionLines
  rw [docLines_withNewlines]
  cases ms with
  | nil => rfl
  | cons m ms => rw [← ht]; rfl

theorem declarationLines_withNewlines (options : RenderOptions) (d : Declaration) :
    declarationLines options d.withNewlines = declarationLines options d := by
  cases d with
  | interface name fields doc =>
    simp only [Declaration.withNewlines, declarationLines, interfaceLines, docLines_withNewlines]
    rw [ordered_map InterfaceField.name _ (f := InterfaceField.withNewlines) fun _ => rfl,
      List.flatMap_map]
    simp only [fieldLines_withNewlines]
  | enumeration name members doc =>
    simp only [Declaration.withNewlines, declarationLines, enumLines, docLines_withNewlines,
      unionLines_withNewlines, ordinalLines_withNewlines]
  | trait name methods doc =>
    simp only [Declaration.withNewlines, declarationLines, interfaceLines, docLines_withNewlines]
    rw [ordered_map Method.name _ (f := Method.withNewlines) fun _ => rfl, List.flatMap_map]
    simp only [methodLines_withNewlines]

/-- The output does not depend on how the lines of docs end. -/
theorem moduleText_withNewlines (options : RenderOptions) (s : Schema) :
    moduleText options s.withNewlines = moduleText options s := by
  have hd (d : Declaration) :
      declarationPiece options d.withNewlines = declarationPiece options d := by
    rw [declarationPiece, declarationPiece, declarationText, declarationText,
      declarationLines_withNewlines]
  unfold moduleText Schema.withNewlines
  rw [ordered_map Prod.fst Prod.fst (f := fun e : String × Declaration => (e.1, e.2.withNewlines))
    fun _ => rfl, List.map_map]
  simp only [Function.comp_def, hd]

end Output

/-! ## Sources -/

variable {options : Options} {source text : String} {file : SourceFile} {notices : List Notice}

theorem transpile_of_file (h : SourceFile.ofText source = .ok file) (options : Options) :
    transpile options source =
      Output.moduleText options.render <$> extractFile options.extract file := by
  rw [transpile, extract_of_file h, bind_pure_comp]

theorem exists_file (h : (transpile options source).run = ⟨.ok text, notices⟩) :
    ∃ file, SourceFile.ofText source = .ok file := by
  cases hf : SourceFile.ofText source with
  | ok file => exact ⟨file, rfl⟩
  | error e =>
    have hv := congrArg Noted.value h
    simp only [transpile, extract, parseSource, hf] at hv
    cases hv

theorem ofText_withReturns {tokens : Tokens} (hs : '\r' ∉ source.toList)
    (ht : tokenize source = .ok tokens)
    (hq : ∀ t ∈ tokens.list, t.kind.isQuoted = true → '\n' ∉ t.text.toList)
    (hf : SourceFile.ofText source = .ok file) :
    ∃ file', SourceFile.ofText (withReturns source) = .ok file' ∧
      SourceFile.Alike SameLines file file' := by
  obtain ⟨tokens', ht', -, hall⟩ := tokenize_withReturns hs ht hq
  have ho : SourceFile.ofTokens tokens = .ok file := by
    obtain ⟨_, h, ho⟩ := SourceFile.ofText_eq_ok.1 hf
    rw [ht] at h
    cases h
    exact ho
  obtain ⟨f, file', hf, hf', ha⟩ | ⟨f, g, he, -⟩ := ofTokens_alike rewording_reflowed hall
  · rw [ho] at hf
    cases hf
    exact ⟨file', SourceFile.ofText_eq_ok.2 ⟨tokens', ht', hf'⟩, ha⟩
  · rw [ho] at he
    cases he

/--
If each line of a source ends in `\r\n` and not in `\n`, the output and the notices are the same.
The source has tokens, and none of its quoted literals goes over several lines.
-/
theorem transpile_withReturns {tokens : Tokens} (hs : '\r' ∉ source.toList)
    (ht : tokenize source = .ok tokens)
    (hq : ∀ t ∈ tokens.list, t.kind.isQuoted = true → '\n' ∉ t.text.toList)
    (h : (transpile options source).run = ⟨.ok text, notices⟩) :
    (transpile options (withReturns source)).run = ⟨.ok text, notices⟩ := by
  obtain ⟨file, hf⟩ := exists_file h
  obtain ⟨file', hf', ha⟩ := ofText_withReturns hs ht hq hf
  have hrun : Extraction.Agree Eq (transpile options source)
      (transpile options (withReturns source)) := by
    rw [transpile_of_file hf, transpile_of_file hf', ← bind_pure_comp, ← bind_pure_comp]
    apply (extractFile_alike ha options.extract).bind
    intro schema schema' hschema
    apply Extraction.Agree.pure
    rw [← Output.moduleText_withNewlines, hschema, Output.moduleText_withNewlines]
  rw [← Extraction.Agree.run_eq hrun, h]

/-- A doc comment over three lines, and a literal on one. -/
theorem transpile_withReturns_doc :
    let source := "/** One\n * two. */\nenum E \x7b\n  /// three\n  A = \"a\" \x7d"
    let text := "// generated using bel\n// DO NOT MODIFY\n/**\n * One\n * two.\n */\n" ++
      "export enum E \x7b\n    /**\n     * three\n     */\n    A = \"a\",\n\x7d\n\n"
    (transpile {} source).run = ⟨.ok text, []⟩ ∧
      (transpile {} (withReturns source)).run = ⟨.ok text, []⟩ := by
  intro source text
  have h : (transpile {} source).run = ⟨.ok text, []⟩ := by
    ext1
    · decide +kernel
    · decide +kernel
  have hall : (tokenize source).toOption.any (fun tokens => tokens.list.all fun t =>
      !t.kind.isQuoted || !t.text.toList.contains '\n') = true := by
    decide +kernel
  obtain ⟨tokens, ht, hq⟩ : ∃ tokens, tokenize source = .ok tokens ∧
      ∀ t ∈ tokens.list, t.kind.isQuoted = true → '\n' ∉ t.text.toList := by
    cases ht : tokenize source with
    | error => simp [ht, Except.toOption] at hall
    | ok tokens =>
      rw [ht] at hall
      exact ⟨tokens, rfl, fun t hm => by simpa [imp_iff_not_or] using List.all_eq_true.1 hall t hm⟩
  exact ⟨h, transpile_withReturns (by decide) ht hq h⟩

end Ferrotype
