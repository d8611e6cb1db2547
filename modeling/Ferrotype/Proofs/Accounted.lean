import Ferrotype.Proofs.Grammar.Lines
import Ferrotype.Proofs.LastDeclared

/-!
# Nothing is lost without a notice

Each construct of a file is declared or noted, and the notices stand in the order of the source.
-/

namespace Ferrotype

variable {options : ExtractOptions} {file : SourceFile} {schema : Schema}

/-! ## Lines of notices -/

/-- The constructs of an item have the lines that were read for them. -/
theorem Item.line_steps (item : Item) : item.steps.map Step.line = item.lines := by
  unfold steps lines
  cases item.body with
  | structDef s =>
    have hl : Step.line ∘ Field.step s.name = Field.line ∘ Prod.fst := rfl
    rw [List.map_map, hl, ← List.map_map, List.zipIdx_map_fst]
    rfl
  | enumDef e => exact List.map_map
  | traitDef t => exact List.map_map
  | other kind name => rfl

/-- Steps in the order of their lines have notices in the order of theirs. -/
theorem Step.notices_sorted {steps : List Step}
    (hn : ∀ s ∈ steps, ∀ n ∈ s.notices, n.line = some ↑s.line)
    (hs : (steps.map line).Pairwise (· ≤ ·)) :
    ((steps.flatMap notices).filterMap Notice.line).Pairwise (· ≤ ·) := by
  have eq (s) (hs : s ∈ steps) : ∀ l ∈ s.notices.filterMap Notice.line, l = ↑s.line := by
    intro l hl
    obtain ⟨n, hm, he⟩ := List.mem_filterMap.1 hl
    rw [hn s hs n hm] at he
    exact (Option.some.inj he).symm
  rw [List.filterMap_flatMap, List.pairwise_flatMap]
  constructor
  · intro s hs
    apply List.pairwise_of_forall_mem_list
    intro a ha b hb
    exact Int.le_of_eq ((eq s hs a ha).trans (eq s hs b hb).symm)
  · refine (List.pairwise_map.1 hs).imp_of_mem fun {s t} hs ht hst a ha b hb => ?_
    rw [eq s hs a ha, eq t ht b hb]
    exact Int.ofNat_le.2 hst

theorem extractFile_sorted {source : String} (h : SourceFile.ofText source = .ok file) :
    (((file.items.flatMap Item.steps).flatMap Step.notices).filterMap Notice.line).Pairwise
      (· ≤ ·) := by
  apply Step.notices_sorted
  · intro s hs n hn
    obtain ⟨item, -, hs⟩ := List.mem_flatMap.1 hs
    exact item.line_of_steps hs hn
  · have hl : (file.items.flatMap Item.steps).map Step.line = file.items.flatMap Item.lines := by
      rw [List.map_flatMap]
      exact List.flatMap_congr fun item _ => item.line_steps
    rw [hl]
    exact SourceFile.lines_sorted h

/-! ## Whole files -/

/-- The notices of the options that are set, in the order of the options. -/
def ExtractOptions.notices (o : ExtractOptions) : List Notice :=
  (if o.embedStructs then [.reservedOption "embed_structs"] else []) ++
    (if o.followStructs then [.reservedOption "follow_structs"] else []) ++
    (if o.noAnonStructs then [.reservedOption "no_anon_structs"] else []) ++
    if o.sortAlphabetically then [.reservedOption "sort_alphabetically"] else []

theorem ExtractOptions.flagsSet_notices (o : ExtractOptions) :
    o.flagsSet.map .reservedOption = o.notices := by
  obtain ⟨_ | _, _ | _, _ | _, _ | _⟩ := o <;> rfl

theorem ExtractOptions.line_of_notices (o : ExtractOptions) :
    o.notices.filterMap Notice.line = [] := by
  rw [← o.flagsSet_notices, List.filterMap_map]
  exact List.filterMap_eq_nil_iff.2 fun _ _ => rfl

/--
A file that is extracted has a notice for each option that is set, and then those of its items: of
each field, variant and member in its order, or of an item that gives no declaration. The others
are declared, with all of their named fields, variants and functions; of two declarations of one
name the later one counts, in its place. The notices of a text go down its lines.
-/
theorem extractFile_accounted (h : (extractFile options file).run.value = .ok schema) :
    (extractFile options file).run.notices =
        options.notices ++ (file.items.flatMap Item.steps).flatMap Step.notices ∧
      schema.map Prod.fst = (file.items.filterMap Item.declaredName?).dedup ∧
      (∀ name d, (name, d) ∈ schema ↔ ∃ before item after,
        file.items = before ++ item :: after ∧ item.declared? = some d ∧ d.name = name ∧
          ∀ later ∈ after, later.declaredName? ≠ some name) ∧
      (∀ (t : Ty) (declaration : String) (line : Nat),
        (t.notices declaration line).length ≤ 1 ∧
          ∀ n, n ∈ t.notices declaration line ↔
            ∃ u, t.Wraps u ∧ u.isPath = false ∧
              n = .unsupportedType u.shapeName declaration (some line)) ∧
      ∀ source, SourceFile.ofText source = .ok file →
        ((extractFile options file).run.notices.filterMap Notice.line).Pairwise (· ≤ ·) := by
  rw [extractFile_run] at h ⊢
  have hf : Step.firstFault (file.items.flatMap Item.steps) = none := by
    cases hf : Step.firstFault (file.items.flatMap Item.steps) with
    | none => rfl
    | some e =>
      rw [hf] at h
      cases h
  rw [hf] at h
  obtain rfl : _ = schema := Except.ok.inj h
  rw [Step.noticesOf_fine hf, options.flagsSet_notices]
  refine ⟨rfl, ?_, fun name d => mem_declared, fun t declaration line => ?_, fun source hs => ?_⟩
  · rw [Schema.keys_foldl_put, names_declared]
  · exact ⟨t.length_notices declaration line, fun n => Ty.mem_notices⟩
  · rw [List.filterMap_append, options.line_of_notices, List.nil_append]
    exact extractFile_sorted hs

/-- Every kind of construct, on lines of their own, a name that is declared twice, and an option. -/
theorem extractFile_accounted_kinds :
    let source := "struct S(u8, &T);\nstruct P \x7b\n at: Vec<&T>,\n b: u8 \x7d\n" ++
      "enum E \x7b\n A = 7,\n B = 1 + 1 \x7d\nuse a;\n" ++
      "trait S \x7b\n const K: u8;\n fn f(&self, x: (u8,)) -> &T; \x7d"
    ∃ file schema, SourceFile.ofText source = .ok file ∧
      (extractFile { embedStructs := true } file).run.value = .ok schema ∧
      (extractFile { embedStructs := true } file).run.notices = [
        .reservedOption "embed_structs", .unnamedFieldSkipped 0 "S" (some 1),
        .unnamedFieldSkipped 1 "S" (some 1), .unsupportedType "Reference" "P" (some 3),
        .discriminantIgnored "B" "E" (some 7), .itemSkipped "use" (some 8),
        .traitItemSkipped "const" "S" (some 10), .unsupportedType "Tuple" "S" (some 11),
        .unsupportedType "Reference" "S" (some 11)] ∧
      schema = [
        ("P", .interface "P" [⟨"at", "any[]", false, none⟩, ⟨"b", "number", false, none⟩] none),
        ("E", .enumeration "E" [⟨"A", some (.number 7), none⟩, ⟨"B", none, none⟩] none),
        ("S", .trait "S" [⟨"f", [⟨"arg0", "any"⟩], "any", none⟩] none)] ∧
      schema.map Prod.fst = (file.items.filterMap Item.declaredName?).dedup ∧
      ((extractFile { embedStructs := true } file).run.notices.filterMap Notice.line).Pairwise
        (· ≤ ·) := by
  intro source
  obtain ⟨file, hf⟩ : ∃ file, SourceFile.ofText source = .ok file :=
    exists_ok_of_isSome (by decide +kernel)
  have he : extract { embedStructs := true } source = extractFile { embedStructs := true } file :=
    extract_of_file hf
  have hs : (extract { embedStructs := true } source).run.value = .ok [
      ("P", .interface "P" [⟨"at", "any[]", false, none⟩, ⟨"b", "number", false, none⟩] none),
      ("E", .enumeration "E" [⟨"A", some (.number 7), none⟩, ⟨"B", none, none⟩] none),
      ("S", .trait "S" [⟨"f", [⟨"arg0", "any"⟩], "any", none⟩] none)] := by
    decide +kernel
  rw [he] at hs
  obtain ⟨-, hk, -, -, hl⟩ := extractFile_accounted hs
  refine ⟨file, _, hf, hs, ?_, rfl, hk, hl source hf⟩
  rw [← he]
  decide +kernel

end Ferrotype
