import Ferrotype.Proofs.Grammar.Run
import Ferrotype.Proofs.Schema.Accounts
import Ferrotype.Proofs.Schema.Names
import Ferrotype.Transpile

/-!
# Names of interface members

The members of an interface are the named fields of its struct, in order. They have names, and no
two have the same, unless a field is named by underscores alone or two fields are named by the same
words. Names in snake case stay apart.
-/

namespace Ferrotype

/-- The names of the fields that have one. -/
def StructDef.fieldNames (s : StructDef) : List String := s.payload.fields.filterMap Field.name

theorem declared?_names (fs : List Field) :
    (fs.filterMap Field.declared?).map InterfaceField.name =
      (fs.filterMap Field.name).map camelCase := by
  rw [List.map_filterMap, List.map_filterMap]
  congr 1
  funext f
  simp [Field.declared?, Function.comp_def]

theorem extractStruct_value (s : StructDef) (attributes : List Attribute) :
    (extractStruct s attributes).value =
      .interface s.name (s.payload.fields.filterMap Field.declared?) (docOf attributes) := by
  rw [extractStruct, extractFields_eq]
  rfl

theorem nodup_camelCase {names : List String} :
    (names.map camelCase).Nodup ↔ names.Pairwise fun a b => ¬SameWords a b := by
  simp only [List.Nodup, List.pairwise_map, ne_eq, camelCase_eq_iff]

theorem forall_name {p : String → Prop} (fields : List InterfaceField) :
    (∀ f ∈ fields, p f.name) ↔ ∀ name ∈ fields.map InterfaceField.name, p name := by
  rw [List.forall_mem_map]

/-- Different names in snake case are made of different words. -/
theorem pairwise_snakeCase {names : List String} (hn : names.Nodup)
    (hs : ∀ name ∈ names, IsSnakeCase name) : names.Pairwise fun a b => ¬SameWords a b := by
  refine List.Pairwise.imp_of_mem (fun {a b} ha hb hne hw => ?_) hn
  exact hne ((hs a ha).eq_of_camelCase (hs b hb) ((camelCase_eq_iff a b).2 hw))

/--
The members of the interface are the named fields. All of them have names just if no field is named
by underscores alone, and different ones just if no two fields are named by the same words. So it is
if the fields have different names in snake case.
-/
theorem extractStruct_names (s : StructDef) (attributes : List Attribute) :
    ∃ fields, (extractStruct s attributes).value =
        .interface s.name fields (docOf attributes) ∧
      fields.map InterfaceField.name = s.fieldNames.map camelCase ∧
      ((∀ f ∈ fields, f.name ≠ "") ↔ ∀ name ∈ s.fieldNames, ∃ c ∈ name.toList, c ≠ '_') ∧
      ((fields.map InterfaceField.name).Nodup ↔
        s.fieldNames.Pairwise fun a b => ¬SameWords a b) ∧
      (s.fieldNames.Nodup → (∀ name ∈ s.fieldNames, IsSnakeCase name) →
        (∀ f ∈ fields, f.name ≠ "") ∧ (fields.map InterfaceField.name).Nodup) := by
  have hnames : (s.payload.fields.filterMap Field.declared?).map InterfaceField.name =
      s.fieldNames.map camelCase := declared?_names _
  refine ⟨_, extractStruct_value s attributes, hnames, ?_, ?_, fun hn hs => ⟨?_, ?_⟩⟩
  · rw [forall_name (p := (· ≠ "")), hnames, List.forall_mem_map]
    simp only [camelCase_ne_empty]
  · rw [hnames, nodup_camelCase]
  · rw [forall_name (p := (· ≠ "")), hnames, List.forall_mem_map]
    exact fun name hm => (hs name hm).camelCase_ne_empty
  · rw [hnames, nodup_camelCase]
    exact pairwise_snakeCase hn hs

/-- The fields of the structs of a text. -/
def fieldNamesIn (source : String) : Option (List (List String)) :=
  (SourceFile.ofText source).toOption.map fun file => file.structs.map StructDef.fieldNames

theorem exists_struct {source : String} {names : List String}
    (h : fieldNamesIn source = some [names]) : ∃ file s,
      SourceFile.ofText source = .ok file ∧ file.structs = [s] ∧ s.fieldNames = names := by
  obtain ⟨file, hf, hs⟩ := Option.map_eq_some_iff.1 h
  obtain ⟨s, hs, hn⟩ := List.map_eq_singleton_iff.1 hs
  exact ⟨file, s, ok_of_toOption hf, hs, hn⟩

theorem extractStruct_names_snakeCase :
    ∃ file s fields doc,
      SourceFile.ofText "struct S \x7b user_id: u64, is_x2: bool, id: u8 \x7d" = .ok file ∧
      file.structs = [s] ∧ (extractStruct s []).value = .interface s.name fields doc ∧
      fields.map InterfaceField.name = ["userId", "isX2", "id"] ∧
      (∀ f ∈ fields, f.name ≠ "") ∧ (fields.map InterfaceField.name).Nodup := by
  have hs : fieldNamesIn "struct S \x7b user_id: u64, is_x2: bool, id: u8 \x7d" =
      some [["user_id", "is_x2", "id"]] := by decide +kernel
  obtain ⟨file, s, hf, hs, hn⟩ := exists_struct hs
  obtain ⟨fields, hv, hm, -, -, h⟩ := extractStruct_names s []
  rw [hn] at hm h
  exact ⟨file, s, fields, _, hf, hs, hv, hm.trans (by decide),
    h (by decide) (by decide)⟩

/-- Fields with different names can become members with one name, and with none. -/
theorem extractStruct_names_meet :
    ∃ file s fields doc,
      SourceFile.ofText "struct S \x7b foo_bar: u8, fooBar: u8, __: u8 \x7d" = .ok file ∧
      file.structs = [s] ∧ s.fieldNames.Nodup ∧
      (extractStruct s []).value = .interface s.name fields doc ∧
      (¬∀ f ∈ fields, f.name ≠ "") ∧ ¬(fields.map InterfaceField.name).Nodup := by
  have hs : fieldNamesIn "struct S \x7b foo_bar: u8, fooBar: u8, __: u8 \x7d" =
      some [["foo_bar", "fooBar", "__"]] := by decide +kernel
  obtain ⟨file, s, hf, hs, hn⟩ := exists_struct hs
  have hm : (s.payload.fields.filterMap Field.declared?).map InterfaceField.name =
      ["fooBar", "fooBar", ""] :=
    (declared?_names _).trans ((congrArg _ hn).trans (by decide))
  refine ⟨file, s, _, _, hf, hs, hn ▸ by decide, extractStruct_value s [], ?_, ?_⟩
  · rw [forall_name (p := (· ≠ "")), hm]
    decide
  · rw [hm]
    decide

end Ferrotype
