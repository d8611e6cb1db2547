import Ferrotype.Proofs.Grammar.Run
import Ferrotype.Proofs.Schema.Accounts
import Ferrotype.Proofs.Schema.Join
import Ferrotype.Transpile
import Mathlib.Data.List.Dedup

/-!
# The last declaration of a name counts

Of the items that declare one name only the last one is extracted, and it keeps its place among the
last ones of the other names.
-/

namespace Ferrotype

variable {options : ExtractOptions} {file : SourceFile} {schema : Schema}

/-! ## Declarations that are put one by one -/

namespace Schema

theorem foldl_put_merge (s t : Schema) (ds : List Declaration) :
    ds.foldl put (s.merge t) = s.merge (ds.foldl put t) := by
  induction ds generalizing t with
  | nil => rfl
  | cons d ds ih => rw [List.foldl_cons, List.foldl_cons, merge_put, ih]

theorem merge_singleton (e : String × Declaration) (s : Schema) :
    merge [e] s = if e.1 ∈ s.map Prod.fst then s else e :: s := by
  unfold merge
  split
  · next he => rw [List.filter_cons_of_neg (by simpa using he)]; rfl
  · next he => rw [List.filter_cons_of_pos (by simpa using he)]; rfl

/-- A declaration in front is put first, unless a later one has its name. -/
theorem foldl_put_cons (d : Declaration) (ds : List Declaration) :
    (d :: ds).foldl put [] =
      if d.name ∈ (ds.foldl put []).map Prod.fst then ds.foldl put []
      else (d.name, d) :: ds.foldl put [] := by
  rw [← merge_singleton (d.name, d), ← foldl_put_merge, merge_nil]
  rfl

/-- The names stand in the order of their last declarations. -/
theorem keys_foldl_put (ds : List Declaration) :
    (ds.foldl put []).map Prod.fst = (ds.map Declaration.name).dedup := by
  induction ds with
  | nil => rfl
  | cons d ds ih =>
    rw [foldl_put_cons, ih, List.map_cons, List.dedup_cons']
    split
    · exact ih
    · rw [List.map_cons, ih]

theorem mem_keys_foldl_put {ds : List Declaration} {name : String} :
    name ∈ (ds.foldl put []).map Prod.fst ↔ name ∈ ds.map Declaration.name := by
  rw [keys_foldl_put, List.mem_dedup]

/-- A declaration stays if no later one has its name. -/
theorem mem_foldl_put {ds : List Declaration} {name : String} {d : Declaration} :
    (name, d) ∈ ds.foldl put [] ↔ d.name = name ∧ ∃ before after, ds = before ++ d :: after ∧
      name ∉ after.map Declaration.name := by
  induction ds with
  | nil => simp
  | cons e ds ih =>
    rw [foldl_put_cons]
    constructor
    · intro h
      have later (h : (name, d) ∈ ds.foldl put []) : d.name = name ∧ ∃ before after,
          e :: ds = before ++ d :: after ∧ name ∉ after.map Declaration.name := by
        obtain ⟨hn, before, after, rfl, ha⟩ := ih.1 h
        exact ⟨hn, e :: before, after, rfl, ha⟩
      split at h
      · exact later h
      · next he =>
        rcases List.mem_cons.1 h with h | h
        · cases h
          exact ⟨rfl, [], ds, rfl, fun hm => he (mem_keys_foldl_put.2 hm)⟩
        · exact later h
    · rintro ⟨rfl, before, after, hs, ha⟩
      cases before with
      | nil =>
        obtain ⟨rfl, rfl⟩ := List.cons.inj hs
        rw [if_neg (mt mem_keys_foldl_put.1 ha)]
        exact List.mem_cons_self
      | cons b before =>
        obtain ⟨rfl, rfl⟩ := List.cons.inj hs
        have hm := ih.2 ⟨rfl, before, after, rfl, ha⟩
        split
        · exact hm
        · exact List.mem_cons_of_mem _ hm

end Schema

/-! ## Items -/

/-- The name of the declaration that an item gives, if it gives one. -/
def Item.declaredName? (item : Item) : Option String :=
  match item.body with
  | .structDef s => some s.name
  | .enumDef e => some e.name
  | .traitDef t => some t.name
  | .other .. => none

theorem Item.declaredName?_eq (item : Item) :
    item.declaredName? = item.declared?.map Declaration.name := by
  unfold declaredName? declared?
  cases item.body <;> rfl

theorem names_declared (items : List Item) :
    (items.filterMap Item.declared?).map Declaration.name =
      items.filterMap Item.declaredName? := by
  rw [List.map_filterMap]
  exact List.filterMap_congr fun item _ => item.declaredName?_eq.symm

/-- The declarations of items are those of the last items of their names. -/
theorem mem_declared {items : List Item} {name : String} {d : Declaration} :
    (name, d) ∈ (items.filterMap Item.declared?).foldl Schema.put [] ↔
      ∃ before item after, items = before ++ item :: after ∧ item.declared? = some d ∧
        d.name = name ∧ ∀ later ∈ after, later.declaredName? ≠ some name := by
  rw [Schema.mem_foldl_put]
  constructor
  · rintro ⟨hn, _, _, hds, ha⟩
    obtain ⟨before, rest, rfl, -, hr⟩ := List.filterMap_eq_append_iff.1 hds
    obtain ⟨others, item, after, rfl, -, hd, rfl⟩ := List.filterMap_eq_cons_iff.1 hr
    rw [names_declared] at ha
    refine ⟨before ++ others, item, after, (List.append_assoc ..).symm, hd, hn, ?_⟩
    exact fun later hm hl => ha (List.mem_filterMap.2 ⟨later, hm, hl⟩)
  · rintro ⟨before, item, after, rfl, hd, hn, ha⟩
    refine ⟨hn, before.filterMap Item.declared?, after.filterMap Item.declared?, ?_, ?_⟩
    · rw [List.filterMap_append, List.filterMap_cons_some hd]
    · rw [names_declared]
      intro hm
      obtain ⟨later, hm, hl⟩ := List.mem_filterMap.1 hm
      exact ha later hm hl

/-- The items without those that a later one of the same name overrides. -/
def dropOverridden : List Item → List Item
  | [] => []
  | item :: items =>
    if item.declaredName?.any fun name => name ∈ items.filterMap Item.declaredName? then
      dropOverridden items
    else item :: dropOverridden items

theorem dropOverridden_sublist (items : List Item) : (dropOverridden items).Sublist items := by
  induction items with
  | nil => exact .slnil
  | cons item items ih =>
    unfold dropOverridden
    split
    · exact ih.cons item
    · exact ih.cons_cons item

theorem foldl_put_dropOverridden (items : List Item) :
    ((dropOverridden items).filterMap Item.declared?).foldl Schema.put [] =
      (items.filterMap Item.declared?).foldl Schema.put [] := by
  induction items with
  | nil => rfl
  | cons item items ih =>
    unfold dropOverridden
    rw [Item.declaredName?_eq, ← names_declared]
    cases hd : item.declared? with
    | none =>
      rw [if_neg (by simp), List.filterMap_cons_none hd, List.filterMap_cons_none hd, ih]
    | some d =>
      have hm := @Schema.mem_keys_foldl_put (items.filterMap Item.declared?) d.name
      rw [List.filterMap_cons_some hd, Schema.foldl_put_cons]
      by_cases hn : d.name ∈ (items.filterMap Item.declared?).map Declaration.name
      · rw [if_pos (hm.2 hn), if_pos (by simpa using hn), ih]
      · rw [if_neg (mt hm.1 hn), if_neg (by simpa using hn), List.filterMap_cons_some hd,
          Schema.foldl_put_cons, ih, if_neg (mt hm.1 hn)]

/-! ## Files -/

theorem extractFile_eq_ok :
    (extractFile options file).run.value = .ok schema ↔
      (∀ item ∈ file.items, Step.firstFault item.steps = none) ∧
        schema = (file.items.filterMap Item.declared?).foldl Schema.put [] := by
  have hf : Step.firstFault (file.items.flatMap Item.steps) = none ↔
      ∀ item ∈ file.items, Step.firstFault item.steps = none := by
    simp only [Step.firstFault, List.findSome?_eq_none_iff, List.mem_flatMap]
    grind
  rw [extractFile_run, ← hf]
  cases Step.firstFault (file.items.flatMap Item.steps) <;> simp [eq_comm]

/--
The declarations of a file have the names of its structs, enums and traits, each name once and in
the order of the last items of the names. Such an item is declared as it would be alone, so items
that are overridden by a later one may as well be left out.
-/
theorem extractFile_last (h : (extractFile options file).run.value = .ok schema) :
    schema.map Prod.fst = (file.items.filterMap Item.declaredName?).dedup ∧
    (schema.map Prod.fst).Nodup ∧
    (∀ name d, (name, d) ∈ schema → d.name = name ∧ ∃ before item after,
      file.items = before ++ item :: after ∧ item.declaredName? = some name ∧
        (∀ later ∈ after, later.declaredName? ≠ some name) ∧
        (extractFile options { file with items := [item] }).run.value = .ok [(name, d)]) ∧
    (extractFile options { file with items := dropOverridden file.items }).run.value =
      .ok schema := by
  obtain ⟨hf, rfl⟩ := extractFile_eq_ok.1 h
  rw [Schema.keys_foldl_put, names_declared]
  refine ⟨rfl, List.nodup_dedup _, fun name d hm => ?_, ?_⟩
  · obtain ⟨before, item, after, hi, hd, rfl, ha⟩ := mem_declared.1 hm
    refine ⟨rfl, before, item, after, hi, ?_, ha, ?_⟩
    · rw [item.declaredName?_eq, hd]
      rfl
    · refine extractFile_eq_ok.2 ⟨?_, ?_⟩
      · intro i hm
        rw [List.mem_singleton.1 hm]
        exact hf item (by rw [hi]; simp)
      · rw [List.filterMap_cons_some hd]
        rfl
  · refine extractFile_eq_ok.2 ⟨fun item hm => ?_, (foldl_put_dropOverridden _).symm⟩
    exact hf item ((dropOverridden_sublist _).subset hm)

/-- The trait overrides the struct, and stands behind the enum. -/
theorem extractFile_last_kinds :
    let source := "struct A \x7b x: u8 \x7d\nenum B \x7b V \x7d\nuse q;\n" ++
      "trait A \x7b fn f(&self); \x7d\nstruct C;\nstruct C(u8);"
    let options : ExtractOptions := {}
    ∃ file schema, SourceFile.ofText source = .ok file ∧
      (extractFile options file).run.value = .ok schema ∧
      schema.map Prod.fst = ["B", "A", "C"] ∧
      (dropOverridden file.items).filterMap Item.declaredName? = ["B", "A", "C"] ∧
      (extractFile options { file with items := dropOverridden file.items }).run.value =
        .ok schema := by
  intro source options
  obtain ⟨file, hf⟩ : ∃ file, SourceFile.ofText source = .ok file :=
    exists_ok_of_isSome (by decide +kernel)
  obtain ⟨schema, hs⟩ : ∃ schema, (extract options source).run.value = .ok schema :=
    exists_ok_of_isSome (by decide +kernel)
  rw [extract_of_file hf] at hs
  obtain ⟨hk, -, -, hd⟩ := extractFile_last hs
  have hn : (SourceFile.ofText source).toOption.map (fun file =>
      (file.items.filterMap Item.declaredName?,
        (dropOverridden file.items).filterMap Item.declaredName?)) =
      some (["A", "B", "A", "C", "C"], ["B", "A", "C"]) := by decide +kernel
  rw [hf] at hn
  obtain ⟨hn, ho⟩ := Prod.mk.inj (Option.some.inj hn)
  refine ⟨file, schema, hf, hs, ?_, ho, hd⟩
  rw [hk, hn]
  decide

end Ferrotype
