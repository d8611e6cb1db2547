import Ferrotype.Proofs.Plain.Syntax
import Ferrotype.Proofs.Schema.Join
import Ferrotype.Proofs.Schema.TypeText
import Mathlib.Data.List.Basic

/-!
# Declarations of plain items

The tree of a plain item is extracted as the declaration that the item stands for.
-/

namespace Ferrotype

variable {α β : Type}

/-! ## Texts of types -/

theorem isLoose_namedType (name : String) : (namedType name).isLoose = false := by
  unfold namedType
  split
  · rfl
  · split
    · rfl
    · split
      · rfl
      · split <;> rfl

/-! ## Types -/

theorem resolve_named (name : String) :
    (Resolved.ofType (namedType name)).type.text = (namedType name).text ∧
      (Resolved.ofType (namedType name)).type.isLoose = false ∧
      (Resolved.ofType (namedType name)).unsupported = none :=
  ⟨rfl, isLoose_namedType name, rfl⟩

/-- A tree is resolved as its type stands for, and needs no brackets in an array. -/
theorem resolve_tree (t : PlainType) : t.tree.resolve.type.text = t.text ∧
    t.tree.resolve.type.isLoose = false ∧ t.tree.resolve.unsupported = t.unsupported := by
  induction t using PlainType.induct with
  | path scope name =>
    rw [PlainType.tree, Ty.resolve, resolveLast_append, Segment.resolve_named rfl]
    exact resolve_named name.text
  | generic scope name arguments ih =>
    rw [PlainType.tree, Ty.resolve, resolveLast_append, treesOfTypes_eq]
    cases arguments with
    | nil =>
      rw [List.map_nil, List.map_nil, Segment.resolve_named rfl]
      exact resolve_named name.text
    | cons t ts =>
      cases ts with
      | nil =>
        obtain ⟨ht, hl, hu⟩ := ih t (List.mem_singleton_self t)
        rw [List.map_singleton, List.map_singleton, Segment.resolve, PlainType.text,
          PlainType.unsupported]
        by_cases ho : name.text = "Option"
        · rw [if_pos ho, if_pos ho, if_pos (.inl ho)]
          exact ⟨ht, hl, hu⟩
        · by_cases hv : name.text = "Vec"
          · rw [if_neg ho, if_pos hv, if_neg ho, if_pos hv, if_pos (.inr hv), ← ht]
            exact ⟨TsType.text_array hl, rfl, hu⟩
          · rw [if_neg ho, if_neg hv, if_neg ho, if_neg hv, if_neg (not_or.2 ⟨ho, hv⟩)]
            exact resolve_named name.text
      | cons u ts =>
        rw [List.map_cons, List.map_cons, List.map_cons, List.map_cons, Segment.resolve_named rfl]
        exact resolve_named name.text
  | reference lifetime mutable t => exact ⟨rfl, rfl, rfl⟩
  | tuple ts => exact ⟨rfl, rfl, rfl⟩
  | slice t => exact ⟨rfl, rfl, rfl⟩

theorem typeText_tree (t : PlainType) (declaration : String) :
    typeText t.tree declaration 1 = ⟨t.text, t.notices declaration⟩ := by
  obtain ⟨ht, -, hu⟩ := resolve_tree t
  unfold typeText PlainType.notices
  dsimp only
  rw [hu, ht]
  cases t.unsupported <;> rfl

theorem isOption_tree (t : PlainType) : t.tree.isOption = t.isOption := by
  cases t with
  | path scope name | generic scope name arguments =>
    rw [PlainType.tree, Ty.isOption, Ty.lastSegment?, List.getLast?_append, List.getLast?_singleton]
    rfl
  | reference lifetime mutable t => rfl
  | tuple ts => rfl
  | slice t => rfl

/-! ## Structs -/

theorem extractFields_tree (declaration : String) (index : Nat) (fields : List PlainField) :
    extractFields declaration index (fields.map PlainField.tree) =
      ⟨fields.map PlainField.declared, fields.flatMap (·.type.notices declaration)⟩ := by
  induction fields generalizing index with
  | nil => rfl
  | cons f fields ih =>
    have ho : f.tree.isOptional = f.type.isOption := by
      rw [Field.isOptional, ← isOption_tree]
      exact Bool.or_false _
    have hf (fs : List Field) : extractFields declaration index (f.tree :: fs) = (do
        let type ← typeText f.type.tree declaration 1
        return ⟨camelCase f.name.text, type, f.tree.isOptional, none⟩ ::
          (← extractFields declaration (index + 1) fs)) := rfl
    rw [List.map_cons, hf, typeText_tree, ih, ho]
    exact Noted.bind_cons _
      (fun type => InterfaceField.mk (camelCase f.name.text) type f.type.isOption none) _ _

/-! ## Enums -/

theorem intValue_decimal (d : Decimal) : intValue d.text = .ok d.value := by
  have hv : d.integer.value = d.value := Numeral.value_plain d.filled d.digits
  have hm : ¬d.integer.HidesMark := by
    rintro ⟨-, -, c, hc, -⟩
    cases hc
  have hl : ¬d.integer.TooLong := fun h =>
    absurd ((List.length_filter_le ..).trans d.short) (Nat.not_le.2 h.2)
  rw [← d.text_integer, ← hv, IntegerText.intValue_text hm, Numeral.read, if_neg hl]

theorem variantValue_tree (v : PlainVariant) (declaration : String) :
    (variantValue v.tree declaration).run = ⟨.ok (v.value.map PlainValue.declared), []⟩ := by
  obtain ⟨name, value⟩ := v
  match value with
  | none | some (.symbol _) => rfl
  | some (.number d) =>
    have hi : intDiscriminant d.text declaration name.text = .ok (.number d.value) := by
      have hd := Nat.le_of_lt_succ d.small
      rw [intDiscriminant, intValueAt, intValue_decimal]
      exact if_pos hd
    have hv : (variantValue (PlainVariant.mk name (some (.number d))).tree declaration).run =
        pure ((intDiscriminant d.text declaration name.text).map some) := rfl
    rw [hv, hi]
    rfl

theorem extractVariants_tree (declaration : String) (variants : List PlainVariant) :
    (extractVariants declaration (variants.map PlainVariant.tree)).run =
      ⟨.ok (variants.map PlainVariant.declared), []⟩ := by
  induction variants with
  | nil => rfl
  | cons v variants ih =>
    rw [List.map_cons, extractVariants, Extraction.run_bind_ok (variantValue_tree v declaration),
      Extraction.run_bind_ok ih]
    rfl

/-! ## Traits -/

theorem extractParams_inputs (declaration : String) (index : Nat) (params : List PlainField) :
    extractParams declaration 1 index (params.map PlainField.input) =
      ⟨params.mapIdx fun i p => ⟨"arg" ++ toString (index + i), p.type.text⟩,
        params.flatMap (·.type.notices declaration)⟩ := by
  induction params generalizing index with
  | nil => rfl
  | cons p params ih =>
    have hp (is : List FnInput) : extractParams declaration 1 index (p.input :: is) = (do
        let type ← typeText p.type.tree declaration 1
        return ⟨"arg" ++ toString index, type⟩ ::
          (← extractParams declaration 1 (index + 1) is)) := rfl
    have hi (i : Nat) : index + 1 + i = index + (i + 1) := by omega
    rw [List.map_cons, hp, typeText_tree, ih, List.mapIdx_cons]
    simp only [hi]
    exact Noted.bind_cons _ (fun type => MethodParam.mk ("arg" ++ toString index) type) _ _

theorem extractMethod_tree (declaration : String) (m : PlainMethod) :
    extractMethod declaration m.tree m.signature = ⟨m.declared, m.notices declaration⟩ := by
  have hp : extractParams declaration m.tree.line 0 m.signature.inputs =
      ⟨m.declared.params, m.params.flatMap (·.type.notices declaration)⟩ := by
    refine (extractParams_inputs declaration 0 m.params).trans ?_
    simp only [Nat.zero_add]
    rfl
  obtain ⟨name, params, result⟩ := m
  rw [extractMethod, hp]
  cases result with
  | none => rfl
  | some t =>
    simp only [PlainMethod.signature, PlainMethod.tree, Option.map, typeText_tree]
    rfl

theorem extractMembers_tree (declaration : String) (methods : List PlainMethod) :
    extractMembers declaration (methods.map PlainMethod.tree) =
      ⟨methods.map PlainMethod.declared, methods.flatMap (PlainMethod.notices declaration)⟩ := by
  induction methods with
  | nil => rfl
  | cons m methods ih =>
    have hm (ms : List Member) : extractMembers declaration (m.tree :: ms) = (do
        let method ← extractMethod declaration m.tree m.signature
        return method :: (← extractMembers declaration ms)) := rfl
    rw [List.map_cons, hm, extractMethod_tree, ih]
    exact Noted.bind_cons _ id _ _

/-! ## Items -/

theorem run_lift_some {x : Noted α} {a : α} {notices : List Notice} (h : x = ⟨a, notices⟩) :
    (do return some (← ExceptT.lift x) : Extraction (Option α)).run =
      ⟨.ok (some a), notices⟩ := by
  subst h
  exact Noted.ext rfl ((List.append_nil _).trans (List.append_nil _))

theorem extractItem_tree (i : PlainItem) :
    (extractItem i.tree).run = ⟨.ok (some i.declared), i.notices⟩ := by
  cases i with
  | struct name fields =>
    have hs : extractStruct ⟨name.text, .named (fields.map PlainField.tree), []⟩ [] =
        ⟨(PlainItem.struct name fields).declared, (PlainItem.struct name fields).notices⟩ := by
      refine (congrArg (· >>= _) (extractFields_tree name.text 0 fields)).trans ?_
      exact Noted.ext rfl (List.append_nil _)
    exact run_lift_some hs
  | enumeration name variants =>
    have he : (extractEnum ⟨name.text, variants.map PlainVariant.tree, []⟩ []).run =
        ⟨.ok (PlainItem.enumeration name variants).declared, []⟩ :=
      Extraction.run_bind_ok (extractVariants_tree name.text variants) _
    exact Extraction.run_bind_ok he _
  | trait name methods =>
    have ht : extractTrait ⟨name.text, methods.map PlainMethod.tree, [], [], false, false⟩ [] =
        ⟨(PlainItem.trait name methods).declared, (PlainItem.trait name methods).notices⟩ := by
      refine (congrArg (· >>= _) (extractMembers_tree name.text methods)).trans ?_
      exact Noted.ext rfl (List.append_nil _)
    exact run_lift_some ht

theorem PlainItem.name_declared (i : PlainItem) : i.declared.name = i.name.text := by
  cases i <;> rfl

/-- A declaration of a new name is put behind the others. -/
theorem Schema.put_new {schema : Schema} {d : Declaration} (h : d.name ∉ schema.map Prod.fst) :
    schema.put d = schema ++ [(d.name, d)] := by
  have hf : schema.filter (·.1 != d.name) = schema := by
    refine List.filter_eq_self.2 fun e he => bne_iff_ne.2 ?_
    rintro hd
    exact h (List.mem_map.2 ⟨e, he, hd⟩)
  rw [put, hf]

theorem extractItems_trees (schema : Schema) (items : List PlainItem)
    (h : (schema.map Prod.fst ++ items.map fun i => i.name.text).Nodup) :
    (extractItems schema (items.map PlainItem.tree)).run =
      ⟨.ok (schema ++ items.map fun i => (i.name.text, i.declared)),
        items.flatMap PlainItem.notices⟩ := by
  induction items generalizing schema with
  | nil =>
    rw [List.map_nil, List.map_nil, List.append_nil]
    rfl
  | cons i items ih =>
    -- No declaration so far has the name of this one, so none is dropped.
    have hn : i.declared.name ∉ schema.map Prod.fst := by
      rw [i.name_declared]
      rw [List.map_cons, List.nodup_append] at h
      exact fun hm => h.2.2 _ hm _ (List.mem_cons_self ..) rfl
    have hput := schema.put_new hn
    have hrest : ((schema.put i.declared).map Prod.fst ++ items.map fun i => i.name.text).Nodup := by
      rw [hput, List.map_append, List.append_assoc, List.map_singleton, i.name_declared]
      exact h
    rw [List.map_cons, extractItems, Extraction.run_bind_ok (extractItem_tree i)]
    dsimp only
    rw [ih _ hrest, hput, i.name_declared, List.append_assoc]
    rfl

end Ferrotype
