import Ferrotype.Proofs.Output.Chunks
import Ferrotype.Proofs.Output.Order

/-!
# Sorted output

With the option to sort, the output does not show in which order the source has its declarations,
fields and methods. They stand by name, and the variants of an enum stand as they are declared.
-/

namespace Ferrotype

/-! ## What a source order may change -/

/-- The same declaration, but for the order of fields or methods with distinct names. -/
inductive Declaration.Reordered : Declaration → Declaration → Prop where
  | same (d : Declaration) : Reordered d d
  | interface {name : String} {fields fields' : List InterfaceField} {doc : Option String}
      (hp : fields.Perm fields') (hn : (fields.map InterfaceField.name).Nodup) :
      Reordered (.interface name fields doc) (.interface name fields' doc)
  | trait {name : String} {methods methods' : List Method} {doc : Option String}
      (hp : methods.Perm methods') (hn : (methods.map Method.name).Nodup) :
      Reordered (.trait name methods doc) (.trait name methods' doc)

/-- The same declarations by name, in any order. -/
def Schema.Reordered (s t : Schema) : Prop :=
  ∃ u : Schema, s.Perm u ∧ List.Forall₂ (fun e f => e.1 = f.1 ∧ e.2.Reordered f.2) u t

namespace Output

variable {options : RenderOptions} {s t : Schema} {d e : Declaration}

theorem declarationLines_reordered (hs : options.sortAlphabetically = true) (h : d.Reordered e) :
    declarationLines options d = declarationLines options e := by
  cases h with
  | same => rfl
  | interface hp hn | trait hp hn =>
    simp only [declarationLines, ordered, hs, if_true]
    rw [sortByName_perm hp hn]

/-- The lines of each declaration, by its name. -/
def linesByName (options : RenderOptions) (s : Schema) : List (String × List String) :=
  s.map fun e => (e.1, declarationLines options e.2)

theorem linesByName_reordered (hs : options.sortAlphabetically = true) {u t : Schema}
    (h : List.Forall₂ (fun e f => e.1 = f.1 ∧ e.2.Reordered f.2) u t) :
    linesByName options u = linesByName options t := by
  induction h with
  | nil => rfl
  | cons he _ ih =>
    simp only [linesByName, List.map_cons] at ih ⊢
    rw [he.1, declarationLines_reordered hs he.2, ih]

theorem moduleText_linesByName (options : RenderOptions) (s : Schema) :
    moduleText options s =
      String.join (chunks options
        ((ordered options.sortAlphabetically Prod.fst (linesByName options s)).map fun e =>
          unlines e.2)) := by
  have ho := ordered_map Prod.fst Prod.fst
    (f := fun e : String × Declaration => (e.1, declarationLines options e.2)) (fun _ => rfl)
    options.sortAlphabetically s
  rw [moduleText_eq, linesByName, ho, List.map_map]
  rfl

theorem moduleText_reordered (hs : options.sortAlphabetically = true)
    (hk : (s.map Prod.fst).Nodup) (h : s.Reordered t) :
    moduleText options s = moduleText options t := by
  obtain ⟨u, hp, hf⟩ := h
  have hk' : ((linesByName options s).map Prod.fst).Nodup := by
    rw [linesByName, List.map_map]
    exact hk
  have hl : (linesByName options s).Perm (linesByName options t) := by
    rw [← linesByName_reordered hs hf]
    exact hp.map _
  rw [moduleText_linesByName, moduleText_linesByName, hs]
  simp only [ordered, if_true]
  rw [sortByName_perm hl hk']

/-! ## What is shown of a declaration -/

/-- The lines of a declaration: fields and methods by name, variants in their order. -/
inductive Shown (options : RenderOptions) : Declaration → List String → Prop where
  | interface {name : String} {fields shown : List InterfaceField} {doc : Option String}
      (h : Sorts InterfaceField.name fields shown) :
      Shown options (.interface name fields doc)
        (docLines 0 doc ++ ["export interface " ++ name ++ " \x7b"] ++
          (shown.flatMap fun f => docLines 1 f.doc ++
            ["    " ++ f.name ++ (if f.optional then "?" else "") ++ ": " ++ f.type]) ++ ["\x7d"])
  | trait {name : String} {methods shown : List Method} {doc : Option String}
      (h : Sorts Method.name methods shown) :
      Shown options (.trait name methods doc)
        (docLines 0 doc ++ ["export interface " ++ name ++ " \x7b"] ++
          (shown.flatMap fun m => docLines 1 m.doc ++
            ["    " ++ m.name ++ "(" ++
              ", ".intercalate (m.params.map fun p => p.name ++ ": " ++ p.type) ++ "): " ++
              m.result]) ++ ["\x7d"])
  | ordinals {name : String} {members : List EnumMember} {doc : Option String}
      (h : options.sumTypes = false) :
      Shown options (.enumeration name members doc)
        (docLines 0 doc ++ ["export enum " ++ name ++ " \x7b"] ++
          (members.zipIdx.flatMap fun m => docLines 1 m.1.doc ++
            ["    " ++ m.1.name ++ " = " ++ m.1.value.elim (toString m.2) EnumValue.text ++
              ","]) ++ ["\x7d"])
  | union {name : String} {members : List EnumMember} {doc : Option String}
      (h : options.sumTypes = true) :
      Shown options (.enumeration name members doc)
        (docLines 0 doc ++
          ["export type " ++ name ++ if members = [] then " = never;" else " ="] ++
          members.zipIdx.map fun m =>
            "    " ++ m.1.value.elim ("\"" ++ m.1.name ++ "\"") EnumValue.text ++
              if m.2 + 1 = members.length then ";" else " |")

/-- A line for each variant, in the order of the variants. -/
theorem ordinalLines_eq (index : Nat) (ms : List EnumMember) :
    ordinalLines index ms =
      (ms.zipIdx index).flatMap fun m => docLines 1 m.1.doc ++
        ["    " ++ m.1.name ++ " = " ++ m.1.value.elim (toString m.2) EnumValue.text ++ ","] := by
  induction ms generalizing index with
  | nil => rfl
  | cons m ms ih =>
    rw [List.zipIdx_cons, List.flatMap_cons, ← ih]
    simp [ordinalLines, indent]

/-- Only the last alternative has a semicolon behind it. -/
theorem unionMembers_eq {index count : Nat} (ms : List EnumMember)
    (h : index + ms.length = count) :
    unionMembers (ms.map unionText) = (ms.zipIdx index).map fun m =>
      "    " ++ m.1.value.elim ("\"" ++ m.1.name ++ "\"") EnumValue.text ++
        if m.2 + 1 = count then ";" else " |" := by
  induction ms generalizing index with
  | nil => rfl
  | cons m ms ih =>
    rw [List.length_cons] at h
    rw [List.zipIdx_cons, List.map_cons, List.map_cons, ← ih (by omega)]
    cases ms with
    | nil =>
      have hc : index + 1 = count := h
      simp [unionMembers, hc, unionText, indent]
    | cons m' ms =>
      have hc : index + 1 ≠ count := by simp at h; omega
      simp [unionMembers, hc, unionText, indent]

theorem interfaceLines_eq (name : String) (doc : Option String) (members : List String) :
    interfaceLines name doc members =
      docLines 0 doc ++ ["export interface " ++ name ++ " \x7b"] ++ members ++ ["\x7d"] := by
  simp [interfaceLines]

theorem declarationLines_shown (hs : options.sortAlphabetically = true) (d : Declaration) :
    Shown options d (declarationLines options d) := by
  cases d with
  | interface name fields doc =>
    simp only [declarationLines, ordered, hs, if_true, interfaceLines_eq]
    exact .interface (sortByName_sorts _ fields)
  | trait name methods doc =>
    simp only [declarationLines, ordered, hs, if_true, interfaceLines_eq]
    exact .trait (sortByName_sorts _ methods)
  | enumeration name members doc =>
    cases hu : options.sumTypes with
    | false =>
      have ho : Shown options (.enumeration name members doc) _ := Shown.ordinals hu
      rw [← ordinalLines_eq] at ho
      simpa [declarationLines, hu, enumLines] using ho
    | true =>
      have hl : Shown options (.enumeration name members doc) _ := Shown.union hu
      rw [← unionMembers_eq members (Nat.zero_add _)] at hl
      cases members <;> simpa [declarationLines, hu, unionLines, unionMembers] using hl

/--
With the option to sort, the text does not depend on the order of declarations, of fields and of
methods, as far as they have distinct names. Declarations stand by name, each one once, and so do
fields and methods; those of one name, and all variants, stand in the order they are declared in.
-/
theorem moduleText_sorted (hs : options.sortAlphabetically = true) :
    (∀ s t : Schema, (s.map Prod.fst).Nodup → s.Reordered t →
      moduleText options s = moduleText options t) ∧
    ∀ s : Schema, ∃ (shown : Schema) (texts : List (List String)),
      Sorts Prod.fst s shown ∧ List.Forall₂ (fun e lines => Shown options e.2 lines) shown texts ∧
        moduleText options s =
          String.join (chunks options (texts.map fun lines => "\n".intercalate lines)) := by
  refine ⟨fun s t => moduleText_reordered hs, fun s => ?_⟩
  refine ⟨sortByName Prod.fst s, (sortByName Prod.fst s).map fun e => declarationLines options e.2,
    sortByName_sorts Prod.fst s, ?_, ?_⟩
  · rw [List.forall₂_map_right_iff, List.forall₂_same]
    exact fun e _ => declarationLines_shown hs e.2
  · rw [moduleText_eq, List.map_map]
    simp only [ordered, hs, if_true]
    rfl

/--
An enum, an interface and a trait, in two orders. The fields and the methods change places, too, and
the variants do not.
-/
theorem moduleText_sorted_members :
    let options : RenderOptions := { preamble := none, sortAlphabetically := true }
    let x : InterfaceField := ⟨"x", "T", false, none⟩
    let y : InterfaceField := ⟨"y", "U", true, some "why"⟩
    let f : Method := ⟨"f", [⟨"arg0", "T"⟩, ⟨"arg1", "U"⟩], "void", none⟩
    let g : Method := ⟨"g", [], "T", none⟩
    let e : Declaration := .enumeration "E" [⟨"Z", none, none⟩, ⟨"A", none, none⟩] none
    let s : Schema := [("F", .trait "F" [g, f] none), ("E", e), ("D", .interface "D" [y, x] none)]
    let t : Schema := [("D", .interface "D" [x, y] none), ("E", e), ("F", .trait "F" [f, g] none)]
    options.sortAlphabetically = true ∧ (s.map Prod.fst).Nodup ∧ s.Reordered t ∧
      moduleText options s = moduleText options t ∧
        moduleText options t =
          "export interface D \x7b\n    x: T\n    /**\n     * why\n     */\n    y?: U\n\x7d\n\n" ++
            "export enum E \x7b\n    Z = 0,\n    A = 1,\n\x7d\n\n" ++
            "export interface F \x7b\n    f(arg0: T, arg1: U): void\n    g(): T\n\x7d\n\n" := by
  intro options x y f g e s t
  have hk : (s.map Prod.fst).Nodup := by decide
  have hr : s.Reordered t := by
    refine ⟨s.reverse, s.reverse_perm.symm, ?_⟩
    refine .cons ⟨rfl, .interface (.swap _ _ _) (by decide)⟩ (.cons ⟨rfl, .same e⟩ ?_)
    exact .cons ⟨rfl, .trait (.swap _ _ _) (by decide)⟩ .nil
  have ht : sortByName Prod.fst t = t := sortByName_of_sorted (by decide)
  have hf : sortByName InterfaceField.name [x, y] = [x, y] := sortByName_of_sorted (by decide)
  have hm : sortByName Method.name [f, g] = [f, g] := sortByName_of_sorted (by decide)
  refine ⟨rfl, hk, hr, (moduleText_sorted rfl).1 s t hk hr, ?_⟩
  have hd : declarationText options (.interface "D" [x, y] none) =
      "export interface D \x7b\n    x: T\n    /**\n     * why\n     */\n    y?: U\n\x7d" := by
    rw [declarationText, declarationLines, ordered, if_pos rfl, hf]
    decide
  have hg : declarationText options (.trait "F" [f, g] none) =
      "export interface F \x7b\n    f(arg0: T, arg1: U): void\n    g(): T\n\x7d" := by
    rw [declarationText, declarationLines, ordered, if_pos rfl, hm]
    decide
  have ho : ordered options.sortAlphabetically Prod.fst t = t := ht
  rw [moduleText_eq, ho, List.map_cons, List.map_cons, List.map_singleton, hd, hg]
  decide +kernel

end Output

end Ferrotype
