import Ferrotype.Output.Declaration
import Ferrotype.Proofs.Files.Paths
import Ferrotype.Proofs.Text.JsonString

/-!
# The lines of enums

The value of a variant is written on one line, whatever string it is. So each variant of an enum
without docs has one line of the text, in the order of the variants.
-/

namespace Ferrotype

open Text

namespace Output

variable {s t name : String} {m last : EnumMember} {members init : List EnumMember}
  {doc : Option String}

/-! ## Lines -/

def OneLine (s : String) : Prop := '\n' ∉ s.toList

instance (s : String) : Decidable (OneLine s) := inferInstanceAs (Decidable ('\n' ∉ s.toList))

theorem oneLine_append : OneLine (s ++ t) ↔ OneLine s ∧ OneLine t := by
  simp [OneLine]

theorem OneLine.between {before after : String} (hs : OneLine s) (hb : OneLine before)
    (ha : OneLine after) : OneLine (before ++ s ++ after) :=
  oneLine_append.2 ⟨oneLine_append.2 ⟨hb, hs⟩, ha⟩

/-- The lines of a text, of which there is one at least. -/
def linesOf (text : String) : List String := (splitAtChar '\n' text.toList).map String.ofList

theorem linesOf_unlines {lines : List String} (h : ∀ line ∈ lines, OneLine line)
    (hn : lines ≠ []) : linesOf (unlines lines) = lines := by
  have hs : splitAtChar '\n' (['\n'].intercalate (lines.map String.toList)) =
      lines.map String.toList :=
    splitAtChar_intercalate (List.forall_mem_map.2 h) (by simpa using hn)
  have ht : (unlines lines).toList = ['\n'].intercalate (lines.map String.toList) :=
    String.toList_intercalate
  rw [linesOf, ht, hs, List.map_map]
  simp [Function.comp_def]

/-- The lines of a text that has a first and a last line, and others in between. -/
theorem linesOf_block {first last : String} {lines : List String} (hf : OneLine first)
    (h : ∀ line ∈ lines, OneLine line) (hl : OneLine last) :
    linesOf (unlines (first :: lines ++ [last])) = first :: lines ++ [last] := by
  refine linesOf_unlines ?_ (by simp)
  rw [List.forall_mem_append, List.forall_mem_cons, List.forall_mem_singleton]
  exact ⟨⟨hf, h⟩, hl⟩

/-! ## Values -/

theorem oneLine_toString_nat (n : Nat) : OneLine (toString n) := by
  intro h
  have hd : '\n'.isDigit = true := by
    refine Nat.isDigit_of_mem_toDigits (b := 10) (n := n) (by decide) (by decide) ?_
    simpa using h
  cases hd

theorem oneLine_toString_int (n : Int) : OneLine (toString n) := by
  cases n with
  | ofNat n => exact oneLine_toString_nat n
  | negSucc n => exact oneLine_append (s := "-").2 ⟨by decide, oneLine_toString_nat (n + 1)⟩

theorem oneLine_jsonString (s : String) : OneLine (jsonString s) := newline_notMem_jsonString s

/-- A variant without docs, with its name and its identifier on one line. -/
structure IsPlainMember (m : EnumMember) : Prop where
  doc : ∀ text ∈ m.doc, text = ""
  name : OneLine m.name
  identifier : ∀ name, m.value = some (.identifier name) → OneLine name

theorem IsPlainMember.oneLine_elim (h : IsPlainMember m) (hs : OneLine s) :
    OneLine (m.value.elim s EnumValue.text) := by
  cases hv : m.value with
  | none => exact hs
  | some v =>
    cases v with
    | string value => exact oneLine_jsonString value
    | number value => exact oneLine_toString_int value
    | identifier name => exact h.identifier name hv

/-! ## Enums -/

def ordinalLine (m : EnumMember) (index : Nat) : String :=
  indent ++ m.name ++ " = " ++ m.value.elim (toString index) EnumValue.text ++ ","

theorem docLines_of_empty (h : ∀ text ∈ doc, text = "") (level : Nat) :
    docLines level doc = [] := by
  cases doc with
  | none => rfl
  | some text =>
    obtain rfl := h text rfl
    rfl

theorem ordinalLines_plain (h : ∀ m ∈ members, IsPlainMember m) (index : Nat) :
    ordinalLines index members = (members.zipIdx index).map fun p => ordinalLine p.1 p.2 := by
  induction members generalizing index with
  | nil => rfl
  | cons m ms ih =>
    rw [List.forall_mem_cons] at h
    rw [ordinalLines, docLines_of_empty h.1.doc, ih h.2]
    rfl

theorem unionMembers_concat (texts : List String) (last : String) :
    unionMembers (texts ++ [last]) =
      texts.map (fun text => indent ++ text ++ " |") ++ [indent ++ last ++ ";"] := by
  induction texts with
  | nil => rfl
  | cons text texts ih =>
    rw [List.cons_append, List.map_cons, List.cons_append, ← ih]
    cases texts <;> rfl

theorem oneLine_ordinalLine (h : IsPlainMember m) (index : Nat) :
    OneLine (ordinalLine m index) := by
  have hv := h.oneLine_elim (oneLine_toString_nat index)
  exact hv.between (h.name.between (by decide) (by decide)) (by decide)

theorem oneLine_unionText (h : IsPlainMember m) : OneLine (unionText m) :=
  h.oneLine_elim (h.name.between (by decide) (by decide))

theorem linesOf_enumLines (hn : OneLine name) (hd : ∀ text ∈ doc, text = "")
    (hm : ∀ m ∈ members, IsPlainMember m) :
    linesOf (unlines (enumLines name members doc)) =
      ("export enum " ++ name ++ " \x7b") ::
        members.zipIdx.map (fun p => ordinalLine p.1 p.2) ++ ["\x7d"] := by
  rw [enumLines, docLines_of_empty hd, List.nil_append, ordinalLines_plain hm]
  refine linesOf_block (hn.between (by decide) (by decide)) ?_ (by decide)
  exact List.forall_mem_map.2 fun p hp =>
    oneLine_ordinalLine (hm p.1 (List.fst_mem_of_mem_zipIdx hp)) p.2

theorem linesOf_unionLines_nil (hn : OneLine name) (hd : ∀ text ∈ doc, text = "") :
    linesOf (unlines (unionLines name [] doc)) = ["export type " ++ name ++ " = never;"] := by
  rw [unionLines, docLines_of_empty hd, List.nil_append]
  refine linesOf_unlines (List.forall_mem_singleton.2 ?_) (by simp)
  exact hn.between (by decide) (by decide)

theorem linesOf_unionLines_concat (hn : OneLine name) (hd : ∀ text ∈ doc, text = "")
    (hm : ∀ m ∈ init ++ [last], IsPlainMember m) :
    linesOf (unlines (unionLines name (init ++ [last]) doc)) =
      ("export type " ++ name ++ " =") ::
        init.map (fun m => indent ++ unionText m ++ " |") ++ [indent ++ unionText last ++ ";"] := by
  have hu : unionLines name (init ++ [last]) doc = ("export type " ++ name ++ " =") ::
      init.map (fun m => indent ++ unionText m ++ " |") ++ [indent ++ unionText last ++ ";"] := by
    rw [unionLines, docLines_of_empty hd, List.nil_append]
    · rw [List.map_append, List.map_singleton, unionMembers_concat, List.map_map]
      rfl
    · simp
  have hmember (m : EnumMember) (h : m ∈ init ++ [last]) : OneLine (unionText m) :=
    oneLine_unionText (hm m h)
  rw [hu]
  refine linesOf_block (hn.between (by decide) (by decide)) (List.forall_mem_map.2 fun m h => ?_)
    ((hmember last (by simp)).between (by decide) (by decide))
  exact (hmember m (List.mem_append_left _ h)).between (by decide) (by decide)

/--
A string is written as one that is read back: between two quotes, of which the second is not
escaped, with each quote in it escaped and no control character. So the text of an enum without docs
has one line for each variant, in order: behind the header, and before the brace that closes an enum
or up to the semicolon of a union.
-/
theorem enumeration_lines :
    (∀ s : String, ∃ body, (EnumValue.string s).text.toList = '"' :: (body ++ ['"']) ∧
      (∀ before after, body = before ++ '"' :: after → backslashes before % 2 = 1) ∧
      backslashes body % 2 = 0 ∧ (∀ c ∈ body, 0x20 ≤ c.toNat) ∧
      Json.document (EnumValue.string s).text.toList = .ok (.string (.ofString s))) ∧
    (∀ s t : String, s ≠ t → (EnumValue.string s).text ≠ (EnumValue.string t).text) ∧
    ∀ (options : RenderOptions) (name : String) (members : List EnumMember) (doc : Option String),
      OneLine name → (∀ text ∈ doc, text = "") → (∀ m ∈ members, IsPlainMember m) →
      (options.sumTypes = false →
        linesOf (declarationText options (.enumeration name members doc)) =
          ("export enum " ++ name ++ " \x7b") ::
            members.zipIdx.map (fun p => ordinalLine p.1 p.2) ++ ["\x7d"]) ∧
      (options.sumTypes = true →
        (members = [] → linesOf (declarationText options (.enumeration name members doc)) =
          ["export type " ++ name ++ " = never;"]) ∧
        ∀ init last, members = init ++ [last] →
          linesOf (declarationText options (.enumeration name members doc)) =
            ("export type " ++ name ++ " =") ::
              init.map (fun m => indent ++ unionText m ++ " |") ++
                [indent ++ unionText last ++ ";"]) := by
  refine ⟨fun s => ⟨s.toList.flatMap jsonChar, ?_, fun _ _ => quote_flatMap,
    backslashes_flatMap s.toList, visible_flatMap s.toList, Json.document_jsonString s⟩,
    fun s t hne h => hne (jsonString_injective h), ?_⟩
  · exact String.toList_ofList
  · intro options name members doc hn hd hm
    unfold declarationText declarationLines
    refine ⟨fun ho => ?_, fun hu => ⟨?_, ?_⟩⟩
    · simp only [ho, Bool.false_eq_true, if_false]
      exact linesOf_enumLines hn hd hm
    · rintro rfl
      simp only [hu, if_true]
      exact linesOf_unionLines_nil hn hd
    · rintro init last rfl
      simp only [hu, if_true]
      exact linesOf_unionLines_concat hn hd hm

/-- A value of two lines, a variant without a value, and one that names another. -/
theorem enumeration_lines_values :
    let e : Declaration := .enumeration "E" [⟨"A", some (.string "a\n\""), none⟩, ⟨"B", none, none⟩,
      ⟨"C", some (.identifier "A"), none⟩] none
    linesOf (declarationText ⟨none, none, false, false⟩ e) =
        ["export enum E \x7b", "    A = \"a\\n\\\"\",", "    B = 1,", "    C = A,", "\x7d"] ∧
      linesOf (declarationText ⟨none, none, true, false⟩ e) =
        ["export type E =", "    \"a\\n\\\"\" |", "    \"B\" |", "    A;"] := by
  have hm : ∀ m ∈ ([⟨"A", some (.string "a\n\""), none⟩, ⟨"B", none, none⟩,
      ⟨"C", some (.identifier "A"), none⟩] : List EnumMember), IsPlainMember m := by
    simp only [List.forall_mem_cons]
    exact ⟨⟨by simp, by decide, by simp⟩, ⟨by simp, by decide, by simp⟩,
      ⟨by simp, by decide, by rintro _ ⟨⟩; decide⟩, by simp⟩
  obtain ⟨-, -, h⟩ := enumeration_lines
  refine ⟨((h _ "E" _ none (by decide) (by simp) hm).1 rfl).trans (by decide), ?_⟩
  obtain ⟨-, hu⟩ := (h ⟨none, none, true, false⟩ "E" _ none (by decide) (by simp) hm).2 rfl
  exact (hu [⟨"A", some (.string "a\n\""), none⟩, ⟨"B", none, none⟩] _ rfl).trans
    (by decide)

end Output

end Ferrotype
