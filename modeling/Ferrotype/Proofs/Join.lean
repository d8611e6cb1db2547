import Ferrotype.Proofs.Grammar.Join
import Ferrotype.Proofs.Schema.Join
import Ferrotype.Proofs.Token.Join
import Ferrotype.Proofs.Token.Spelled
import Ferrotype.Transpile

/-!
# Texts behind texts

The declarations of two texts with a new line between them are those of the texts. No lexeme, no
rule and no item of the first text sees what comes behind it.
-/

namespace Ferrotype

/-- Two texts are read as one file, if the second one could stand behind any other. -/
theorem SourceFile.ofText_join {a b : String} {fa fb : SourceFile} (ha : ofText a = .ok fa)
    (hb : ofText b = .ok fb) (hs : ¬"#!".toList <+: b.toList) (hn : fb.attributes = []) :
    ofText (a ++ "\n" ++ b) =
      .ok ⟨fa.attributes, fa.items ++ fb.items.map (Item.down (a.toList.count '\n' + 1))⟩ := by
  obtain ⟨ta, hta, ha⟩ := ofText_eq_ok.1 ha
  obtain ⟨tb, htb, hb⟩ := ofText_eq_ok.1 hb
  obtain ⟨_, ha⟩ := ofTokens_eq_ok.1 ha
  obtain ⟨_, hb⟩ := ofTokens_eq_ok.1 hb
  have hsa := (tokenize_spelled hta).unmistakable
  have hsb := (tokenize_spelled htb).unmistakable
  obtain ⟨finish, ht⟩ := tokenize_line hta htb hs (Grammar.head_of_sourceFile hsb hb hn)
  refine ofText_eq_ok.2 ⟨_, ht, ofTokens_eq_ok.2 ⟨[], ?_⟩⟩
  exact Grammar.sourceFile_join _ hsa hsb ha hb hn

theorem extract_eq_ok {source : String} {s : Schema} {notices : List Notice} :
    (extract {} source).run = ⟨.ok s, notices⟩ ↔
      ∃ file, SourceFile.ofText source = .ok file ∧
        (extractItems [] file.items).run = ⟨.ok s, notices⟩ := by
  unfold extract parseSource
  cases h : SourceFile.ofText source with
  | error e =>
    constructor
    · intro hr
      cases congrArg Noted.value hr
    · rintro ⟨_, hf, -⟩
      cases hf
  | ok file =>
    have hr : (extractFile {} file).run = (extractItems [] file.items).run := by
      ext1 <;> rfl
    constructor
    · intro h
      exact ⟨file, rfl, hr.symm.trans h⟩
    · rintro ⟨_, hf, h⟩
      cases hf
      exact hr.trans h

/--
Two texts with a new line between them give the declarations of both, of which the later ones
count, and the notices of both, the later ones with their lines further down.
-/
theorem extract_join {a b : String} {sa sb : Schema} {na nb : List Notice}
    (ha : (extract {} a).run = ⟨.ok sa, na⟩) (hb : (extract {} b).run = ⟨.ok sb, nb⟩)
    (hs : ¬"#!".toList <+: b.toList)
    (hn : ∀ file, SourceFile.ofText b = .ok file → file.attributes = []) :
    (extract {} (a ++ "\n" ++ b)).run =
      ⟨.ok (sa.filter (fun e => e.1 ∉ sb.map Prod.fst) ++ sb),
        na ++ nb.map (Notice.down (a.toList.count '\n' + 1))⟩ := by
  obtain ⟨fa, hfa, ha⟩ := extract_eq_ok.1 ha
  obtain ⟨fb, hfb, hb⟩ := extract_eq_ok.1 hb
  refine extract_eq_ok.2 ⟨_, SourceFile.ofText_join hfa hfb hs (hn fb hfb), ?_⟩
  have hd := extractItems_down (a.toList.count '\n' + 1) [] fb.items
  have hm := extractItems_merge sa [] (fb.items.map (Item.down (a.toList.count '\n' + 1)))
  rw [Schema.merge_nil] at hm
  rw [extractItems_append, Extraction.run_bind_ok ha, hm, hd]
  have hdown : (Extraction.down (a.toList.count '\n' + 1) (extractItems [] fb.items)).run =
      ⟨.ok sb, nb.map (Notice.down (a.toList.count '\n' + 1))⟩ := by
    rw [Extraction.run_down, hb]
    rfl
  rw [Extraction.run_map_ok hdown]
  rfl

/-- The second `S` takes the place of the first one, and its notices come from further down. -/
theorem extract_join_override :
    (extract {} ("struct S;\nuse x;" ++ "\n" ++ "struct T;\nstruct S { a: u8 }\nuse y;")).run =
      ⟨.ok [("T", .interface "T" [] none),
          ("S", .interface "S" [⟨"a", "number", false, none⟩] none)],
        [.itemSkipped "use" (some 2), .itemSkipped "use" (some 5)]⟩ := by
  have ha : (extract {} "struct S;\nuse x;").run =
      ⟨.ok [("S", .interface "S" [] none)], [.itemSkipped "use" (some 2)]⟩ :=
    Noted.ext (ok_of_toOption (by decide +kernel)) (by decide +kernel)
  have hb : (extract {} "struct T;\nstruct S { a: u8 }\nuse y;").run =
      ⟨.ok [("T", .interface "T" [] none),
          ("S", .interface "S" [⟨"a", "number", false, none⟩] none)],
        [.itemSkipped "use" (some 3)]⟩ :=
    Noted.ext (ok_of_toOption (by decide +kernel)) (by decide +kernel)
  have hn : ∀ file, SourceFile.ofText "struct T;\nstruct S { a: u8 }\nuse y;" = .ok file →
      file.attributes = [] := by
    have h : (SourceFile.ofText "struct T;\nstruct S { a: u8 }\nuse y;").toOption.all
        (·.attributes.isEmpty) = true := by decide +kernel
    intro file hf
    simpa [hf, Except.toOption] using h
  have h := extract_join ha hb (by decide) hn
  exact h

end Ferrotype
