import Ferrotype.Proofs.Plain.Declarations
import Ferrotype.Proofs.Plain.Items
import Ferrotype.Transpile

/-!
# Plain items come back as their declarations

Plain items are written as a text, the text is read, and what is read is extracted.
-/

namespace Ferrotype

theorem run_parseSource {source : String} {file : SourceFile}
    (h : SourceFile.ofText source = .ok file) : (parseSource source).run = ⟨.ok file, []⟩ := by
  rw [parseSource, h]
  rfl

theorem run_extractFile (options : ExtractOptions) {file : SourceFile}
    {result : Except ExtractError Schema} {notices : List Notice}
    (h : (extractItems [] file.items).run = ⟨result, notices⟩) :
    (extractFile options file).run =
      ⟨result, options.flagsSet.map .reservedOption ++ notices⟩ := by
  rw [extractFile, Extraction.run_bind_ok (Extraction.run_lift _), h]

/--
The text of plain items of different names gives their declarations, one for each item and in
their order. Notices tell of options that are set and of types that become `any`.
-/
theorem extract_sourceOf (options : ExtractOptions) {items : List PlainItem}
    (h : (items.map fun i => i.name.text).Nodup) :
    (extract options (sourceOf items)).run =
      ⟨.ok (items.map fun i => (i.name.text, i.declared)),
        options.flagsSet.map .reservedOption ++ items.flatMap PlainItem.notices⟩ := by
  have hitems := extractItems_trees [] items h
  rw [extract, Extraction.run_bind_ok (run_parseSource (ofText_sourceOf items)),
    run_extractFile options hitems]
  rfl

/-- An optional array, references and tuples that become `any`, values of variants, and methods. -/
theorem extract_sourceOf_shapes :
    (extract {} ("struct Point { x_at : Option < Vec < u8 > > , of : & Mode } " ++
        "enum Mode { Off , On = 7 , Last = Off } " ++
        "trait Draw { fn of ( & self , x_at : ( u8 , ) ) -> Point ; fn On ( & self ) ; }")).run =
      ⟨.ok [
        ("Point", .interface "Point"
          [⟨"xAt", "number[]", true, none⟩, ⟨"of", "any", false, none⟩] none),
        ("Mode", .enumeration "Mode" [⟨"Off", none, none⟩, ⟨"On", some (.number 7), none⟩,
          ⟨"Last", some (.identifier "Off"), none⟩] none),
        ("Draw", .trait "Draw" [⟨"of", [⟨"arg0", "any"⟩], "Point", none⟩,
          ⟨"On", [], "void", none⟩] none)],
        [.unsupportedType "Reference" "Point" (some 1),
          .unsupportedType "Tuple" "Draw" (some 1)]⟩ := by
  let point : Name := ⟨⟨"Point", by decide⟩, by decide, by intro k; cases k <;> decide⟩
  let mode : Name := ⟨⟨"Mode", by decide⟩, by decide, by intro k; cases k <;> decide⟩
  let drawing : Name := ⟨⟨"Draw", by decide⟩, by decide, by intro k; cases k <;> decide⟩
  let xAt : Name := ⟨⟨"x_at", by decide⟩, by decide, by intro k; cases k <;> decide⟩
  let of : Name := ⟨⟨"of", by decide⟩, by decide, by intro k; cases k <;> decide⟩
  let option : Name := ⟨⟨"Option", by decide⟩, by decide, by intro k; cases k <;> decide⟩
  let vec : Name := ⟨⟨"Vec", by decide⟩, by decide, by intro k; cases k <;> decide⟩
  let byte : Name := ⟨⟨"u8", by decide⟩, by decide, by intro k; cases k <;> decide⟩
  let off : Name := ⟨⟨"Off", by decide⟩, by decide, by intro k; cases k <;> decide⟩
  let on : Name := ⟨⟨"On", by decide⟩, by decide, by intro k; cases k <;> decide⟩
  let last : Name := ⟨⟨"Last", by decide⟩, by decide, by intro k; cases k <;> decide⟩
  let seven : Decimal := ⟨"7", by decide, by simp, by decide, by decide⟩
  let items : List PlainItem := [
    .struct point [⟨xAt, .generic [] option [.generic [] vec [.path [] byte]]⟩,
      ⟨of, .reference none false (.path [] mode)⟩],
    .enumeration mode [⟨off, none⟩, ⟨on, some (.number seven)⟩, ⟨last, some (.symbol off)⟩],
    .trait drawing [⟨of, [⟨xAt, .tuple [.path [] byte]⟩], some (.path [] point)⟩, ⟨on, [], none⟩]]
  have hs : sourceOf items = "struct Point { x_at : Option < Vec < u8 > > , of : & Mode } " ++
      "enum Mode { Off , On = 7 , Last = Off } " ++
      "trait Draw { fn of ( & self , x_at : ( u8 , ) ) -> Point ; fn On ( & self ) ; }" := by
    decide +kernel
  have hn : (items.map fun i => i.name.text).Nodup := by decide
  have h := extract_sourceOf {} hn
  rw [hs] at h
  exact h.trans (Noted.ext (congrArg Except.ok (by decide)) rfl)

end Ferrotype
