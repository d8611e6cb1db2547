import Ferrotype.Proofs.Halting.Items
import Ferrotype.Proofs.Partition

/-!
# Lines of constructs

A construct has the line of a token that is read for it, and constructs are read in the order of
their tokens. So their lines never go back where those of the tokens do not.
-/

namespace Ferrotype

variable {α β : Type}

/-! ## Lines of tokens -/

theorem Partition.lines {before s : List Char} {ts : List Token} (h : Partition before s ts) :
    (∀ t ∈ ts, (placeBehind before).line ≤ t.place.line) ∧
      (ts.map fun t => t.place.line).Pairwise (· ≤ ·) := by
  have le (s t : List Char) : (placeBehind s).line ≤ (placeBehind (s ++ t)).line := by
    simp [placeBehind]
  induction h with
  | nil => simp
  | blank _ _ ih | lineComment _ _ _ ih | blockComment _ _ ih =>
    exact ⟨fun t ht => (le _ _).trans (ih.1 t ht), ih.2⟩
  | token _ _ _ ih =>
    constructor
    · intro t ht
      obtain rfl | ht := List.mem_cons.1 ht
      · exact le_refl _
      · exact (le _ _).trans (ih.1 t ht)
    · refine List.pairwise_cons.2 ⟨fun line hl => ?_, ih.2⟩
      obtain ⟨t, ht, rfl⟩ := List.mem_map.1 hl
      exact (le _ _).trans (ih.1 t ht)

theorem tokenize_lines {source : String} {tokens : Tokens} (h : tokenize source = .ok tokens) :
    (tokens.list.map fun t => t.place.line).Pairwise (· ≤ ·) := by
  obtain ⟨line, text, -, -, hp, -⟩ := (tokenize_partition source).1 tokens h
  exact hp.lines.2

/-! ## Lines that are read -/

/-- The line of the first token. -/
def lineOf (ts : List Token) : Nat := ts.head?.elim 0 fun t => t.place.line

/--
The lines of what `x` finds are lines of tokens, in their order: of tokens that are read already,
and then of tokens that `x` reads.
-/
def Rule.Records (x : Rule α) (before : List Nat) (lines : α → List Nat) (ts : List Token) : Prop :=
  ∀ a rest, x ts = .ok (a, rest) → ∃ us, ts = us ++ rest ∧
    (lines a).Sublist (before ++ us.map fun t => t.place.line)

/-- The lines of what a turn finds. -/
def Turn.lines (lines : α → List Nat) : Turn α → List Nat
  | .stop => []
  | .last a | .more a => lines a

namespace Rule.Records

variable {x : Rule α} {f : α → Rule β} {k : α → Bool} {l : α → List Nat} {m : β → List Nat}
  {before : List Nat} {ts : List Token} {kind : Kind}

/-! ## Sequences -/

theorem pure {a : α} (h : (l a).Sublist before) : Records (Pure.pure a) before l ts := by
  intro c rest hr
  obtain ⟨rfl, rfl⟩ := run_pure.1 hr
  exact ⟨[], rfl, by simpa using h⟩

theorem refuse {what : Expectation} {note : String} :
    (Rule.refuse what note).Records before l ts :=
  fun _ _ hr => (run_refuse.1 hr).elim

theorem bind (hx : x.Records [] l ts) (hf : ∀ a rest, (f a).Records (before ++ l a) m rest) :
    (x >>= f).Records before m ts := by
  intro b rest hr
  obtain ⟨a, mid, ha, hb⟩ := run_bind.1 hr
  obtain ⟨us, rfl, hl⟩ := hx a mid ha
  obtain ⟨vs, rfl, hm⟩ := hf a mid b rest hb
  refine ⟨us ++ vs, (List.append_assoc us vs rest).symm, ?_⟩
  rw [List.map_append, ← List.append_assoc]
  exact hm.trans ((hl.append_left before).append_right _)

/-- Where something is read, the line of the first token can be kept. -/
theorem first (hx : x.Halts (fun _ => true) ts) : x.Records [] (fun _ => [lineOf ts]) ts := by
  intro a rest hr
  obtain ⟨⟨us, rfl⟩, hl⟩ := hx.2 a rest hr
  refine ⟨us, rfl, ?_⟩
  cases us with
  | nil => exact absurd (hl rfl) (lt_irrefl _)
  | cons t us => simp [lineOf]

/-- A step that is read over. -/
theorem skip (hx : x.Halts k ts) (hf : ∀ a rest, (f a).Records before m rest) :
    (x >>= f).Records before m ts := by
  have hn : x.Records [] (fun _ => []) ts := by
    intro a rest hr
    obtain ⟨⟨us, rfl⟩, -⟩ := hx.2 a rest hr
    exact ⟨us, rfl, List.nil_sublist _⟩
  refine hn.bind fun a rest => ?_
  rw [List.append_nil]
  exact hf a rest

theorem look {a : α} (hx : x ts = .ok (a, ts)) (hf : (f a).Records before m ts) :
    (x >>= f).Records before m ts := by
  unfold Records
  rwa [bind_ok hx]

theorem ite {c : Prop} [Decidable c] {x y : Rule α} (hx : c → x.Records before l ts)
    (hy : ¬c → y.Records before l ts) : (if c then x else y).Records before l ts := by
  split
  · next h => exact hx h
  · next h => exact hy h

/-- A step that may be left out. -/
theorem opt {c : Prop} [Decidable c] {y : Rule β} (hx : c → x.Halts k ts)
    (hy : ∀ rest, y.Records before m rest) :
    (if c then x >>= fun _ => y else y).Records before m ts :=
  ite (fun hc => skip (hx hc) fun _ => hy) fun _ => hy ts

theorem mono {l' : α → List Nat} (hx : x.Records before l ts) (h : ∀ a, (l' a).Sublist (l a)) :
    x.Records before l' ts := by
  intro a rest hr
  obtain ⟨us, hs, hl⟩ := hx a rest hr
  exact ⟨us, hs, (h a).trans hl⟩

/-! ## Steps -/

theorem expect {note : String} :
    (Rule.expect kind note).Records [] (fun t => [t.place.line]) ts := by
  intro t rest hr
  obtain ⟨rfl, -⟩ := run_expect.1 hr
  exact ⟨[t], rfl, .refl _⟩

theorem nextLine {f : Nat → Rule β} (hf : (f (lineOf ts)).Records before m ts) :
    (Grammar.nextLine >>= f).Records before m ts := look rfl hf

theorem isAt {f : Bool → Rule β} (hf : ∀ b, (f b).Records before m ts) :
    (Rule.isAt kind >>= f).Records before m ts := look (run_isAt.2 ⟨rfl, rfl⟩) (hf _)

theorem ahead {test : List Token → Bool} {f : Bool → Rule β}
    (hf : ∀ b, (f b).Records before m ts) : (Rule.ahead test >>= f).Records before m ts :=
  look rfl (hf _)

/-! ## Lists -/

theorem many {turn : Rule (Turn α)} (ht : ∀ us, turn.Records [] (Turn.lines l) us) :
    (Rule.many turn).Records [] (fun as => as.flatMap l) ts := by
  intro as rest hr
  refine many_induction (fun ts as rest => ∃ us, ts = us ++ rest ∧
    (as.flatMap l).Sublist ([] ++ us.map fun t => t.place.line)) ?stop ?last ?more hr
  case stop => exact fun us rest h => ht us _ _ h
  case last =>
    intro us a rest h
    simpa [Turn.lines] using ht us _ _ h
  case more =>
    intro ts a mid as rest h _ _ ih
    obtain ⟨us, rfl, hl⟩ := ht ts _ _ h
    obtain ⟨vs, rfl, hm⟩ := ih
    refine ⟨us ++ vs, (List.append_assoc us vs rest).symm, ?_⟩
    rw [List.flatMap_cons, List.map_append]
    exact hl.append hm

theorem manyLines (line : α → Nat) {turn : Rule (Turn α)}
    (ht : ∀ us, turn.Records [] (Turn.lines fun a => [line a]) us) :
    (Rule.many turn).Records [] (List.map line) ts :=
  (many ht).mono fun as => by simp only [List.map_eq_flatMap, List.Sublist.refl]

theorem commaList {closer : Kind} {element : Rule α} {line : α → Nat}
    (he : ∀ us, element.Records [] (fun a => [line a]) us) :
    (Rule.commaList closer element).Records [] (List.map line) ts := by
  refine manyLines line fun us => .isAt fun _ => .ite (fun _ => .pure (.refl _)) fun _ => ?_
  refine .bind (he us) fun a vs => .skip .accept fun _ vs => ?_
  exact .ite (fun _ => .pure (.refl _)) fun _ => .pure (.refl _)

end Rule.Records

/-! ## What is found -/

/-- Whatever `x` finds satisfies `P`. Only the last step of a sequence counts. -/
def Rule.Finds (x : Rule α) (P : α → Prop) : Prop := ∀ ts a rest, x ts = .ok (a, rest) → P a

namespace Rule.Finds

variable {x y : Rule α} {f : α → Rule β} {P : α → Prop} {Q : β → Prop}

theorem pure {a : α} (h : P a) : Finds (Pure.pure a) P := by
  intro ts b rest hr
  obtain ⟨rfl, -⟩ := run_pure.1 hr
  exact h

theorem throw {fault : GrammarFault} : (MonadExcept.throw fault : Rule α).Finds P :=
  fun _ _ _ h => (run_throw.1 h).elim

theorem bind (hf : ∀ a, (f a).Finds Q) : (x >>= f).Finds Q := by
  intro ts b rest h
  obtain ⟨a, mid, -, hb⟩ := run_bind.1 h
  exact hf a mid b rest hb

theorem ite {c : Prop} [Decidable c] (hx : x.Finds P) (hy : y.Finds P) :
    (if c then x else y).Finds P := by
  split
  · exact hx
  · exact hy

end Rule.Finds

/-! ## Constructs -/

def StructDef.lines (s : StructDef) : List Nat := s.payload.fields.map Field.line

def EnumDef.lines (e : EnumDef) : List Nat := e.variants.map Variant.line

def TraitDef.lines (t : TraitDef) : List Nat := t.members.map Member.line

def ItemBody.IsOther (body : ItemBody) : Prop := ∃ kind name, body = .other kind name

/-- The lines of the constructs of an item, or its own line if nothing in it counts. -/
def Item.lines (item : Item) : List Nat :=
  match item.body with
  | .structDef s => s.lines
  | .enumDef e => e.lines
  | .traitDef t => t.lines
  | .other .. => [item.line]

namespace Grammar

open Rule

variable {ts : List Token}

theorem namedField_records : namedField.Records [] (fun f => [f.line]) ts := by
  refine .skip outerAttributes_halts fun _ us => .skip visibility_halts fun _ us => ?_
  refine .bind .expect fun name us => .skip (.discard .expect) fun _ us => ?_
  exact .skip (wholeType_halts true) fun _ us => .pure (.refl _)

theorem namedFields_records : namedFields.Records [] (List.map Field.line) ts := by
  refine .skip (.discard .expect) fun _ us => ?_
  refine .bind (.commaList fun us => namedField_records) fun fields us => ?_
  exact .skip (.discard .expect) fun _ us => .pure (.refl _)

theorem tupleField_records : tupleField.Records [] (fun f => [f.line]) ts := by
  refine .skip outerAttributes_halts fun _ us => .skip visibility_halts fun _ us => .nextLine ?_
  exact .bind (.first (wholeType_halts true)) fun _ us => .pure (.refl _)

theorem tupleFields_records : tupleFields.Records [] (List.map Field.line) ts := by
  refine .skip (.discard .expect) fun _ us => ?_
  refine .bind (.commaList fun us => tupleField_records) fun fields us => ?_
  exact .skip (.discard .expect) fun _ us => .pure (.refl _)

theorem structDef_records : structDef.Records [] StructDef.lines ts := by
  refine .skip (.discard .expect) fun _ us => .skip .expectName fun name us => ?_
  refine .skip wholeGenerics_halts fun generics us => .skip skipWhere_halts fun _ us => ?_
  refine .isAt fun _ => .ite (fun _ => ?_) fun _ => .isAt fun _ => .ite (fun _ => ?_) fun _ => ?_
  · exact .bind namedFields_records fun fields us => .pure (.refl _)
  · refine .bind tupleFields_records fun fields us => .skip skipWhere_halts fun _ us => ?_
    exact .skip (.discard .expect) fun _ us => .pure (.refl _)
  · exact .skip .accept fun _ us => .ite (fun _ => .pure (.refl _)) fun _ => .refuse

theorem variant_records : variant.Records [] (fun v => [v.line]) ts := by
  refine .skip outerAttributes_halts fun _ us => .skip (.discard visibility_halts) fun _ us => ?_
  refine .bind .expect fun name us => ?_
  -- A discriminant may stand behind the name, whatever the payload is.
  have ht (payload : Payload) (attributes us) : Rule.Records
      (do
        let discriminant ←
          if ← accept (.punct .eq) then pure (some (← whole fun R => binary R 1)) else pure none
        return Variant.mk name.text payload discriminant attributes name.place.line)
      ([] ++ [name.place.line]) (fun v => [v.line]) us := by
    refine .skip .accept fun _ us => .ite (fun _ => ?_) fun _ => .pure (.refl _)
    exact .skip wholeExpr_halts fun value us => .pure (.refl _)
  refine .isAt fun _ => .isAt fun _ => .ite (fun _ => ?_) fun _ => .ite (fun _ => ?_) fun _ => ?_
  · exact .skip namedFields_halts fun _ us => ht _ _ us
  · exact .skip tupleFields_halts fun _ us => ht _ _ us
  · exact ht _ _ us

theorem enumDef_records : enumDef.Records [] EnumDef.lines ts := by
  refine .skip (.discard .expect) fun _ us => .skip .expectName fun name us => ?_
  refine .skip wholeGenerics_halts fun generics us => .skip skipWhere_halts fun _ us => ?_
  refine .skip (.discard .expect) fun _ us => ?_
  refine .bind (.commaList fun us => variant_records) fun variants us => ?_
  exact .skip (.discard .expect) fun _ us => .pure (.refl _)

theorem traitMember_records : traitMember.Records [] (fun m => [m.line]) ts := by
  refine .skip outerAttributes_halts fun _ us => .nextLine ?_
  exact .bind (.first memberBody_halts) fun _ us => .pure (.refl _)

theorem traitDef_records : traitDef.Records [] TraitDef.lines ts := by
  refine .skip .accept fun isUnsafe us => .ahead fun isAuto => ?_
  refine .opt (fun _ => .discard .advance) fun us => .skip (.discard .expect) fun _ us => ?_
  refine .skip .expectName fun name us => .skip wholeGenerics_halts fun generics us => ?_
  refine .skip supertraits_halts fun supertraits us => .skip skipWhere_halts fun _ us => ?_
  refine .skip (.discard .expect) fun _ us => .skip (.discard innerAttributes_halts) fun _ us => ?_
  refine .bind (.manyLines Member.line fun us => .isAt fun _ => ?member) fun members us => ?_
  case member =>
    refine .ite (fun _ => .pure (.refl _)) fun _ => ?_
    exact .bind traitMember_records fun _ us => .pure (.refl _)
  exact .skip (.discard .expect) fun _ us => .pure (.refl _)

/-! ## Items and files -/

theorem qualifiedItem_finds : qualifiedItem.Finds ItemBody.IsOther := by
  refine .bind fun _ => .bind fun _ => .bind fun _ => .ite ?fn (.bind fun _ => .ite ?impl ?_)
  case fn => exact .bind fun _ => .bind fun _ => .pure ⟨_, _, rfl⟩
  case impl => exact .bind fun _ => .pure ⟨_, _, rfl⟩
  exact .bind fun _ => .ite (.bind fun _ => .pure ⟨_, _, rfl⟩) .throw

theorem otherItem_finds : otherItem.Finds ItemBody.IsOther := by
  refine .bind fun _ => .ite ?rules (.bind fun _ => .ite ?call (.bind fun _ => .ite ?union ?_))
  case rules => exact .bind fun _ => .bind fun _ => .bind fun _ => .bind fun _ => .pure ⟨_, _, rfl⟩
  case call => exact .bind fun _ => .bind fun _ => .bind fun _ => .bind fun _ => .pure ⟨_, _, rfl⟩
  case union => exact .bind fun _ => .bind fun _ => .bind fun _ => .bind fun _ => .pure ⟨_, _, rfl⟩
  refine .bind fun _ => .ite ?use (.bind fun _ => .ite ?static (.bind fun _ => .ite ?type ?_))
  case use => exact .bind fun _ => .pure ⟨_, _, rfl⟩
  case static => exact .bind fun _ => .bind fun _ => .bind fun _ => .pure ⟨_, _, rfl⟩
  case type => exact .bind fun _ => .bind fun _ => .pure ⟨_, _, rfl⟩
  refine .bind fun _ => .ite ?module (.bind fun _ => .ite ?const (.bind fun _ => .ite ?crate ?_))
  case module => exact .bind fun _ => .bind fun _ => .pure ⟨_, _, rfl⟩
  case const => exact .bind fun _ => .bind fun _ => .bind fun _ => .bind fun _ => .pure ⟨_, _, rfl⟩
  case crate => exact .bind fun _ => .bind fun _ => .bind fun _ => .bind fun _ => .pure ⟨_, _, rfl⟩
  exact qualifiedItem_finds

/-- An item that is read over has the line of the first token behind its attributes. -/
theorem otherItem_records (attributes : List Attribute) (visibility : Visibility) :
    otherItem.Records [] (fun body => Item.lines ⟨attributes, visibility, lineOf ts, body⟩) ts := by
  intro body rest hr
  obtain ⟨kind, name, rfl⟩ := otherItem_finds ts _ rest hr
  exact Records.first otherItem_halts _ rest hr

theorem item_records : item.Records [] Item.lines ts := by
  refine .skip outerAttributes_halts fun _ us => .skip visibility_halts fun _ us => .nextLine ?_
  refine .isAt fun _ => .isAt fun _ => .ahead fun _ => .ite (fun _ => ?struct) fun _ => ?_
  case struct => exact .bind structDef_records fun s us => .pure (.refl _)
  refine .ite (fun _ => ?enum) fun _ => .ite (fun _ => ?trait) fun _ => ?_
  case enum => exact .bind enumDef_records fun e us => .pure (.refl _)
  case trait => exact .bind traitDef_records fun t us => .pure (.refl _)
  exact .bind (otherItem_records _ _) fun body us => .pure (.refl _)

theorem sourceFile_records :
    sourceFile.Records [] (fun file => file.items.flatMap Item.lines) ts := by
  refine .skip innerAttributes_halts fun attributes us => ?_
  refine .bind (.many fun us => .look rfl (.ite (fun _ => .pure (.refl _)) fun _ => ?_))
    fun items us => .pure (.refl _)
  exact .bind item_records fun item us => .pure (.refl _)

end Grammar

/-- The constructs of a file stand in the order of their lines. -/
theorem SourceFile.lines_sorted {source : String} {file : SourceFile}
    (h : SourceFile.ofText source = .ok file) :
    (file.items.flatMap Item.lines).Pairwise (· ≤ ·) := by
  obtain ⟨tokens, ht, hf⟩ := ofText_eq_ok.1 h
  obtain ⟨rest, hr⟩ := ofTokens_eq_ok.1 hf
  obtain ⟨us, hu, hl⟩ := Grammar.sourceFile_records file rest hr
  have hs := tokenize_lines ht
  rw [hu, List.map_append] at hs
  exact (List.pairwise_append.1 hs).1.sublist hl

end Ferrotype
