import Ferrotype.Proofs.Join
import Ferrotype.Proofs.Partition
import Ferrotype.Proofs.Reworded.Items

/-!
# Where errors are

A text that cannot be read is refused with a place in it, or at its end. Only an integer that no
value can be made of is found later, in the tree of the file, which keeps no places of literals.
-/

namespace Ferrotype

/-! ## Places of tokens -/

/-- A place behind some of a text. -/
def Position.IsIn (p : Position) (s : List Char) : Prop :=
  ∃ before, before <+: s ∧ p = placeBehind before

theorem Partition.isIn {before s : List Char} {ts : List Token} (h : Partition before s ts) :
    ∀ t ∈ ts, t.place.IsIn (before ++ s) := by
  induction h with
  | nil => simp
  | blank _ _ ih | lineComment _ _ _ ih | blockComment _ _ ih => simpa using ih
  | @token before lexeme s ts _ _ _ _ _ ih =>
    simp only [List.append_assoc] at ih
    intro t ht
    obtain rfl | ht := List.mem_cons.1 ht
    · exact ⟨before, List.prefix_append _ _, rfl⟩
    · exact ih t ht

theorem tokenize_isIn {source : String} {tokens : Tokens} (h : tokenize source = .ok tokens) :
    (∀ t ∈ tokens.list, t.place.IsIn source.toList) ∧ tokens.finish.IsIn source.toList := by
  obtain ⟨line, text, hs, -, hp, hf⟩ := (tokenize_partition source).1 tokens h
  rw [hs]
  constructor
  · exact hp.isIn
  · rw [hf, ← hs]
    exact ⟨_, List.prefix_refl _, rfl⟩

/-! ## Faults of the grammar -/

/-- Every token is only ever read as itself. -/
theorem rewording_self (ts : List Token) : Rewording (fun t u => t = u ∧ t ∈ ts) Eq where
  kind h := by rw [h.1]
  place h := by rw [h.1]
  text h := by rw [h.1]
  word h _ := by rw [h.1]
  operator h := by rw [h.1]
  empty := rfl

theorem ofTokens_isIn {tokens : Tokens} {s : List Char} {e : SyntaxError}
    (ht : ∀ t ∈ tokens.list, t.place.IsIn s) (hf : tokens.finish.IsIn s)
    (h : SourceFile.ofTokens tokens = .error e) : ∃ p, e.place = some p ∧ p.IsIn s := by
  have hs : List.Forall₂ (fun t u => t = u ∧ t ∈ tokens.list) tokens.list tokens.list :=
    List.forall₂_same.2 fun t ht => ⟨rfl, ht⟩
  obtain ⟨file, _, ho, -⟩ | ⟨f, g, ho, -, hr⟩ := ofTokens_alike (rewording_self _) hs
  · rw [ho] at h
    cases h
  · rw [ho] at h
    cases h
    refine ⟨_, rfl, ?_⟩
    generalize f.token? = t at hr
    generalize g.token? = u at hr
    cases hr with
    | none => exact hf
    | some hd => exact ht _ hd.2

theorem ofText_isIn {source : String} {e : SyntaxError}
    (h : SourceFile.ofText source = .error e) : ∃ p, e.place = some p ∧ p.IsIn source.toList := by
  unfold SourceFile.ofText at h
  cases ht : tokenize source with
  | error e' =>
    obtain ⟨line, text, c, rest, -, fault, hs, -, -, -, rfl⟩ := (tokenize_partition source).2 e' ht
    rw [ht] at h
    cases h
    refine ⟨_, rfl, line ++ text, ?_, rfl⟩
    rw [hs, ← List.append_assoc]
    exact List.prefix_append _ _
  | ok tokens =>
    rw [ht] at h
    exact ofTokens_isIn (tokenize_isIn ht).1 (tokenize_isIn ht).2 h

/-! ## Faults of the extraction -/

variable {α β : Type} {e : SyntaxError}

theorem Extraction.value_bind_error {x : Extraction α} {f : α → Extraction β} {e : ExtractError}
    (h : (x >>= f).run.value = .error e) :
    x.run.value = .error e ∨ ∃ a, x.run.value = .ok a ∧ (f a).run.value = .error e := by
  change (x.run >>= ExceptT.bindCont f).value = _ at h
  rw [Noted.value_bind] at h
  cases hx : x.run.value with
  | error e' =>
    rw [hx] at h
    cases h
    exact .inl rfl
  | ok a =>
    rw [hx] at h
    exact .inr ⟨a, rfl, h⟩

/-- The value of a variant is an integer literal that is no integer. -/
def Variant.Unreadable (v : Variant) (text : String) : Prop :=
  v.discriminant = some (.literal text .int) ∧ intValue text = .error .noDigits

theorem intDiscriminant_error {text declaration variant : String}
    (h : intDiscriminant text declaration variant = .error (.source e)) :
    e = ⟨.integer text, none⟩ ∧ intValue text = .error .noDigits := by
  unfold intDiscriminant intValueAt at h
  cases hn : intValue text with
  | error fault =>
    rw [hn] at h
    cases fault with
    | noDigits =>
      cases h
      exact ⟨rfl, rfl⟩
    | tooManyDigits count => cases h
  | ok n =>
    simp only [hn] at h
    split at h <;> cases h

theorem variantValue_error {v : Variant} {declaration : String}
    (h : (variantValue v declaration).run.value = .error (.source e)) :
    ∃ text, e = ⟨.integer text, none⟩ ∧ v.Unreadable text := by
  unfold variantValue at h
  split at h
  · cases h
  · cases h
  · next text hd =>
    change (intDiscriminant text declaration v.name).map some = _ at h
    cases hi : intDiscriminant text declaration v.name with
    | ok value =>
      rw [hi] at h
      cases h
    | error e' =>
      rw [hi] at h
      cases h
      obtain ⟨he, hn⟩ := intDiscriminant_error hi
      exact ⟨text, he, hd, hn⟩
  · next e' _ _ _ =>
    cases hn : e'.name? with
    | some name =>
      simp only [hn] at h
      cases h
    | none =>
      simp only [hn] at h
      cases h

theorem extractVariants_error {vs : List Variant} {declaration : String}
    (h : (extractVariants declaration vs).run.value = .error (.source e)) :
    ∃ v ∈ vs, ∃ text, e = ⟨.integer text, none⟩ ∧ v.Unreadable text := by
  induction vs with
  | nil => cases h
  | cons v vs ih =>
    obtain h | ⟨value, -, h⟩ := Extraction.value_bind_error h
    · exact ⟨v, by simp, variantValue_error h⟩
    · obtain h | ⟨ms, -, h⟩ := Extraction.value_bind_error h
      · obtain ⟨v', hv, ht⟩ := ih h
        exact ⟨v', List.mem_cons_of_mem v hv, ht⟩
      · cases h

/-- Nothing but an enum is refused. -/
theorem extractItem_error {item : Item}
    (h : (extractItem item).run.value = .error (.source e)) :
    ∃ d v text, item.body = .enumDef d ∧ v ∈ d.variants ∧ e = ⟨.integer text, none⟩ ∧
      v.Unreadable text := by
  unfold extractItem at h
  cases hb : item.body with
  | enumDef d =>
    rw [hb] at h
    obtain h | ⟨_, -, h⟩ := Extraction.value_bind_error h
    · obtain h | ⟨_, -, h⟩ := Extraction.value_bind_error h
      · obtain ⟨v, hv, text, he, ht⟩ := extractVariants_error h
        exact ⟨d, v, text, rfl, hv, he, ht⟩
      · cases h
    · cases h
  | structDef | traitDef | other =>
    rw [hb] at h
    cases h

theorem extractItems_error {schema : Schema} {items : List Item}
    (h : (extractItems schema items).run.value = .error (.source e)) :
    ∃ item ∈ items, ∃ d v text, item.body = .enumDef d ∧ v ∈ d.variants ∧
      e = ⟨.integer text, none⟩ ∧ v.Unreadable text := by
  induction items generalizing schema with
  | nil => cases h
  | cons item items ih =>
    obtain h | ⟨d, -, h⟩ := Extraction.value_bind_error h
    · exact ⟨item, by simp, extractItem_error h⟩
    · have hr : ∃ s, (extractItems s items).run.value = .error (.source e) := by
        cases d with
        | none => exact ⟨_, h⟩
        | some d => exact ⟨_, h⟩
      obtain ⟨s, hs⟩ := hr
      obtain ⟨i, hi, ht⟩ := ih hs
      exact ⟨i, List.mem_cons_of_mem item hi, ht⟩

theorem mem_enums {file : SourceFile} {item : Item} {d : EnumDef} (hi : item ∈ file.items)
    (hb : item.body = .enumDef d) : d ∈ file.enums :=
  List.mem_filterMap.2 ⟨item, hi, by rw [hb]⟩

theorem extract_error {options : ExtractOptions} {source : String}
    (h : (extract options source).run.value = .error (.source e)) :
    SourceFile.ofText source = .error e ∨ ∃ file d v text, SourceFile.ofText source = .ok file ∧
      d ∈ file.enums ∧ v ∈ d.variants ∧ e = ⟨.integer text, none⟩ ∧ v.Unreadable text := by
  obtain h | ⟨file, hf, h⟩ := Extraction.value_bind_error h
  · left
    change (SourceFile.ofText source).mapError ExtractError.source = _ at h
    cases hs : SourceFile.ofText source with
    | ok file =>
      rw [hs] at h
      cases h
    | error e' =>
      rw [hs] at h
      cases h
      rfl
  · right
    change (SourceFile.ofText source).mapError ExtractError.source = _ at hf
    have hs : SourceFile.ofText source = .ok file := by
      cases hs : SourceFile.ofText source <;> rw [hs] at hf <;> cases hf
      rfl
    obtain h | ⟨_, -, h⟩ := Extraction.value_bind_error h
    · cases h
    · obtain ⟨item, hi, d, v, text, hb, hv, he, ht⟩ := extractItems_error h
      exact ⟨file, d, v, text, hs, mem_enums hi hb, hv, he, ht⟩

/-! ## Whole runs -/

/--
A syntax error has a place in the text or behind its last character, unless it is of an integer that
no value can be made of: that error has no place at all.
-/
theorem transpile_located {options : Options} {source : String} {e : SyntaxError}
    (h : (transpile options source).run.value = .error (.source e)) :
    (∃ p, e.place = some p ∧ p.IsIn source.toList) ∨
      ∃ file d v text, SourceFile.ofText source = .ok file ∧ d ∈ file.enums ∧ v ∈ d.variants ∧
        e = ⟨.integer text, none⟩ ∧ v.Unreadable text := by
  obtain h | ⟨_, -, h⟩ := Extraction.value_bind_error h
  · obtain h | h := extract_error h
    · exact .inl (ofText_isIn h)
    · exact .inr h
  · cases h

/-- No digit of the radix stands in the literal, and the error says nothing of its place. -/
theorem transpile_located_integer :
    ∃ e, (transpile {} "enum E \x7b A = 0_b2 \x7d").run.value = .error (.source e) ∧
      e.place = none ∧ ((∃ p, e.place = some p ∧ p.IsIn "enum E \x7b A = 0_b2 \x7d".toList) ∨
        ∃ file d v text, SourceFile.ofText "enum E \x7b A = 0_b2 \x7d" = .ok file ∧
          d ∈ file.enums ∧ v ∈ d.variants ∧ e = ⟨.integer text, none⟩ ∧ v.Unreadable text) := by
  have h : (transpile {} "enum E \x7b A = 0_b2 \x7d").run.value =
      .error (.source ⟨.integer "0_b2", none⟩) := by
    decide +kernel
  exact ⟨_, h, rfl, transpile_located h⟩

end Ferrotype
