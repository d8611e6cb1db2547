import Ferrotype.Proofs.RoundTrip

/-!
# Integer values of variants

A variant whose value is an integer, in any of its spellings, has the number that is spelled if
this is one of 63 bits. A larger one is refused, and so is one that has too many decimal digits.
-/

namespace Ferrotype

open Text

/-! ## Suffixes -/

/-- Suffixes that name a type of integers. There may also be none. -/
def typeSuffixes : List String :=
  ["", "i8", "i16", "i32", "i64", "i128", "isize", "u8", "u16", "u32", "u64", "u128", "usize"]

theorem typeSuffix_word {suffix : String} (h : suffix ∈ typeSuffixes) :
    (∀ c ∈ suffix.toList.head?, c = 'i' ∨ c = 'u') ∧ (∀ c ∈ suffix.toList, isAsciiPart c = true) ∧
      exponent suffix.toList = [] ∧ isFloatSuffix suffix.toList = false := by
  have hw : typeSuffixes.all (fun s => s.toList.head?.all (fun c => c == 'i' || c == 'u') &&
      s.toList.all isAsciiPart && exponent s.toList == [] && !isFloatSuffix s.toList) = true := by
    decide
  have hs := List.all_eq_true.1 hw suffix h
  simp only [Bool.and_eq_true, List.all_eq_true, beq_iff_eq, Bool.not_eq_true'] at hs
  obtain ⟨⟨⟨hh, hp⟩, he⟩, hf⟩ := hs
  refine ⟨fun c hc => ?_, hp, he, hf⟩
  rw [hc] at hh
  simpa using hh

namespace Numeral

/-- A numeral with a suffix is an integer. -/
def withSuffix (n : Numeral) (suffix : String) (h : suffix ∈ typeSuffixes) : IntegerText where
  toNumeral := n
  suffix := suffix.toList
  unmarked := fun _ _ c hc => by
    obtain rfl | rfl := (typeSuffix_word h).1 c hc
    all_goals rfl
  apart := fun c hc => by
    obtain rfl | rfl := (typeSuffix_word h).1 c hc
    all_goals exact ⟨isWordStart_of_ascii rfl, by cases n.radix <;> decide⟩
  word := fun c hc => isWordPart_of_ascii ((typeSuffix_word h).2.1 c hc)

variable {n : Numeral} {suffix : String}

def text (n : Numeral) : String := String.ofList n.chars

theorem text_withSuffix (h : suffix ∈ typeSuffixes) :
    (n.withSuffix suffix h).text = n.text ++ suffix := by
  refine String.toList_injective ?_
  rw [IntegerText.toList_text, String.toList_append, text, String.toList_ofList]
  rfl

theorem not_hidesMark (h : suffix ∈ typeSuffixes) : ¬(n.withSuffix suffix h).HidesMark := by
  rintro ⟨-, -, c, hc, hr⟩
  obtain rfl | rfl := (typeSuffix_word h).1 c hc
  all_goals exact hr rfl

theorem intValue_withSuffix (n : Numeral) (h : suffix ∈ typeSuffixes) :
    intValue (n.text ++ suffix) = n.read := by
  rw [← text_withSuffix h]
  exact IntegerText.intValue_text (not_hidesMark h)

theorem legible_withSuffix (n : Numeral) (h : suffix ∈ typeSuffixes) :
    Word.Legible ⟨.int, n.text ++ suffix, false⟩ := by
  obtain ⟨-, -, he, hf⟩ := typeSuffix_word h
  rw [← text_withSuffix h]
  exact (n.withSuffix suffix h).legible he hf

/-- The digits in which a number is written. -/
def ofNat (k : Nat) : Numeral :=
  plain (Nat.toDigits 10 k) Nat.toDigits_ne_nil
    fun _ => Nat.isDigit_of_mem_toDigits (by decide) (by decide)

theorem value_ofNat (k : Nat) : (ofNat k).value = k := by
  rw [ofNat, value_plain, Nat.ofDigitChars_toDigits (by decide) (by decide)]

theorem text_ofNat (k : Nat) : (ofNat k).text = toString k := by
  refine String.toList_injective ?_
  simp [text, chars, ofNat, plain, Radix.mark]

theorem count_ofNat_le {k e : Nat} (he : 0 < e) (h : k < 10 ^ e) : (ofNat k).count ≤ e :=
  (List.length_filter_le ..).trans (Nat.toDigits_length 10 k e he h)

/-- A number of 63 bits in decimal is read back. It has 19 digits at most. -/
theorem intValue_toString {k : Nat} (hk : k ≤ 2 ^ 63 - 1) : intValue (toString k) = .ok k := by
  have h : intValue ((ofNat k).text ++ "") = _ := (ofNat k).intValue_withSuffix (by decide)
  have hc : (ofNat k).count ≤ 19 := count_ofNat_le (by decide) (by omega)
  have hl : ¬(ofNat k).TooLong := fun hl => by
    have := hl.2
    omega
  rwa [String.append_empty, text_ofNat, read, if_neg hl, value_ofNat] at h

end Numeral

/-! ## An enum of one variant -/

/-- The words of an enum whose only variant has an integer for its value. -/
def discriminantWords (name variant : Name) (text : String) : List Word :=
  [.keyword .enumKw, name.word, .opener .brace, variant.word, .mark .eq, ⟨.int, text, false⟩,
    .closer .brace]

theorem spaced_discriminant (name variant : Name) (text : String) :
    spaced (discriminantWords name variant text) =
      "enum " ++ name.text ++ " \x7b " ++ variant.text ++ " = " ++ text ++ " \x7d" := by
  refine String.toList_injective ?_
  simp [spaced, discriminantWords, Word.keyword, Word.opener, Word.closer, Word.mark,
    AsciiWord.word]
  rfl

/-- The tree of such an enum. -/
def discriminantTree (name variant : Name) (text : String) : Item :=
  ⟨[], .inherited, 1,
    .enumDef ⟨name.text, [⟨variant.text, .unit, some (.literal text .int), [], 1⟩], []⟩⟩

namespace Grammar

theorem item_discriminant (name variant : Name) (text : String) :
    item (layout .start (discriminantWords name variant text)) =
      .ok (discriminantTree name variant text, []) := by
  have hv : Entry 1 Stopped (Word.closer .brace).kind Grammar.variant
      [variant.word, .mark .eq, ⟨.int, text, false⟩]
      ⟨variant.text, .unit, some (.literal text .int), [], 1⟩ :=
    ⟨⟨_, _, rfl, by rintro ⟨⟩⟩,
      fun p rest hp hr => variant_valued variant rfl (fun p => intValue_reads text p hr) hp⟩
  have hi := item_entries name (.cons hv .nil) (p := .start) rfl []
  rwa [List.append_nil] at hi

theorem sourceFile_discriminant (name variant : Name) (text : String) :
    sourceFile (layout .start (discriminantWords name variant text)) =
      .ok (⟨[], [discriminantTree name variant text]⟩, []) := by
  refine sourceFile_items ?_ (.cons (item_discriminant name variant text) ?_ .nil)
  · exact innerAttributes_word (by rintro ⟨⟩) (by rintro ⟨⟩) _ _
  · simp [discriminantWords, layout, Word.tokens, Word.keyword]

end Grammar

theorem ofText_discriminant (name variant : Name) {text : String}
    (h : Word.Legible ⟨.int, text, false⟩) :
    SourceFile.ofText (spaced (discriminantWords name variant text)) =
      .ok ⟨[], [discriminantTree name variant text]⟩ := by
  have hl : ∀ w ∈ discriminantWords name variant text, w.Legible := by
    simp only [discriminantWords, List.forall_mem_cons, List.not_mem_nil, false_implies,
      implies_true, and_true]
    exact ⟨legible_keyword _, name.legible, legible_opener _, variant.legible,
      legible_mark (by decide), h, legible_closer _⟩
  obtain ⟨finish, ht⟩ := tokenize_spaced hl (shebang_spaced _ _)
  exact SourceFile.ofText_eq_ok.2
    ⟨_, ht, SourceFile.ofTokens_eq_ok.2 ⟨[], Grammar.sourceFile_discriminant name variant text⟩⟩

/-! ## Its declaration -/

theorem Extraction.run_return {α β : Type} {x : Extraction α} {result : Except ExtractError α}
    {notices : List Notice} (h : x.run = ⟨result, notices⟩) (f : α → β) :
    (do return f (← x) : Extraction β).run = ⟨result.map f, notices⟩ := by
  cases result with
  | ok a => exact (run_bind_ok h _).trans (Noted.ext rfl (List.append_nil notices))
  | error e => exact run_bind_error h _

/-- The declaration has the value of the variant, or there is none. -/
theorem extractItems_discriminant (name variant : Name) (text : String) :
    (extractItems [] [discriminantTree name variant text]).run =
      ⟨(intDiscriminant text name.text variant.text).map fun value =>
        [(name.text, .enumeration name.text [⟨variant.text, some value, none⟩] none)], []⟩ := by
  have hv : (variantValue ⟨variant.text, .unit, some (.literal text .int), [], 1⟩ name.text).run =
      ⟨(intDiscriminant text name.text variant.text).map some, []⟩ := rfl
  have hm : (extractVariants name.text
      [⟨variant.text, .unit, some (.literal text .int), [], 1⟩]).run = _ :=
    Extraction.run_return hv fun value => [EnumMember.mk variant.text value none]
  have hi : (extractItem (discriminantTree name variant text)).run = _ :=
    Extraction.run_return (Extraction.run_return hm fun members =>
      Declaration.enumeration name.text members none) some
  cases hd : intDiscriminant text name.text variant.text with
  | ok value =>
    rw [hd] at hi
    exact Extraction.run_bind_ok hi _
  | error e =>
    rw [hd] at hi
    exact Extraction.run_bind_error hi _

/--
An enum with a variant whose value is an integer, in any radix, with any underscores and leading
zeros and with any suffix of a type. A number of at most 63 bits is the value of the variant and
written in decimal, a larger one is refused. More than 4300 decimal digits are not read at all.
-/
theorem extract_discriminant (options : ExtractOptions) (name variant : Name) (n : Numeral)
    {suffix : String} (hs : suffix ∈ typeSuffixes) :
    (extract options ("enum " ++ name.text ++ " \x7b " ++ variant.text ++ " = " ++
        (n.text ++ suffix) ++ " \x7d")).run =
      ⟨if n.TooLong then .error (.tooManyDigits n.count)
        else if n.value ≤ 2 ^ 63 - 1 then
          .ok [(name.text,
            .enumeration name.text [⟨variant.text, some (.number n.value), none⟩] none)]
        else .error (.range (n.text ++ suffix) name.text variant.text),
        options.flagsSet.map .reservedOption⟩ ∧
      (EnumValue.number n.value).text = toString n.value ∧
      (n.value ≤ 2 ^ 63 - 1 → intValue (EnumValue.number n.value).text = .ok n.value) := by
  refine ⟨?_, rfl, Numeral.intValue_toString⟩
  have hfile := ofText_discriminant name variant (n.legible_withSuffix hs)
  rw [spaced_discriminant] at hfile
  have hitems := extractItems_discriminant name variant (n.text ++ suffix)
  have hi : intDiscriminant (n.text ++ suffix) name.text variant.text =
      if n.TooLong then .error (.tooManyDigits n.count)
      else if n.value ≤ 2 ^ 63 - 1 then .ok (.number n.value)
      else .error (.range (n.text ++ suffix) name.text variant.text) := by
    rw [intDiscriminant, intValueAt, n.intValue_withSuffix hs, Numeral.read]
    by_cases hl : n.TooLong
    · rw [if_pos hl, if_pos hl]
    · rw [if_neg hl, if_neg hl]
      rfl
  rw [extract, Extraction.run_bind_ok (run_parseSource hfile), run_extractFile options hitems, hi]
  split
  · simp [Except.map]
  · split
    · simp [Except.map]
    · simp [Except.map]

/-- A one behind so many zeros that there are too many digits. -/
def farOne : Numeral :=
  .plain (List.replicate 4300 '0' ++ ['1']) (List.append_ne_nil_of_right_ne_nil _ nofun)
    fun c hc => by
      obtain hc | hc := List.mem_append.1 hc
      · rw [List.eq_of_mem_replicate hc]
        rfl
      · rw [List.mem_singleton.1 hc]
        rfl

/-- Hexadecimal digits of both cases, an underscore at their end, and a suffix; and a far one. -/
theorem extract_discriminant_spellings :
    ("u64" ∈ typeSuffixes ∧
      (extract {} "enum E \x7b A = 0xfF_u64 \x7d").run =
        ⟨.ok [("E", .enumeration "E" [⟨"A", some (.number 255), none⟩] none)], []⟩) ∧
    farOne.value = 1 ∧ farOne.TooLong ∧
      (extract {} ("enum E \x7b A = " ++ (farOne.text ++ "") ++ " \x7d")).run =
        ⟨.error (.tooManyDigits farOne.count), []⟩ := by
  let e : Name := ⟨⟨"E", by decide⟩, by decide, by intro k; cases k <;> decide⟩
  let a : Name := ⟨⟨"A", by decide⟩, by decide, by intro k; cases k <;> decide⟩
  let n : Numeral := {
    radix := .hex
    digits := ['f', 'F', '_']
    counted := List.all_eq_true.1 (by decide)
    filled := ⟨'f', by decide, by decide⟩
    starts := nofun }
  refine ⟨?_, ?_⟩
  · have hs : "u64" ∈ typeSuffixes := by decide
    have h := (extract_discriminant {} e a n hs).1
    have ht : "enum " ++ e.text ++ " \x7b " ++ a.text ++ " = " ++ (n.text ++ "u64") ++ " \x7d" =
        "enum E \x7b A = 0xfF_u64 \x7d" := by decide
    have hl : ¬n.TooLong := fun h => nomatch h.1
    have hv : n.value = 255 := by decide
    rw [ht, if_neg hl, hv] at h
    exact ⟨hs, h⟩
  · have hl : farOne.TooLong := ⟨rfl, by decide +kernel⟩
    have hs : "" ∈ typeSuffixes := by decide
    have h := (extract_discriminant {} e a farOne hs).1
    rw [if_pos hl] at h
    exact ⟨by decide +kernel, hl, h⟩

end Ferrotype
