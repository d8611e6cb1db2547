import Ferrotype.Proofs.Token.Integer
import Ferrotype.Proofs.Token.Local

/-!
# Integers are cut as they are made

An integer that is cut from a source has parts, and what has parts is cut as an integer.
-/

namespace Ferrotype

open Text

variable {c : Char} {s t rest : List Char} {l : Lexeme}

/-! ## Kinds of lexemes -/

/-- Numbers and marks, which need no quote, no slash and no letter in front of them. -/
def Kind.isBare : Kind → Bool
  | .int | .float | .punct _ | .opener _ | .closer _ => true
  | _ => false

/-- A number starts with a digit and is read as such, and so is a mark. -/
theorem bare_of_firstLexeme {kind : Kind} {text : String} (h : firstLexeme c s = .ok (l, rest))
    (ht : l.token = some (kind, text)) (hk : kind.isBare = true) :
    isDigit c = true ∧ number (c :: s) = .ok (l, rest) ∨
      ∃ chars, mark? (c :: s) = some (kind, chars) ∧ l = .plain kind chars := by
  replace h := cutOff_of_firstLexeme h
  generalize hs : c :: s = source at h ⊢
  cases h with
  | number hc h =>
    cases hs
    exact .inl ⟨hc, h⟩
  | mark _ h _ =>
    cases ht
    exact .inr ⟨_, h, rfl⟩
  -- All other lexemes are of another kind.
  | blanks => cases ht
  | lineComment h =>
    obtain ⟨style, rfl⟩ := lineComment_kind h ht
    cases hk
  | blockComment h =>
    obtain ⟨style, rfl⟩ := blockComment_kind h ht
    cases hk
  | quoted ho h =>
    obtain ⟨chars, rfl⟩ := quotedLiteral_kind h
    cases ht
    cases ho <;> cases hk
  | raw ho h =>
    obtain ⟨chars, rfl⟩ := rawLiteral_kind h
    cases ht
    cases ho <;> cases hk
  | rawWord _ h =>
    cases h
    cases ht
    cases hk
  | charOrLifetime h =>
    obtain ⟨kind, chars, rfl, rfl | rfl⟩ := charOrLifetime_kind h
    all_goals
      cases ht
      cases hk
  | letter _ _ _ h | word _ _ h =>
    obtain ⟨kind, chars, rfl, rfl | rfl | ⟨k, rfl⟩⟩ := word_kind h
    all_goals
      cases ht
      cases hk

/-- An integer starts with a digit and is read as a number. -/
theorem number_of_firstLexeme {text : String} (h : firstLexeme c s = .ok (l, rest))
    (ht : l.token = some (.int, text)) : isDigit c = true ∧ number (c :: s) = .ok (l, rest) := by
  obtain hn | ⟨chars, hm, -⟩ := bare_of_firstLexeme h ht rfl
  · exact hn
  · cases (mark?_eq_some hm).1

/-- A mark is cut off as it is written. -/
theorem mark_of_firstLexeme {p : Punct} {text : String} (h : firstLexeme c s = .ok (l, rest))
    (ht : l.token = some (.punct p, text)) : l = .plain (.punct p) p.text.toList := by
  obtain ⟨-, hn⟩ | ⟨chars, hm, rfl⟩ := bare_of_firstLexeme h ht rfl
  · obtain ⟨kind, chars, rfl, rfl | rfl⟩ := number_kind hn
    all_goals cases ht
  · cases (mark?_eq_some hm).1
    rfl

/-! ## Parts of a lexeme -/

/-- Of a number without a mark, an integer has the digits and the suffix only. -/
theorem decimalNumber_int (h : decimalNumber s = (.plain .int s, [])) : ∃ whole suff,
    s = whole ++ suff ∧ s.takeWhile isDigitPart = whole ∧ suffix suff = suff := by
  obtain ⟨whole, frac, exp, suff, hs, hw, -, -, hu, hl⟩ := decimalNumber_eq.1 h
  have hk : frac = [] ∧ exp = [] := by
    have hk : (if frac ≠ [] ∨ exp ≠ [] ∨ isFloatSuffix suff then Kind.float else .int) = .int :=
      (Prod.mk.inj (Option.some.inj (congrArg Lexeme.token hl))).1.symm
    split at hk
    · cases hk
    · next hn =>
      simp only [not_or, not_not] at hn
      exact ⟨hn.1, hn.2.1⟩
  obtain ⟨rfl, rfl⟩ := hk
  rw [List.append_nil] at hs hu
  exact ⟨whole, suff, hs, hw, hu⟩

theorem startsWord_of_suffix (h : suffix s = s) (hc : s.head? = some c) : isWordStart c = true := by
  have hw : startsWord s = true := by
    by_contra hw
    rw [suffix, if_neg hw] at h
    rw [← h] at hc
    cases hc
  rwa [startsWord, hc] at hw

/-- A character behind a maximal run is not one of the run. -/
theorem head_of_takeWhile {p : Char → Bool} {run : List Char}
    (h : (run ++ s).takeWhile p = run) (hc : s.head? = some c) : p c = false := by
  have hs : (run ++ s).dropWhile p = s := by
    rw [← drop_takeWhile, h, List.drop_left]
  have hd := List.head?_dropWhile_not p (run ++ s)
  rw [hs, hc] at hd
  simpa using hd

theorem Radix.isRunPart_of_ascii (ha : c.toNat < 128) :
    decimal.isRunPart c = isDigitPart c := by
  rw [isRunPart_decimal, isDigitPart, isDigit, inClass, if_pos ha]

namespace IntegerText

/-- The parts of an integer with a mark. -/
def ofRadix (radix : Radix) (hr : radix ≠ .decimal) (digits suff : List Char)
    (hd : (digits ++ suff).takeWhile radix.isRunPart = digits) (hs : Ferrotype.suffix suff = suff)
    (hf : ¬digits.all (· = '_') = true) : IntegerText where
  radix := radix
  digits := digits
  suffix := suff
  counted := fun c hc => List.mem_takeWhile_imp (hd.symm ▸ hc)
  filled := by simpa using hf
  starts := fun h => absurd h hr
  unmarked := fun h => absurd h hr
  apart := fun c hc => ⟨startsWord_of_suffix hs hc, head_of_takeWhile hd hc⟩
  word := fun c hc => isWordPart_of_mem_suffix (hs.symm ▸ hc)

/-- The parts of an integer without a mark. -/
def ofDecimal (run suff : List Char) (hf : ∃ d u, run = d :: u ∧ isDigit d = true)
    (ha : ∀ d ∈ run ++ suff, d.toNat < 128) (hd : (run ++ suff).takeWhile isDigitPart = run)
    (hs : Ferrotype.suffix suff = suff)
    (hn : ∀ letter u, run ++ suff = '0' :: letter :: u → radixOf? letter = none) :
    IntegerText where
  radix := .decimal
  digits := run
  suffix := suff
  counted := fun d hc => by
    rw [Radix.isRunPart_of_ascii (ha d (List.mem_append_left _ hc))]
    exact List.mem_takeWhile_imp (hd.symm ▸ hc)
  filled := by
    obtain ⟨d, u, rfl, hf⟩ := hf
    refine ⟨d, by simp, ?_⟩
    rintro rfl
    cases hf
  starts := fun _ hu => by
    obtain ⟨d, u, rfl, hf⟩ := hf
    obtain rfl := Option.some.inj hu
    cases hf
  unmarked := fun _ hz d hu => by
    obtain ⟨u, rfl⟩ := List.head?_eq_some_iff.1 hu
    exact hn d u (by rw [hz]; rfl)
  apart := fun d hu => by
    refine ⟨startsWord_of_suffix hs hu, ?_⟩
    rw [Radix.isRunPart_of_ascii (ha d (List.mem_append_right _ (List.mem_of_mem_head? hu)))]
    exact head_of_takeWhile hd hu
  word := fun d hu => isWordPart_of_mem_suffix (hs.symm ▸ hu)

/-- An integer that is read from its own text has parts. -/
theorem of_number (hd : isDigit c = true)
    (h : number (c :: t) = .ok (.plain .int (c :: t), [])) (ha : ∀ d ∈ c :: t, d.toNat < 128) :
    ∃ i : IntegerText, i.chars = c :: t := by
  by_cases hr : ∃ letter n u, c :: t = '0' :: letter :: u ∧ radixOf? letter = some n
  · obtain ⟨letter, n, u, hu, hn⟩ := hr
    obtain ⟨radix, hr, hm, rfl⟩ := Radix.of_letter hn
    rw [hu, number] at h
    simp only [hn] at h
    obtain ⟨digits, suff, rfl, hw, hs, hf, -⟩ := radixNumber_eq_ok.1 h
    rw [List.append_nil] at hw hs
    exact ⟨ofRadix radix hr digits suff hw hs hf, by simp [chars, Numeral.chars, ofRadix, hm, hu]⟩
  · have hn : ∀ letter u, c :: t = '0' :: letter :: u → radixOf? letter = none := by
      intro letter u hu
      by_contra hl
      obtain ⟨n, hl⟩ := Option.ne_none_iff_exists'.1 hl
      exact hr ⟨letter, n, u, hu, hl⟩
    rw [number_eq hn] at h
    obtain ⟨run, suff, ht, hw, hs⟩ := decimalNumber_int (Except.ok.inj h)
    have hf : ∃ d u, run = d :: u ∧ isDigit d = true := by
      rw [List.takeWhile_cons_of_pos (by simp [isDigitPart, hd])] at hw
      exact ⟨c, _, hw.symm, hd⟩
    rw [ht] at ha hw hn ⊢
    exact ⟨ofDecimal run suff hf ha hw hs hn, rfl⟩

/-- An integer of ASCII has parts. -/
theorem of_readsAlone (h : ReadsAlone .int s) (ha : ∀ d ∈ s, d.toNat < 128) :
    ∃ i : IntegerText, i.chars = s := by
  obtain ⟨c, t, rfl, -, hf⟩ := h
  obtain ⟨hd, hn⟩ := number_of_firstLexeme hf rfl
  exact of_number hd hn ha

/-! ## Integers as lexemes -/

variable {i : IntegerText}

/-- The suffix of an integer is one for the lexer, too. -/
theorem suffix_suffix (i : IntegerText) : Ferrotype.suffix i.suffix = i.suffix := by
  unfold Ferrotype.suffix
  split
  · exact List.takeWhile_eq_self_iff.2 i.word
  · next hw =>
    cases hs : i.suffix with
    | nil => rfl
    | cons c s =>
      have hc := (i.apart c (by rw [hs]; rfl)).1
      rw [hs, startsWord, List.head?_cons, Option.any_some, hc] at hw
      exact absurd rfl hw

theorem number_chars (i : IntegerText) (he : exponent i.suffix = [])
    (hf : isFloatSuffix i.suffix = false) : number i.chars = .ok (.plain .int i.chars, []) := by
  by_cases hr : i.radix = .decimal
  · have hd : (i.digits ++ i.suffix).takeWhile isDigitPart = i.digits := by
      refine takeWhile_front (fun c hc => ?_) fun c hc => ?_
      · exact Radix.isDigitPart_of_isRunPart (i.counted_decimal hr c hc)
      · simp [isDigitPart, isDigit_of_isWordStart (i.apart c hc).1, i.apart_underscore c hc]
    have hp : fraction i.suffix = [] :=
      fraction_eq_nil fun hc => absurd (i.apart '.' hc).1 (by decide)
    rw [number_eq fun _ _ => unmarked_chars hr, chars_decimal hr]
    exact congrArg Except.ok (decimalNumber_eq.2
      ⟨i.digits, [], [], i.suffix, by simp, hd, by simpa using hp, by simpa using he,
        by simpa using i.suffix_suffix, by simp [hf]⟩)
  · obtain ⟨c, hc, -, hi⟩ := chars_marked hr
    have hn : ¬i.digits.all (· = '_') = true := by simpa using i.filled
    rw [hi, number]
    simp only [hc]
    refine radixNumber_eq_ok.2 ⟨i.digits, i.suffix, by simp, i.takeWhile_digits, ?_, hn, rfl⟩
    rw [List.append_nil]
    exact i.suffix_suffix

theorem chars_cons (i : IntegerText) : ∃ c t, i.chars = c :: t ∧ c.isDigit = true := by
  by_cases hr : i.radix = .decimal
  · obtain ⟨c, t, hd⟩ := List.exists_cons_of_ne_nil i.digits_ne_nil
    have hc := i.counted_decimal hr c (by simp [hd])
    have hu : c ≠ '_' := fun hu => i.starts hr (by rw [hd, hu]; rfl)
    refine ⟨c, t ++ i.suffix, by rw [chars_decimal hr, hd, List.cons_append], ?_⟩
    simpa [Radix.isRunPart_decimal, hu] using hc
  · obtain ⟨c, -, -, hi⟩ := chars_marked hr
    exact ⟨'0', _, hi, rfl⟩

theorem newline_not_mem (i : IntegerText) : '\n' ∉ i.chars := by
  have hm : '\n' ∉ i.radix.mark := by cases i.radix <;> decide
  have hd : '\n' ∉ i.digits := fun h => by
    have hc := i.counted _ h
    revert hc
    cases i.radix <;> decide
  have hs : '\n' ∉ i.suffix := fun h => absurd (i.word _ h) (by decide)
  simp [chars, Numeral.chars, hm, hd, hs]

/-- An integer is a word of its own. -/
theorem legible (i : IntegerText) (he : exponent i.suffix = [])
    (hf : isFloatSuffix i.suffix = false) : Word.Legible ⟨.int, i.text, false⟩ := by
  obtain ⟨c, t, hi, hc⟩ := i.chars_cons
  have ha := isAsciiPart_of_isDigit hc
  refine ⟨rfl, ⟨c, t, i.toList_text.trans hi, isBlank_of_ascii ha, ?_, ?_⟩, ?_⟩
  · rintro rfl
    cases hc
  · have hn := i.number_chars he hf
    rw [hi] at hn
    exact firstLexeme_eq_ok.2 (.number ((isDigit_of_ascii ha).trans hc) hn)
  · rw [i.toList_text]
    exact i.newline_not_mem

end IntegerText

end Ferrotype
