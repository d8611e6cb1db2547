import Ferrotype.Token.Lexeme

/-!
# Cutting loses nothing

A lexeme and the text behind it make up the text that was cut, and no lexeme is empty. The first
lexeme of a text is cut off in one of a few ways, and `CutOff` has a case for each.
-/

namespace Ferrotype

open Text

/-! ## The ends of comments and literals -/

theorem closeComment_append {depth : Nat} {s body rest : List Char}
    (h : closeComment depth s = some (body, rest)) : body ++ '*' :: '/' :: rest = s := by
  fun_induction closeComment depth s generalizing body rest with
  | case1 => simp at h
  | case2 depth s ih | case4 depth s ih | case5 depth c s _ _ _ ih =>
    obtain ⟨r, hr, hb⟩ := Option.map_eq_some_iff.1 h
    cases hb
    simp [ih hr]
  | case3 => simp_all

theorem closeQuote_append {quote : Char} {s body rest : List Char}
    (h : closeQuote quote s = some (body, rest)) : body ++ rest = s := by
  fun_induction closeQuote quote s generalizing body rest with
  | case1 | case2 => simp at h
  | case3 c s ih | case5 c s _ _ _ ih =>
    obtain ⟨r, hr, hb⟩ := Option.map_eq_some_iff.1 h
    cases hb
    simp [ih hr]
  | case4 s c =>
    simp only [Option.some.injEq, Prod.mk.injEq] at h
    simp [← h.1, ← h.2]

theorem append_drop_of_isPrefixOf {t s : List Char} (h : t.isPrefixOf s = true) :
    t ++ s.drop t.length = s := by
  obtain ⟨u, rfl⟩ := List.isPrefixOf_iff_prefix.1 h
  simp

theorem closeRaw_append {hashes : Nat} {s body rest : List Char}
    (h : closeRaw hashes s = some (body, rest)) : body ++ rest = s := by
  fun_induction closeRaw hashes s generalizing body rest with
  | case1 => simp at h
  | case2 c s hc =>
    have := append_drop_of_isPrefixOf hc.2
    simp only [Option.some.injEq, Prod.mk.injEq] at h
    simpa [← h.1, ← h.2] using this
  | case3 c s _ ih =>
    obtain ⟨r, hr, hb⟩ := Option.map_eq_some_iff.1 h
    cases hb
    simp [ih hr]

/-! ## What a part of the lexer cuts off -/

/-- What a cut promises: a first lexeme that is not empty, and the text behind it. -/
def Cut.Splits (cut : Cut) (s : List Char) : Prop :=
  ∀ l rest, cut = .ok (l, rest) → l.chars ++ rest = s ∧ l.chars ≠ []

theorem splits_ok {l : Lexeme} {s rest : List Char} (h : l.chars ++ rest = s) (hn : l.chars ≠ []) :
    Cut.Splits (.ok (l, rest)) s := by
  intro l' rest' h'
  cases h'
  exact ⟨h, hn⟩

theorem splits_error {fault : LexFault} {s : List Char} : Cut.Splits (.error fault) s :=
  fun _ _ h => nomatch h

theorem splits_lineComment (s : List Char) :
    Cut.Splits (.ok (lineComment s)) ('/' :: '/' :: s) :=
  splits_ok (by simp) (by simp)

theorem splits_blockComment (s : List Char) : (blockComment s).Splits ('/' :: '*' :: s) := by
  unfold blockComment
  split
  · exact splits_error
  · next body rest h => exact splits_ok (by simp [← closeComment_append h]) (by simp)

theorem splits_quotedLiteral (kind : Kind) (opening : List Char) (quote : Char) (s : List Char)
    (ho : opening ≠ []) : (quotedLiteral kind opening quote s).Splits (opening ++ s) := by
  unfold quotedLiteral
  split
  · exact splits_error
  · next body rest h =>
    exact splits_ok (by simp [Lexeme.plain, ← closeQuote_append h]) (by simp [Lexeme.plain, ho])

theorem splits_rawLiteral (kind : Kind) (opening : List Char) (s : List Char)
    (ho : opening ≠ []) : (rawLiteral kind opening s).Splits (opening ++ s) := by
  unfold rawLiteral
  dsimp only
  split
  · next t ht =>
    split
    · exact splits_error
    · next body rest h =>
      refine splits_ok ?_ (by simp [Lexeme.plain, ho])
      have : s.takeWhile (· = '#') ++ s.dropWhile (· = '#') = s := List.takeWhile_append_dropWhile
      rw [ht, ← closeRaw_append h] at this
      simpa [Lexeme.plain] using this
  · exact splits_error

theorem isWordPart_of_isWordStart {c : Char} (h : isWordStart c = true) : isWordPart c = true := by
  simp only [isWordStart, isWordPart, Bool.or_eq_true] at *
  grind

theorem splits_word {c : Char} {s : List Char} (h : isWordPart c = true) :
    Cut.Splits (.ok (word (c :: s))) (c :: s) :=
  splits_ok (List.takeWhile_append_dropWhile) (by simp [Lexeme.plain, h])

theorem splits_rawWord (s : List Char) : Cut.Splits (.ok (rawWord s)) ('r' :: '#' :: s) :=
  splits_ok (by simp) (by simp)

theorem splits_charOrLifetime (s : List Char) : (charOrLifetime s).Splits ('\'' :: s) := by
  unfold charOrLifetime
  split
  · exact splits_quotedLiteral .char ['\''] '\'' _ (by simp)
  · exact splits_quotedLiteral .char ['\''] '\'' _ (by simp)
  · split
    · exact splits_ok (by simp [Lexeme.plain]) (by simp [Lexeme.plain])
    · exact splits_error

theorem takeWhile_append_drop (p : Char → Bool) (s : List Char) :
    s.takeWhile p ++ s.drop (s.takeWhile p).length = s :=
  append_drop_of_isPrefixOf (List.isPrefixOf_iff_prefix.2 (List.takeWhile_prefix p))

theorem drop_takeWhile (p : Char → Bool) (s : List Char) :
    s.drop (s.takeWhile p).length = s.dropWhile p :=
  List.append_cancel_left ((takeWhile_append_drop p s).trans List.takeWhile_append_dropWhile.symm)

theorem fraction_append (s : List Char) : fraction s ++ s.drop (fraction s).length = s := by
  unfold fraction
  split
  · split
    · simp
    · simp [takeWhile_append_drop]
  · simp

theorem exponent_append (s : List Char) : exponent s ++ s.drop (exponent s).length = s := by
  unfold exponent
  repeat' split
  all_goals simp [takeWhile_append_drop]

theorem suffix_append (s : List Char) : suffix s ++ s.drop (suffix s).length = s := by
  unfold suffix
  split
  · exact takeWhile_append_drop _ s
  · simp

theorem splits_radixNumber (letter : Char) (radix : Nat) (s : List Char) :
    (radixNumber letter radix s).Splits ('0' :: letter :: s) := by
  unfold radixNumber
  dsimp only
  split
  · exact splits_error
  · refine splits_ok ?_ (by simp [Lexeme.plain])
    simp only [Lexeme.plain, List.cons_append, List.append_assoc, suffix_append]
    simp [takeWhile_append_drop]

theorem splits_decimalNumber {c : Char} {s : List Char} (h : isDigitPart c = true) :
    Cut.Splits (.ok (decimalNumber (c :: s))) (c :: s) := by
  refine splits_ok ?_ (by simp [Lexeme.plain, h])
  simp only [Lexeme.plain, List.append_assoc, suffix_append, exponent_append,
    fraction_append, takeWhile_append_drop]

theorem splits_number {c : Char} {s : List Char} (h : isDigitPart c = true) :
    (number (c :: s)).Splits (c :: s) := by
  unfold number
  split
  · next letter t heq =>
    cases heq
    split
    · exact splits_radixNumber letter _ t
    · exact splits_decimalNumber h
  · exact splits_decimalNumber h

/-! ## Marks -/

/-- The kinds and texts of marks. -/
inductive MarkOf : Kind → List Char → Prop where
  | punct (p : Punct) : MarkOf (.punct p) p.text.toList
  | opener (d : Delim) : MarkOf (.opener d) [d.openChar]
  | closer (d : Delim) : MarkOf (.closer d) [d.closeChar]

theorem MarkOf.ne_nil {kind : Kind} {chars : List Char} (h : MarkOf kind chars) : chars ≠ [] := by
  cases h with
  | punct p => cases p <;> decide
  | opener d => simp
  | closer d => simp

/-- A mark is one that the text starts with. -/
theorem mark?_eq_some {s chars : List Char} {kind : Kind} (h : mark? s = some (kind, chars)) :
    MarkOf kind chars ∧ chars.isPrefixOf s = true := by
  have head {c : Char} (hc : s.head? = some c) : [c].isPrefixOf s = true := by
    obtain ⟨t, rfl⟩ := List.head?_eq_some_iff.1 hc
    simp
  unfold mark? at h
  split at h
  · next p hp =>
    cases h
    exact ⟨.punct p, by simpa [Punct.ofStart?] using List.find?_some hp⟩
  · split at h
    · next d hd =>
      cases h
      exact ⟨.opener d, head (by simpa using List.find?_some hd)⟩
    · split at h
      · next d hd =>
        cases h
        exact ⟨.closer d, head (by simpa using List.find?_some hd)⟩
      · cases h

theorem mark?_append {s chars : List Char} {kind : Kind} (h : mark? s = some (kind, chars)) :
    chars ++ s.drop chars.length = s :=
  append_drop_of_isPrefixOf (mark?_eq_some h).2

/-! ## The first lexeme -/

/-- The literals that a quote ends: what kind they are, how they open, and the quote. -/
inductive QuoteOpens : Kind → List Char → Char → Prop where
  | byte : QuoteOpens .byte ['b', '\''] '\''
  | byteString : QuoteOpens .byteString ['b', '"'] '"'
  | string : QuoteOpens .string ['"'] '"'

/-- The raw literals: what kind they are, and the letters in front of the number signs. -/
inductive RawOpens : Kind → List Char → Prop where
  | byteString : RawOpens .byteString ['b', 'r']
  | string : RawOpens .string ['r']

/-- Whether a comment, a quoted literal or a name behind `r#` may start here. -/
def opensLexeme (c : Char) (s : List Char) : Bool :=
  match c, s with
  | '/', '/' :: _ | '/', '*' :: _ | 'b', '\'' :: _ | 'b', '"' :: _ | 'b', 'r' :: '"' :: _
  | 'b', 'r' :: '#' :: _ | 'r', '"' :: _ | 'r', '#' :: _ | '"', _ | '\'', _ => true
  | _, _ => false

theorem firstLexeme_blank {c : Char} (hc : isBlank c = true) (s : List Char) :
    firstLexeme c s = .ok (.skipped (c :: s.takeWhile isBlank), s.dropWhile isBlank) := by
  unfold firstLexeme
  rw [if_pos hc]

theorem firstLexeme_of_not_opens {c : Char} {s : List Char} (hb : ¬isBlank c = true)
    (h : opensLexeme c s = false) : firstLexeme c s =
      if isDigit c then number (c :: s)
      else if isWordStart c then .ok (word (c :: s))
      else match mark? (c :: s) with
        | some (kind, chars) => .ok (.plain kind chars, (c :: s).drop chars.length)
        | none => .error (.unknownStart c) := by
  unfold firstLexeme
  rw [if_neg hb]
  unfold opensLexeme at h
  split
  all_goals first | rfl | cases h

theorem firstLexeme_hash {t : List Char} (hq : ∀ t', t ≠ '"' :: t') (hh : ∀ t', t ≠ '#' :: t') :
    firstLexeme 'r' ('#' :: t) =
      if startsWord t then .ok (rawWord t) else .ok (word ('r' :: '#' :: t)) := by
  rw [firstLexeme]
  · rw [if_neg (by decide)]
  all_goals simp_all

/-- The ways to cut a lexeme off a text, with what the text has to be for each. -/
inductive CutOff : List Char → Lexeme → List Char → Prop where
  | blanks {c : Char} {s : List Char} (hc : isBlank c = true) :
    CutOff (c :: s) (.skipped (c :: s.takeWhile isBlank)) (s.dropWhile isBlank)
  | lineComment {s rest : List Char} {l : Lexeme} (h : Ferrotype.lineComment s = (l, rest)) :
    CutOff ('/' :: '/' :: s) l rest
  | blockComment {s rest : List Char} {l : Lexeme} (h : Ferrotype.blockComment s = .ok (l, rest)) :
    CutOff ('/' :: '*' :: s) l rest
  | quoted {kind : Kind} {opening : List Char} {quote : Char} {s rest : List Char} {l : Lexeme}
    (ho : QuoteOpens kind opening quote) (h : quotedLiteral kind opening quote s = .ok (l, rest)) :
    CutOff (opening ++ s) l rest
  | raw {kind : Kind} {opening s rest : List Char} {l : Lexeme} (ho : RawOpens kind opening)
    (h : rawLiteral kind opening s = .ok (l, rest)) : CutOff (opening ++ s) l rest
  | rawWord {s rest : List Char} {l : Lexeme} (hs : startsWord s = true)
    (h : Ferrotype.rawWord s = (l, rest)) : CutOff ('r' :: '#' :: s) l rest
  /-- Behind the letter is a number sign, but nothing that the two open. -/
  | letter {s rest : List Char} {l : Lexeme} (hs : ¬startsWord s = true)
    (hq : ∀ t, s ≠ '"' :: t) (hh : ∀ t, s ≠ '#' :: t)
    (h : Ferrotype.word ('r' :: '#' :: s) = (l, rest)) : CutOff ('r' :: '#' :: s) l rest
  | charOrLifetime {s rest : List Char} {l : Lexeme}
    (h : Ferrotype.charOrLifetime s = .ok (l, rest)) : CutOff ('\'' :: s) l rest
  | number {c : Char} {s rest : List Char} {l : Lexeme} (hc : isDigit c = true)
    (h : Ferrotype.number (c :: s) = .ok (l, rest)) : CutOff (c :: s) l rest
  | word {c : Char} {s rest : List Char} {l : Lexeme} (hc : isWordStart c = true)
    (ho : opensLexeme c s = false) (h : Ferrotype.word (c :: s) = (l, rest)) : CutOff (c :: s) l rest
  | mark {c : Char} {s chars rest : List Char} {kind : Kind} (ho : opensLexeme c s = false)
    (h : mark? (c :: s) = some (kind, chars)) (hs : chars ++ rest = c :: s) :
    CutOff (c :: s) (.plain kind chars) rest

theorem cutOff_of_hash {s rest : List Char} {l : Lexeme}
    (h : firstLexeme 'r' ('#' :: s) = .ok (l, rest)) : CutOff ('r' :: '#' :: s) l rest := by
  by_cases hq : ∃ t, s = '"' :: t
  · obtain ⟨t, rfl⟩ := hq
    exact CutOff.raw .string h
  by_cases hh : ∃ t, s = '#' :: t
  · obtain ⟨t, rfl⟩ := hh
    exact CutOff.raw .string h
  rw [not_exists] at hq hh
  rw [firstLexeme_hash hq hh] at h
  split at h
  · next hs => exact .rawWord hs (Except.ok.inj h)
  · next hs => exact .letter hs hq hh (Except.ok.inj h)

theorem cutOff_of_firstLexeme {c : Char} {s rest : List Char} {l : Lexeme}
    (h : firstLexeme c s = .ok (l, rest)) : CutOff (c :: s) l rest := by
  by_cases hb : isBlank c = true
  · rw [firstLexeme_blank hb] at h
    cases h
    exact .blanks hb
  cases ho : opensLexeme c s with
  | false =>
    rw [firstLexeme_of_not_opens hb ho] at h
    split at h
    · next hc => exact .number hc h
    split at h
    · next hc => exact .word hc ho (Except.ok.inj h)
    split at h
    · next hm =>
      cases h
      exact .mark ho hm (mark?_append hm)
    · cases h
  | true =>
    unfold opensLexeme at ho
    split at ho
    case h_11 => cases ho
    · exact .lineComment (Except.ok.inj h)
    · exact .blockComment h
    · exact CutOff.quoted .byte h
    · exact CutOff.quoted .byteString h
    · exact CutOff.raw .byteString h
    · exact CutOff.raw .byteString h
    · exact CutOff.raw .string h
    · exact cutOff_of_hash h
    · exact CutOff.quoted .string h
    · exact .charOrLifetime h

theorem CutOff.splits {s rest : List Char} {l : Lexeme} (h : CutOff s l rest) :
    l.chars ++ rest = s ∧ l.chars ≠ [] := by
  cases h with
  | blanks => exact ⟨by simp [Lexeme.skipped], by simp [Lexeme.skipped]⟩
  | lineComment h => exact splits_lineComment _ l rest (congrArg Except.ok h)
  | blockComment h => exact splits_blockComment _ l rest h
  | quoted ho h => exact splits_quotedLiteral _ _ _ _ (by cases ho <;> simp) l rest h
  | raw ho h => exact splits_rawLiteral _ _ _ (by cases ho <;> simp) l rest h
  | rawWord _ h => exact splits_rawWord _ l rest (congrArg Except.ok h)
  | letter _ _ _ h => exact splits_word (by decide) l rest (congrArg Except.ok h)
  | charOrLifetime h => exact splits_charOrLifetime _ l rest h
  | number hc h => exact splits_number (by simp [isDigitPart, hc]) l rest h
  | word hc _ h => exact splits_word (isWordPart_of_isWordStart hc) l rest (congrArg Except.ok h)
  | mark _ h hs => exact ⟨hs, (mark?_eq_some h).1.ne_nil⟩

theorem splits_firstLexeme (c : Char) (s : List Char) : (firstLexeme c s).Splits (c :: s) :=
  fun _ _ h => (cutOff_of_firstLexeme h).splits

theorem firstLexeme_chars {c : Char} {s rest : List Char} {l : Lexeme}
    (h : firstLexeme c s = .ok (l, rest)) : ∃ x, l.chars = c :: x ∧ x ++ rest = s := by
  obtain ⟨happ, hne⟩ := splits_firstLexeme c s l rest h
  obtain ⟨d, x, hl⟩ := List.exists_cons_of_ne_nil hne
  rw [hl, List.cons_append] at happ
  obtain ⟨rfl, hx⟩ := List.cons.inj happ
  exact ⟨x, hl, hx⟩

theorem firstLexeme_length {c : Char} {s rest : List Char} {l : Lexeme}
    (h : firstLexeme c s = .ok (l, rest)) : rest.length < (c :: s).length := by
  obtain ⟨x, -, rfl⟩ := firstLexeme_chars h
  rw [List.length_cons, List.length_append]
  omega

end Ferrotype
