import Ferrotype.Proofs.Text.Ascii
import Ferrotype.Proofs.Text.Classes
import Ferrotype.Proofs.Token.Kinds
import Mathlib.Data.List.TakeWhile

/-!
# Lexemes on their own

The text of a token is a lexeme of the same kind when nothing stands behind it. A lexeme may end
because of what follows it, but never needs that to be what it is.
-/

namespace Ferrotype

open Text

variable {c : Char} {s t u body rest : List Char} {l : Lexeme} {kind : Kind}

/-- The text is cut as one lexeme of a kind. -/
def ReadsAlone (kind : Kind) (chars : List Char) : Prop :=
  ∃ c t, chars = c :: t ∧ isBlank c = false ∧ firstLexeme c t = .ok (.plain kind chars, [])

/-! ## Literals -/

theorem closeQuote_cons {quote : Char} (hc : c ≠ '\\') :
    closeQuote quote (c :: s) =
      if c = quote then some ([c], s) else (closeQuote quote s).map fun r => (c :: r.1, r.2) := by
  rw [closeQuote]
  · exact fun h _ => hc h
  · exact fun _ _ h _ => hc h

/-- A character that is read on its own is no backslash. -/
theorem not_backslash (hone : c = '\\' → s = [] → False)
    (hmore : ∀ d t, c = '\\' → s = d :: t → False) : c ≠ '\\' := by
  intro hc
  cases s with
  | nil => exact hone hc rfl
  | cons d s => exact hmore d s hc rfl

theorem closeQuote_alone {quote : Char} (h : closeQuote quote s = some (body, rest)) :
    closeQuote quote body = some (body, []) := by
  fun_induction closeQuote quote s generalizing body rest with
  | case1 | case2 => simp at h
  | case3 c s ih =>
    obtain ⟨r, hr, hb⟩ := Option.map_eq_some_iff.1 h
    cases hb
    simp [closeQuote, ih hr]
  | case4 s hone hmore =>
    cases h
    have hq : quote ≠ '\\' := not_backslash hone hmore
    simp [closeQuote, hq]
  | case5 c s hone hmore hq ih =>
    obtain ⟨r, hr, hb⟩ := Option.map_eq_some_iff.1 h
    cases hb
    rw [closeQuote_cons (not_backslash hone hmore), if_neg hq, ih hr]
    rfl

theorem closeRaw_alone {hashes : Nat} (h : closeRaw hashes s = some (body, rest)) :
    closeRaw hashes body = some (body, []) := by
  fun_induction closeRaw hashes s generalizing body rest with
  | case1 => simp at h
  | case2 c s hc =>
    cases h
    simp [closeRaw, hc.1]
  | case3 c s hc ih =>
    obtain ⟨r, hr, hb⟩ := Option.map_eq_some_iff.1 h
    cases hb
    have hn : ¬(c = '"' ∧ (List.replicate hashes '#').isPrefixOf r.1 = true) := by
      refine fun hp => hc ⟨hp.1, ?_⟩
      rw [← closeRaw_append hr]
      exact List.isPrefixOf_iff_prefix.2 ((List.isPrefixOf_iff_prefix.1 hp.2).trans
        (List.prefix_append _ _))
    rw [closeRaw, if_neg hn, ih hr]
    rfl

theorem quotedLiteral_alone {opening : List Char} {quote : Char}
    (h : quotedLiteral kind opening quote s = .ok (l, rest)) :
    ∃ d t, l = .plain kind (opening ++ d :: t) ∧ s.head? = some d ∧
      quotedLiteral kind opening quote (d :: t) = .ok (l, []) := by
  unfold quotedLiteral at h
  split at h
  · cases h
  · next body _ hb =>
    cases h
    have ha := closeQuote_alone hb
    cases body with
    | nil => cases ha
    | cons d t =>
      refine ⟨d, t, rfl, by simp [← closeQuote_append hb], ?_⟩
      rw [quotedLiteral, ha]

theorem takeWhile_hash (s : List Char) :
    s.takeWhile (· = '#') = List.replicate (s.takeWhile (· = '#')).length '#' :=
  List.eq_replicate_of_mem fun c hc => by simpa using List.mem_takeWhile_imp hc

theorem takeWhile_hashes (n : Nat) (t : List Char) :
    (List.replicate n '#' ++ '"' :: t).takeWhile (· = '#') = List.replicate n '#' := by
  rw [List.takeWhile_append_of_pos (by simp)]
  simp

theorem rawLiteral_alone {opening : List Char} (h : rawLiteral kind opening s = .ok (l, rest)) :
    ∃ n body, l = .plain kind (opening ++ (List.replicate n '#' ++ '"' :: body)) ∧
      rawLiteral kind opening (List.replicate n '#' ++ '"' :: body) = .ok (l, []) := by
  have hs := takeWhile_hash s
  unfold rawLiteral at h
  dsimp only at h
  split at h
  · split at h
    · cases h
    · next body _ hb =>
      cases h
      refine ⟨(s.takeWhile (· = '#')).length, body, by rw [← hs, List.append_assoc], ?_⟩
      have hd : (List.replicate (s.takeWhile (· = '#')).length '#' ++ '"' :: body).dropWhile
          (· = '#') = '"' :: body := by
        rw [List.dropWhile_append_of_pos (by simp)]
        simp
      rw [rawLiteral, takeWhile_hashes, hd]
      simp only [closeRaw_alone hb, ← hs]
  · cases h

/-! ## Words -/

theorem word_alone (h : ∀ d ∈ s, isWordPart d = true) :
    word s = (.plain (wordKind s) s, []) := by
  rw [word, List.takeWhile_eq_self_iff.2 h, List.dropWhile_eq_nil_iff.2 h]

/-- No word starts with a digit. -/
theorem isDigit_of_isWordStart (h : isWordStart c = true) : isDigit c = false := by
  by_cases hc : c.toNat < 128
  · simp only [isWordStart, isLetter, inClass, if_pos hc] at h
    simpa only [isDigit, inClass, if_pos hc] using isDigit_of_start h
  · have hu : (c == '_') = false := by
      rw [beq_eq_false_iff_ne]
      rintro rfl
      exact hc (by decide)
    simp only [isWordStart, isLetter, inClass, if_neg hc, hu, Bool.or_false] at h
    simp only [isDigit, inClass, if_neg hc]
    exact inRanges_disjoint (by decide +kernel) h

theorem opensLexeme_of_word (hc : isWordStart c = true) (ht : ∀ d ∈ t, isWordPart d = true) :
    opensLexeme c t = false := by
  have hq : '"' ∉ t ∧ '\'' ∉ t ∧ '#' ∉ t :=
    ⟨fun h => absurd (ht _ h) (by decide), fun h => absurd (ht _ h) (by decide),
      fun h => absurd (ht _ h) (by decide)⟩
  unfold opensLexeme
  split
  any_goals rfl
  all_goals first | exact absurd hc (by decide) | simp at hq

theorem charOrLifetime_quoted (h : (∃ t, s = '\\' :: t) ∨ ∃ d t, s = d :: '\'' :: t) :
    charOrLifetime s = quotedLiteral .char ['\''] '\'' s := by
  obtain ⟨t, rfl⟩ | ⟨d, t, rfl⟩ := h
  · rfl
  · unfold charOrLifetime
    split
    · rfl
    · rfl
    · next hd => exact absurd rfl (hd d t)

theorem takeWhile_of_startsWord (h : startsWord s = true) :
    ∃ c t, isWordStart c = true ∧ s.takeWhile isWordPart = c :: t ∧
      ∀ d ∈ t, isWordPart d = true := by
  cases s with
  | nil => cases h
  | cons c s =>
    have hc : isWordStart c = true := h
    exact ⟨c, s.takeWhile isWordPart, hc, List.takeWhile_cons_of_pos (isWordPart_of_isWordStart hc),
      fun d hd => List.mem_takeWhile_imp hd⟩

theorem charOrLifetime_word (hc : isWordStart c = true) (ht : ∀ d ∈ t, isWordPart d = true) :
    charOrLifetime (c :: t) = .ok (.plain .lifetime ('\'' :: c :: t), []) := by
  have hw : ∀ d ∈ c :: t, isWordPart d = true :=
    List.forall_mem_cons.2 ⟨isWordPart_of_isWordStart hc, ht⟩
  unfold charOrLifetime
  split
  · next h =>
    cases h
    exact absurd hc (by decide)
  · next h =>
    cases h
    exact absurd (ht '\'' (by simp)) (by decide)
  · have hs : startsWord (c :: t) = true := hc
    rw [if_pos hs, List.takeWhile_eq_self_iff.2 hw, List.dropWhile_eq_nil_iff.2 hw]

/-- A character literal that has more than its quotes, or a lifetime. -/
theorem charOrLifetime_alone (h : charOrLifetime s = .ok (l, rest))
    (hq : l ≠ .plain .char ['\'', '\'']) :
    ∃ kind t, l = .plain kind ('\'' :: t) ∧ charOrLifetime t = .ok (l, []) := by
  unfold charOrLifetime at h
  split at h
  · obtain ⟨d, t, rfl, hd, hb⟩ := quotedLiteral_alone h
    cases hd
    exact ⟨.char, _, rfl, (charOrLifetime_quoted (.inl ⟨t, rfl⟩)).trans hb⟩
  · next d t hd =>
    have hn : d ≠ '\\' := hd
    rw [quotedLiteral, closeQuote_cons hn] at h
    by_cases hd' : d = '\''
    · rw [if_pos hd', hd'] at h
      cases h
      exact absurd rfl hq
    · rw [if_neg hd', closeQuote_cons (by decide), if_pos rfl] at h
      cases h
      refine ⟨.char, [d, '\''], rfl, ?_⟩
      rw [charOrLifetime_quoted (.inr ⟨d, [], rfl⟩), quotedLiteral, closeQuote_cons hn, if_neg hd',
        closeQuote_cons (by decide), if_pos rfl]
      rfl
  · split at h
    · next hw =>
      cases h
      refine ⟨.lifetime, _, rfl, ?_⟩
      obtain ⟨c, t, hc, ht, hp⟩ := takeWhile_of_startsWord hw
      rw [ht]
      exact charOrLifetime_word hc hp
    · cases h

/-! ## Numbers -/

/-- What is taken from a text is taken from the start of it, too. -/
theorem takeWhile_of_initial {p : Char → Bool} (h : u <+: s.drop (s.takeWhile p).length) :
    (s.takeWhile p ++ u).takeWhile p = s.takeWhile p := by
  rw [List.takeWhile_append_of_pos fun c hc => List.mem_takeWhile_imp hc]
  cases u with
  | nil => simp
  | cons c u =>
    have hc := List.head?_dropWhile_not p s
    rw [drop_takeWhile] at h
    obtain ⟨v, hv⟩ := h
    rw [← hv] at hc
    simp only [List.cons_append, List.head?_cons] at hc
    simp [hc]

theorem prefix_takeWhile {p : Char → Bool} (h : u <+: s.drop (s.takeWhile p).length) :
    s.takeWhile p ++ u <+: s := by
  obtain ⟨v, hv⟩ := h
  exact ⟨v, by rw [List.append_assoc, hv, takeWhile_append_drop]⟩

theorem head?_of_initial (h : u <+: s) (hc : u.head? = some c) : s.head? = some c := by
  obtain ⟨v, rfl⟩ := h
  simp [List.head?_append, hc]

theorem exponent_prefix_self (s : List Char) : exponent s <+: s := ⟨_, exponent_append s⟩

theorem suffix_prefix_self (s : List Char) : suffix s <+: s := ⟨_, suffix_append s⟩

theorem fraction_eq_nil (h : s.head? ≠ some '.') : fraction s = [] := by
  unfold fraction
  split
  · simp at h
  · rfl

theorem startsWord_of_initial (h : u <+: s) (hw : startsWord u = true) : startsWord s = true := by
  obtain ⟨v, rfl⟩ := h
  cases u with
  | nil => cases hw
  | cons => exact hw

theorem fraction_of_initial (h : u <+: s.drop (fraction s).length) (hd : u.head? ≠ some '.') :
    fraction (fraction s ++ u) = fraction s := by
  by_cases hs : s.head? = some '.'
  · obtain ⟨t, rfl⟩ := List.head?_eq_some_iff.1 hs
    by_cases hc : t.head? = some '.' ∨ startsWord t = true
    · have hf : fraction ('.' :: t) = [] := if_pos hc
      rw [hf, List.nil_append, fraction_eq_nil hd]
    · have hf : fraction ('.' :: t) = '.' :: t.takeWhile isDigitPart := if_neg hc
      rw [hf] at h ⊢
      have hp := prefix_takeWhile (p := isDigitPart) h
      have hn : ¬((t.takeWhile isDigitPart ++ u).head? = some '.' ∨
          startsWord (t.takeWhile isDigitPart ++ u) = true) :=
        fun h => hc (h.imp (head?_of_initial hp) (startsWord_of_initial hp))
      rw [List.cons_append, fraction, if_neg hn, takeWhile_of_initial h]
  · rw [fraction_eq_nil hs, List.nil_append, fraction_eq_nil hd]

theorem exponent_eq_nil (h : exponent s = []) (hp : u <+: s)
    (hw : ∀ c ∈ u, isWordPart c = true) : exponent u = [] := by
  match u with
  | [] => rfl
  | [e] => simp [exponent]
  | e :: d :: u =>
    obtain ⟨v, rfl⟩ := hp
    have hd : ¬(d = '+' ∨ d = '-') := by
      rintro (rfl | rfl)
      · exact absurd (hw '+' (by simp)) (by decide)
      · exact absurd (hw '-' (by simp)) (by decide)
    simp only [exponent, List.cons_append, hd, false_and, if_false] at h ⊢
    split
    · next he =>
      rw [if_pos he] at h
      split
      · next hp =>
        rw [if_pos hp] at h
        cases h
      · rfl
    · rfl

theorem exponent_of_initial (h : u <+: s.drop (exponent s).length)
    (hw : ∀ c ∈ u, isWordPart c = true) : exponent (exponent s ++ u) = exponent s := by
  by_cases hn : exponent s = []
  · rw [hn] at h ⊢
    exact exponent_eq_nil hn h hw
  match s with
  | [] => exact absurd rfl hn
  | [e] => simp [exponent] at hn
  | e :: d :: t =>
    by_cases he : e = 'e' ∨ e = 'E'
    · by_cases hd : isDigitPart d = true
      · have hx : exponent (e :: d :: t) = e :: (d :: t).takeWhile isDigitPart := by
          simp only [exponent, if_pos he, if_pos hd]
        rw [hx] at h ⊢
        have ht := takeWhile_of_initial (p := isDigitPart) (s := d :: t) h
        rw [List.takeWhile_cons_of_pos hd, List.cons_append] at ht
        rw [List.takeWhile_cons_of_pos hd, List.cons_append, List.cons_append, exponent, if_pos he]
        simp only [if_pos hd, ht]
      · by_cases hs : (d = '+' ∨ d = '-') ∧ t.head?.any isDigit = true
        · have hx : exponent (e :: d :: t) = e :: d :: t.takeWhile isDigitPart := by
            simp only [exponent, if_pos he, if_neg hd, if_pos hs]
          rw [hx] at h ⊢
          have hp := takeWhile_of_initial (p := isDigitPart) (s := t) h
          have hs' : (t.takeWhile isDigitPart ++ u).head?.any isDigit = true := by
            cases t with
            | nil => cases hs.2
            | cons x t =>
              have hx : isDigit x = true := hs.2
              simp [isDigitPart, hx]
          simp only [List.cons_append, exponent, if_pos he, if_neg hd, if_pos (And.intro hs.1 hs'), hp]
        · simp [exponent, he, hd, hs] at hn
    · simp [exponent, he] at hn

theorem suffix_alone (s : List Char) : suffix (suffix s) = suffix s := by
  unfold suffix
  split
  · next h =>
    obtain ⟨c, t, hc, ht, hp⟩ := takeWhile_of_startsWord h
    have hs : startsWord (s.takeWhile isWordPart) = true := by
      rw [ht]
      exact hc
    rw [if_pos hs, List.takeWhile_idem]
  · rfl

theorem head?_suffix (s : List Char) : (suffix s).head? ≠ some '.' := by
  unfold suffix
  split
  · next h =>
    obtain ⟨c, t, hc, ht, -⟩ := takeWhile_of_startsWord h
    rw [ht]
    rintro ⟨⟩
    exact absurd hc (by decide)
  · simp

theorem isWordPart_of_mem_suffix (h : c ∈ suffix s) : isWordPart c = true := by
  unfold suffix at h
  split at h
  · exact List.mem_takeWhile_imp h
  · cases h

theorem head?_exponent (s t : List Char) (ht : t.head? ≠ some '.') :
    (exponent s ++ t).head? ≠ some '.' := by
  cases hx : exponent s with
  | nil => exact ht
  | cons e u =>
    have he : e = 'e' ∨ e = 'E' := by
      by_contra he
      obtain ⟨v, hv⟩ := exponent_prefix_self s
      rw [hx, List.cons_append] at hv
      simp [← hv, exponent, he] at hx
    rcases he with rfl | rfl <;> simp

/-- A decimal number is read again without what stood behind it. -/
theorem decimalNumber_alone (s : List Char) :
    decimalNumber (decimalNumber s).1.chars = ((decimalNumber s).1, []) := by
  let whole := s.takeWhile isDigitPart
  let s₁ := s.drop whole.length
  let frac := fraction s₁
  let s₂ := s₁.drop frac.length
  let exp := exponent s₂
  let s₃ := s₂.drop exp.length
  let suff := suffix s₃
  have hexp : exp ++ suff <+: s₂ := by
    have := (List.prefix_append_right_inj exp).2 (suffix_prefix_self s₃)
    rwa [exponent_append] at this
  have hfrac : frac ++ (exp ++ suff) <+: s₁ := by
    have := (List.prefix_append_right_inj frac).2 hexp
    rwa [fraction_append] at this
  have h₀ : (whole ++ (frac ++ (exp ++ suff))).takeWhile isDigitPart = whole :=
    takeWhile_of_initial hfrac
  have h₁ : fraction (frac ++ (exp ++ suff)) = frac :=
    fraction_of_initial hexp (head?_exponent s₂ _ (head?_suffix s₃))
  have h₂ : exponent (exp ++ suff) = exp :=
    exponent_of_initial (suffix_prefix_self s₃) fun c hc => isWordPart_of_mem_suffix hc
  have h₃ : suffix suff = suff := suffix_alone s₃
  change decimalNumber (whole ++ (frac ++ (exp ++ suff))) = _
  unfold decimalNumber
  simp only [h₀, List.drop_left, h₁, h₂, h₃, List.drop_length]
  rfl

theorem decimalNumber_prefix_self (s : List Char) : (decimalNumber s).1.chars <+: s :=
  ⟨(decimalNumber s).2, by simp only [decimalNumber, Lexeme.plain, List.append_assoc, suffix_append,
    exponent_append, fraction_append, takeWhile_append_drop]⟩

theorem radixNumber_alone {letter : Char} {radix : Nat}
    (h : radixNumber letter radix s = .ok (l, rest)) :
    ∃ t, l = .plain .int ('0' :: letter :: t) ∧ radixNumber letter radix t = .ok (l, []) := by
  unfold radixNumber at h
  dsimp only at h
  split at h
  · cases h
  · next hd =>
    cases h
    refine ⟨_, rfl, ?_⟩
    have ht := takeWhile_of_initial (p := fun c => isDigitOf radix c || c == '_')
      (suffix_prefix_self (s.drop (s.takeWhile fun c => isDigitOf radix c || c == '_').length))
    unfold radixNumber
    simp only [ht, List.drop_left, suffix_alone, List.drop_length, if_neg hd]

theorem number_eq (h : ∀ letter t, s = '0' :: letter :: t → radixOf? letter = none) :
    number s = .ok (decimalNumber s) := by
  unfold number
  split
  · next letter t => rw [h letter t rfl]
  · rfl

/-- A number is read again without what stood behind it. -/
theorem number_alone (h : number s = .ok (l, rest)) :
    ∃ kind, l = .plain kind l.chars ∧ number l.chars = .ok (l, []) := by
  by_cases hr : ∃ letter radix t, s = '0' :: letter :: t ∧ radixOf? letter = some radix
  · obtain ⟨letter, radix, t, rfl, hr⟩ := hr
    simp only [number, hr] at h
    obtain ⟨t, rfl, ht⟩ := radixNumber_alone h
    refine ⟨.int, rfl, ?_⟩
    simp only [Lexeme.plain, number, hr]
    exact ht
  · have hn : ∀ letter t, s = '0' :: letter :: t → radixOf? letter = none := fun letter t hs => by
      cases hl : radixOf? letter with
      | none => rfl
      | some radix => exact absurd ⟨letter, radix, t, hs, hl⟩ hr
    rw [number_eq hn] at h
    obtain rfl : (decimalNumber s).1 = l := congrArg Prod.fst (Except.ok.inj h)
    refine ⟨_, rfl, ?_⟩
    rw [number_eq fun letter t ht => ?_, decimalNumber_alone]
    obtain ⟨v, hv⟩ := decimalNumber_prefix_self s
    exact hn letter (t ++ v) (by rw [← hv, ht]; rfl)

/-! ## Marks -/

theorem mark?_text (p : Punct) : mark? p.text.toList = some (.punct p, p.text.toList) := by
  cases p <;> rfl

theorem MarkOf.mark? {chars : List Char} (h : MarkOf kind chars) :
    mark? chars = some (kind, chars) := by
  cases h with
  | punct p => exact mark?_text p
  | opener d | closer d => cases d <;> rfl

/-- No mark starts as a blank, a number or a word does. -/
theorem MarkOf.head {chars : List Char} (h : MarkOf kind chars) (hc : chars.head? = some c) :
    isBlank c = false ∧ isDigit c = false ∧ isWordStart c = false := by
  have hall : chars.head?.all (fun c => !isBlank c && !isDigit c && !isWordStart c) = true := by
    cases h with
    | punct p => cases p <;> decide
    | opener d | closer d => cases d <;> decide
  simpa [hc, and_assoc] using hall

/-! ## The first lexeme -/

theorem opensLexeme_of_initial (hp : t <+: s) (h : opensLexeme c s = false) :
    opensLexeme c t = false := by
  obtain ⟨v, rfl⟩ := hp
  unfold opensLexeme at h ⊢
  split at h
  any_goals cases h
  split
  any_goals rfl
  all_goals simp_all

theorem firstLexeme_raw (n : Nat) (t : List Char) :
    firstLexeme 'r' (List.replicate n '#' ++ '"' :: t) =
      rawLiteral .string ['r'] (List.replicate n '#' ++ '"' :: t) ∧
    firstLexeme 'b' ('r' :: (List.replicate n '#' ++ '"' :: t)) =
      rawLiteral .byteString ['b', 'r'] (List.replicate n '#' ++ '"' :: t) := by
  match n with
  | 0 | 1 | n + 2 => exact ⟨rfl, rfl⟩

theorem RawOpens.firstLexeme {opening : List Char} (h : RawOpens kind opening) (n : Nat)
    (t : List Char) :
    ∃ c s, opening ++ (List.replicate n '#' ++ '"' :: t) = c :: s ∧
      Ferrotype.firstLexeme c s = rawLiteral kind opening (List.replicate n '#' ++ '"' :: t) := by
  cases h with
  | byteString => exact ⟨'b', _, rfl, (firstLexeme_raw n t).2⟩
  | string => exact ⟨'r', _, rfl, (firstLexeme_raw n t).1⟩

theorem rawLiteral_starts {opening : List Char} (h : rawLiteral kind opening s = .ok (l, rest)) :
    ∃ n t, s = List.replicate n '#' ++ '"' :: t := by
  have happ : s.takeWhile (· = '#') ++ s.dropWhile (· = '#') = s := List.takeWhile_append_dropWhile
  unfold rawLiteral at h
  dsimp only at h
  split at h
  · next t ht =>
    rw [ht, takeWhile_hash] at happ
    exact ⟨_, t, happ.symm⟩
  · cases h

theorem opensLexeme_of_digit (hc : isDigit c = true) : opensLexeme c s = false := by
  unfold opensLexeme
  split
  any_goals rfl
  all_goals exact absurd hc (by decide)

theorem not_isBlank_of_digit (hc : isDigit c = true) : ¬isBlank c = true := fun hb => by
  rw [isDigit_of_isBlank hb] at hc
  cases hc

theorem not_isBlank_of_start (hc : isWordStart c = true) : ¬isBlank c = true := fun hb => by
  rw [isWordStart_of_isBlank hb] at hc
  cases hc

theorem head_of_startsWord (hs : startsWord s = true) (hc : isWordStart c = false) (t : List Char) :
    s ≠ c :: t := by
  rintro rfl
  rw [startsWord, List.head?_cons, Option.any_some, hc] at hs
  cases hs

/-- A lexeme is the first one of a text just if it can be cut off in one of the ways. -/
theorem firstLexeme_eq_ok : firstLexeme c s = .ok (l, rest) ↔ CutOff (c :: s) l rest := by
  refine ⟨cutOff_of_firstLexeme, fun h => ?_⟩
  generalize hs : c :: s = text at h
  cases h with
  | blanks hc =>
    cases hs
    exact firstLexeme_blank hc _
  | lineComment h =>
    cases hs
    exact congrArg Except.ok h
  | blockComment h =>
    cases hs
    exact h
  | quoted ho h =>
    cases ho
    all_goals
      cases hs
      exact h
  | raw ho h =>
    obtain ⟨n, t, rfl⟩ := rawLiteral_starts h
    obtain ⟨d, u, hd, hf⟩ := ho.firstLexeme n t
    cases hs.trans hd
    rw [hf, h]
  | rawWord hw h =>
    cases hs
    rw [firstLexeme_hash (head_of_startsWord hw (by decide)) (head_of_startsWord hw (by decide)),
      if_pos hw, h]
  | letter hw hq hh h =>
    cases hs
    rw [firstLexeme_hash hq hh, if_neg hw, h]
  | charOrLifetime h =>
    cases hs
    exact h
  | number hc h =>
    cases hs
    rw [firstLexeme_of_not_opens (not_isBlank_of_digit hc) (opensLexeme_of_digit hc), if_pos hc, h]
  | word hc ho h =>
    cases hs
    rw [firstLexeme_of_not_opens (not_isBlank_of_start hc) ho, isDigit_of_isWordStart hc,
      if_neg Bool.false_ne_true, if_pos hc, h]
  | mark ho h happ =>
    cases hs
    obtain ⟨d, t, rfl⟩ := List.exists_cons_of_ne_nil (mark?_eq_some h).1.ne_nil
    obtain ⟨rfl, rfl⟩ := List.cons.inj happ
    obtain ⟨hb, hd, hw⟩ := (mark?_eq_some h).1.head rfl
    rw [firstLexeme_of_not_opens (by simp [hb]) ho, hd, hw, if_neg Bool.false_ne_true,
      if_neg Bool.false_ne_true, h]
    simp

theorem readsAlone_iff {chars : List Char} :
    ReadsAlone kind chars ↔ CutOff chars (.plain kind chars) [] := by
  constructor
  · rintro ⟨c, t, rfl, -, h⟩
    exact cutOff_of_firstLexeme h
  · intro h
    obtain ⟨c, t, rfl⟩ := List.exists_cons_of_ne_nil h.splits.2
    refine ⟨c, t, rfl, ?_, firstLexeme_eq_ok.2 h⟩
    by_contra hb
    have hf := firstLexeme_eq_ok.2 h
    rw [firstLexeme_blank (by simpa using hb)] at hf
    cases congrArg Lexeme.token (Prod.mk.inj (Except.ok.inj hf)).1

/-- A word is a lexeme of its own kind. -/
theorem readsAlone_word (hc : isWordStart c = true) (ht : ∀ d ∈ t, isWordPart d = true) :
    ReadsAlone (wordKind (c :: t)) (c :: t) := by
  have hw : ∀ d ∈ c :: t, isWordPart d = true :=
    List.forall_mem_cons.2 ⟨isWordPart_of_isWordStart hc, ht⟩
  exact readsAlone_iff.2 (.word hc (opensLexeme_of_word hc ht) (word_alone hw))

/-- A token that is no doc comment, no name that only `r#` lets be one, and not `'''`. -/
structure Token.Plain (t : Token) : Prop where
  text : ∀ style, t.kind ≠ .doc style
  name : t.kind = .identifier → t.text ≠ "_" ∧ ∀ k : Keyword, t.text ≠ k.text
  char : t.kind = .char → t.text ≠ "''"

theorem wordKind_identifier {text : String} (hu : text ≠ "_") (hk : ∀ k : Keyword, text ≠ k.text) :
    wordKind text.toList = .identifier := by
  have hu : text.toList ≠ ['_'] := fun h => hu (String.toList_injective h)
  rw [wordKind, if_neg hu, String.ofList_toList]
  cases ho : Keyword.ofText? text with
  | none => rfl
  | some k => exact absurd (Keyword.text_eq_of_ofText? ho).symm (hk k)

section

variable {tk : Token}

theorem readsAlone_plain {chars : List Char} (ht : l.token = some (tk.kind, tk.text))
    (hl : l = .plain kind chars) (h : ReadsAlone kind chars) :
    ReadsAlone tk.kind tk.text.toList := by
  obtain ⟨rfl, hv⟩ : kind = tk.kind ∧ String.ofList chars = tk.text := by
    simpa [hl, Lexeme.plain] using ht
  rwa [← hv, String.toList_ofList]

/-- What is cut off as a token is read as the token alone. -/
theorem CutOff.readsAlone (h : CutOff s l rest) (ht : l.token = some (tk.kind, tk.text))
    (hp : tk.Plain) : ReadsAlone tk.kind tk.text.toList := by
  have happ := h.splits
  cases h with
  | blanks => cases ht
  | lineComment h =>
    obtain ⟨style, hk⟩ := lineComment_kind h ht
    exact absurd hk (hp.text style)
  | blockComment h =>
    obtain ⟨style, hk⟩ := blockComment_kind h ht
    exact absurd hk (hp.text style)
  | quoted ho h =>
    obtain ⟨d, t, rfl, -, hr⟩ := quotedLiteral_alone h
    exact readsAlone_plain ht rfl (readsAlone_iff.2 (.quoted ho hr))
  | raw ho h =>
    obtain ⟨n, body, rfl, hr⟩ := rawLiteral_alone h
    exact readsAlone_plain ht rfl (readsAlone_iff.2 (.raw ho hr))
  | rawWord hw h =>
    obtain ⟨c, t, hc, hs, hw⟩ := takeWhile_of_startsWord hw
    cases h
    obtain ⟨hk, hv⟩ : Kind.identifier = tk.kind ∧ String.ofList (c :: t) = tk.text := by
      simpa [rawWord, hs] using ht
    have hn := wordKind_identifier (hp.name hk.symm).1 (hp.name hk.symm).2
    rw [← hk, ← hn, ← hv, String.toList_ofList]
    exact readsAlone_word hc hw
  | letter _ _ _ h =>
    cases h
    exact readsAlone_plain ht rfl (readsAlone_word (c := 'r') (t := []) (by decide) (by simp))
  | charOrLifetime h =>
    have hq : l ≠ .plain .char ['\'', '\''] := by
      rintro rfl
      obtain ⟨hk, hv⟩ : Kind.char = tk.kind ∧ String.ofList ['\'', '\''] = tk.text := by
        simpa [Lexeme.plain] using ht
      exact hp.char hk.symm hv.symm
    obtain ⟨kind, t, rfl, hr⟩ := charOrLifetime_alone h hq
    exact readsAlone_plain ht rfl (readsAlone_iff.2 (.charOrLifetime hr))
  | number hc h =>
    obtain ⟨kind, hl, hn⟩ := number_alone h
    obtain ⟨d, t, hd⟩ := List.exists_cons_of_ne_nil happ.2
    rw [hd, List.cons_append] at happ
    obtain rfl : d = _ := (List.cons.inj happ.1).1
    rw [hl, Lexeme.plain, hd] at hn
    exact readsAlone_plain ht hl (hd ▸ readsAlone_iff.2 (.number hc hn))
  | word hc _ h =>
    cases h
    obtain ⟨d, t, hd, hw, hp⟩ := takeWhile_of_startsWord (s := _ :: _) hc
    exact readsAlone_plain ht rfl (by rw [hw]; exact readsAlone_word hd hp)
  | mark ho h hs =>
    have hm := (mark?_eq_some h).1
    obtain ⟨d, t, rfl⟩ := List.exists_cons_of_ne_nil hm.ne_nil
    obtain ⟨rfl, rfl⟩ := List.cons.inj hs
    have ho := opensLexeme_of_initial (List.prefix_append t rest) ho
    exact readsAlone_plain ht rfl (readsAlone_iff.2 (.mark ho hm.mark? (List.append_nil _)))

/-- The text of a token is read as the token alone. -/
theorem readsAlone_of_firstLexeme (h : firstLexeme c s = .ok (l, rest))
    (ht : l.token = some (tk.kind, tk.text)) (hp : tk.Plain) :
    ReadsAlone tk.kind tk.text.toList :=
  (cutOff_of_firstLexeme h).readsAlone ht hp

end

end Ferrotype
