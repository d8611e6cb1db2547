import Ferrotype.Proofs.Token.Alone

/-!
# Lexemes look a little ahead

Where a lexeme ends is decided by at most three characters behind it, and not by what stands behind
a blank. So a lexeme is cut in the same way if the rest of the text is another one that starts
alike. A comment up to the end of its line has no end of its own, and is left out.
-/

namespace Ferrotype

open Text

variable {c : Char} {s t u x body rest rest' : List Char} {l : Lexeme} {kind : Kind} {j k : Nat}

/-! ## Texts that start alike -/

/-- Texts with the same first `k` characters, or the same ones in front of a blank or the end. -/
inductive Near : Nat → List Char → List Char → Prop where
  | zero {s t : List Char} : Near 0 s t
  | stop {k : Nat} {s t : List Char} (hs : s.head?.all isBlank = true)
    (ht : t.head?.all isBlank = true) : Near k s t
  | char {k : Nat} {s t : List Char} (c : Char) (h : Near k s t) : Near (k + 1) (c :: s) (c :: t)

theorem Near.refl (k : Nat) (s : List Char) : Near k s s := by
  induction s generalizing k with
  | nil => exact .stop rfl rfl
  | cons c s ih =>
    cases k with
    | zero => exact .zero
    | succ k => exact .char c (ih k)

theorem Near.mono (h : Near k s t) (hj : j ≤ k) : Near j s t := by
  induction h generalizing j with
  | zero =>
    obtain rfl : j = 0 := by omega
    exact .zero
  | stop hs ht => exact .stop hs ht
  | char c h ih =>
    cases j with
    | zero => exact .zero
    | succ j => exact .char c (ih (by omega))

theorem Near.append (h : Near k s t) (x : List Char) : Near (x.length + k) (x ++ s) (x ++ t) := by
  induction x with
  | nil => simpa using h
  | cons c x ih =>
    rw [List.length_cons, Nat.add_right_comm]
    exact .char c ih

/-- What begins with a blank or not at all has no character of a class without blanks. -/
theorem head?_any_of_blank {p : Char → Bool} (hp : ∀ c, isBlank c = true → p c = false)
    (h : s.head?.all isBlank = true) : s.head?.any p = false := by
  cases s with
  | nil => rfl
  | cons c s => exact hp c h

theorem Near.head (h : Near k s t) (hk : 0 < k) {p : Char → Bool}
    (hp : ∀ c, isBlank c = true → p c = false) : t.head?.any p = s.head?.any p := by
  cases h with
  | zero => cases hk
  | stop hs ht => rw [head?_any_of_blank hp hs, head?_any_of_blank hp ht]
  | char => rfl

theorem Near.takeWhile {p : Char → Bool} (hp : ∀ c, isBlank c = true → p c = false)
    (h : Near k s t) (hk : (s.takeWhile p).length < k) : t.takeWhile p = s.takeWhile p := by
  have hstop {s : List Char} (hs : s.head?.all isBlank = true) : s.takeWhile p = [] := by
    cases s with
    | nil => rfl
    | cons c s => rw [List.takeWhile_cons_of_neg (by simp [hp c hs])]
  induction h with
  | zero => cases hk
  | stop hs ht => rw [hstop hs, hstop ht]
  | char c h ih =>
    simp only [List.takeWhile_cons] at hk ⊢
    split
    · next hc =>
      rw [if_pos hc, List.length_cons] at hk
      rw [ih (by omega)]
    · rfl

/-- A text without blanks is the start of both or of none. -/
theorem Near.isPrefixOf (h : Near k s t) (hx : x.length ≤ k) (hb : ∀ c ∈ x, isBlank c = false) :
    x.isPrefixOf t = x.isPrefixOf s := by
  have hstop {d : Char} {x s : List Char} (hd : isBlank d = false)
      (hs : s.head?.all isBlank = true) : (d :: x).isPrefixOf s = false := by
    cases s with
    | nil => rfl
    | cons c s =>
      have hc : d ≠ c := by
        rintro rfl
        have hs : isBlank d = true := hs
        rw [hd] at hs
        cases hs
      simp [List.isPrefixOf, hc]
  induction h generalizing x with
  | zero =>
    obtain rfl : x = [] := by simpa using hx
    simp
  | stop hs ht =>
    cases x with
    | nil => simp
    | cons d x =>
      rw [List.forall_mem_cons] at hb
      rw [hstop hb.1 hs, hstop hb.1 ht]
  | char c h ih =>
    cases x with
    | nil => simp
    | cons d x =>
      rw [List.forall_mem_cons] at hb
      simp only [List.isPrefixOf, ih (by simpa using hx) hb.2]

theorem startsWord_near (h : Near k s t) (hk : 0 < k) : startsWord t = startsWord s :=
  h.head hk fun _ => isWordStart_of_isBlank

theorem ne_of_isBlank {d : Char} (hd : isBlank d = false) (h : isBlank c = true) : c ≠ d := by
  rintro rfl
  rw [hd] at h
  cases h

theorem isDigitPart_of_isBlank (h : isBlank c = true) : isDigitPart c = false := by
  simp [isDigitPart, isDigit_of_isBlank h, ne_of_isBlank (d := '_') (by decide) h]

theorem Near.head? (h : Near k s t) (hk : 0 < k) {d : Char} (hd : isBlank d = false) :
    t.head? = some d ↔ s.head? = some d := by
  have hp := h.head hk (p := (· == d)) fun c hc => by simpa using ne_of_isBlank hd hc
  rw [Bool.eq_iff_iff] at hp
  simpa [Option.any_eq_true] using hp

/-! ## Numbers -/

theorem fraction_near (h : Near k s t) (hk : (fraction s).length + 1 < k) :
    fraction t = fraction s := by
  cases h with
  | zero => cases hk
  | stop hs ht =>
    have hn {s : List Char} (hs : s.head?.all isBlank = true) : fraction s = [] := by
      apply fraction_eq_nil
      intro hd
      rw [hd] at hs
      exact absurd hs (by decide)
    rw [hn hs, hn ht]
  | @char k s t c h =>
    by_cases hc : c = '.'
    · subst hc
      have hd := h.head? (by omega) (d := '.') (by decide)
      have hw := startsWord_near h (by omega)
      simp only [fraction, hd, hw] at hk ⊢
      split
      · rfl
      · next hn =>
        rw [if_neg hn, List.length_cons] at hk
        rw [h.takeWhile (fun _ => isDigitPart_of_isBlank) (by omega)]
    · rw [fraction_eq_nil (by simpa using hc), fraction_eq_nil (by simpa using hc)]

/-- Neither a digit nor a sign stands behind the letter. -/
theorem exponent_of_blank {e : Char} (h : s.head?.all isBlank = true) : exponent (e :: s) = [] := by
  cases s with
  | nil => simp [exponent]
  | cons d s =>
    have hb : isBlank d = true := h
    have hs : ¬(d = '+' ∨ d = '-') :=
      not_or.2 ⟨ne_of_isBlank (by decide) hb, ne_of_isBlank (by decide) hb⟩
    simp [exponent, isDigitPart_of_isBlank hb, hs]

theorem exponent_eq_nil_of_ne {e : Char} (h : ¬(e = 'e' ∨ e = 'E')) : exponent (e :: s) = [] := by
  simp [exponent, h]

theorem exponent_near (h : Near k s t) (hk : (exponent s).length + 2 < k) :
    exponent t = exponent s := by
  cases h with
  | zero => cases hk
  | stop hs ht =>
    have hn {s : List Char} (hs : s.head?.all isBlank = true) : exponent s = [] := by
      cases s with
      | nil => rfl
      | cons c s =>
        have hb : isBlank c = true := hs
        exact exponent_eq_nil_of_ne
          (not_or.2 ⟨ne_of_isBlank (by decide) hb, ne_of_isBlank (by decide) hb⟩)
    rw [hn hs, hn ht]
  | char e h =>
    by_cases he : e = 'e' ∨ e = 'E'
    case neg => rw [exponent_eq_nil_of_ne he, exponent_eq_nil_of_ne he]
    cases h with
    | zero => omega
    | stop hs ht => rw [exponent_of_blank hs, exponent_of_blank ht]
    | @char k s t d h =>
      have hd := h.head (by omega) (p := isDigit) fun _ => isDigit_of_isBlank
      simp only [exponent, if_pos he] at hk ⊢
      split
      · next hp =>
        rw [if_pos hp, List.length_cons] at hk
        rw [(Near.char d h).takeWhile (fun _ => isDigitPart_of_isBlank) (by omega)]
      · next hp =>
        rw [hd]
        split
        · next hs =>
          rw [if_neg hp, if_pos hs, List.length_cons, List.length_cons] at hk
          rw [h.takeWhile (fun _ => isDigitPart_of_isBlank) (by omega)]
        · rfl

theorem suffix_near (h : Near k s t) (hk : (suffix s).length < k) : suffix t = suffix s := by
  have hw := startsWord_near h (by omega)
  unfold suffix at hk ⊢
  rw [hw]
  split
  · next hs =>
    rw [if_pos hs] at hk
    exact h.takeWhile (fun _ => isWordPart_of_isBlank) hk
  · rfl

theorem isDigitOf_of_isBlank {radix : Nat} (h : isBlank c = true) :
    (isDigitOf radix c || c == '_') = false := by
  simp [isDigitOf, isHexDigit_of_isBlank h, ne_of_isBlank (d := '_') (by decide) h]

/-- The parts of a number behind a radix prefix. -/
theorem radixNumber_eq_ok {letter : Char} {radix : Nat} :
    radixNumber letter radix s = .ok (l, rest) ↔ ∃ digits suff, s = digits ++ (suff ++ rest) ∧
      (s.takeWhile fun c => isDigitOf radix c || c == '_') = digits ∧
      suffix (suff ++ rest) = suff ∧ ¬digits.all (· = '_') = true ∧
      l = .plain .int ('0' :: letter :: (digits ++ suff)) := by
  constructor
  · intro h
    unfold radixNumber at h
    dsimp only at h
    split at h
    · cases h
    next hd =>
    obtain ⟨rfl, rfl⟩ := Prod.mk.inj (Except.ok.inj h)
    refine ⟨_, _, ?_, rfl, ?_, hd, rfl⟩
    · rw [suffix_append, takeWhile_append_drop]
    · rw [suffix_append]
  · rintro ⟨digits, suff, rfl, hd, hs, hn, rfl⟩
    unfold radixNumber
    simp only [hd, List.drop_left, hs, if_neg hn]

theorem radixNumber_near {letter : Char} {radix : Nat} (hn : Near 3 rest rest')
    (h : radixNumber letter radix (x ++ rest) = .ok (l, rest)) :
    radixNumber letter radix (x ++ rest') = .ok (l, rest') := by
  obtain ⟨digits, suff, hx, hd, hs, hne, rfl⟩ := radixNumber_eq_ok.1 h
  rw [← List.append_assoc] at hx
  obtain rfl := List.append_cancel_right hx
  have hsuff := hn.append suff
  refine radixNumber_eq_ok.2 ⟨digits, suff, by simp, ?_, ?_, hne, rfl⟩
  · refine ((hn.append (digits ++ suff)).takeWhile (fun _ => isDigitOf_of_isBlank) ?_).trans hd
    rw [hd, List.length_append]
    omega
  · refine (suffix_near hsuff ?_).trans hs
    rw [hs]
    omega

/-- The parts of a number without a radix prefix. -/
theorem decimalNumber_eq : decimalNumber s = (l, rest) ↔ ∃ whole frac exp suff,
    s = whole ++ (frac ++ (exp ++ (suff ++ rest))) ∧ s.takeWhile isDigitPart = whole ∧
      fraction (frac ++ (exp ++ (suff ++ rest))) = frac ∧
      exponent (exp ++ (suff ++ rest)) = exp ∧ suffix (suff ++ rest) = suff ∧
      l = .plain (if frac ≠ [] ∨ exp ≠ [] ∨ isFloatSuffix suff then .float else .int)
        (whole ++ (frac ++ (exp ++ suff))) := by
  constructor
  · intro h
    obtain ⟨rfl, rfl⟩ := Prod.mk.inj h
    refine ⟨_, _, _, _, ?_, rfl, ?_, ?_, ?_, rfl⟩ <;>
      simp only [suffix_append, exponent_append, fraction_append, takeWhile_append_drop]
  · rintro ⟨whole, frac, exp, suff, rfl, hw, hf, he, hs, rfl⟩
    unfold decimalNumber
    simp only [hw, List.drop_left, hf, he, hs]

theorem decimalNumber_near (hn : Near 3 rest rest')
    (h : decimalNumber (x ++ rest) = (l, rest)) : decimalNumber (x ++ rest') = (l, rest') := by
  obtain ⟨whole, frac, exp, suff, hx, hw, hf, he, hs, rfl⟩ := decimalNumber_eq.1 h
  simp only [← List.append_assoc] at hx
  obtain rfl := List.append_cancel_right hx
  simp only [List.append_assoc] at hw
  refine decimalNumber_eq.2 ⟨whole, frac, exp, suff, by simp, ?_, ?_, ?_, ?_, rfl⟩
  · have := hn.append (whole ++ (frac ++ (exp ++ suff)))
    simp only [List.append_assoc] at this ⊢
    refine (this.takeWhile (fun _ => isDigitPart_of_isBlank) ?_).trans hw
    rw [hw, List.length_append]
    omega
  · have := hn.append (frac ++ (exp ++ suff))
    simp only [List.append_assoc] at this
    refine (fraction_near this ?_).trans hf
    rw [hf, List.length_append]
    omega
  · have := hn.append (exp ++ suff)
    simp only [List.append_assoc] at this
    refine (exponent_near this ?_).trans he
    rw [he, List.length_append]
    omega
  · refine (suffix_near (hn.append suff) ?_).trans hs
    rw [hs]
    omega

theorem radixOf?_of_isBlank (h : isBlank c = true) : radixOf? c = none := by
  unfold radixOf?
  split
  any_goals rfl
  all_goals cases h

theorem number_near (hn : Near 3 rest rest') (h : number (c :: (x ++ rest)) = .ok (l, rest)) :
    number (c :: (x ++ rest')) = .ok (l, rest') := by
  have hhead := (hn.append x).head (by omega) (p := fun c => (radixOf? c).isSome) fun c hc => by
    simp [radixOf?_of_isBlank hc]
  by_cases hr : c = '0' ∧ (x ++ rest).head?.any (fun c => (radixOf? c).isSome) = true
  · obtain ⟨rfl, hr⟩ := hr
    obtain ⟨letter, t, ht⟩ : ∃ letter t, x ++ rest = letter :: t :=
      List.exists_cons_of_ne_nil fun he => by simp [he] at hr
    obtain ⟨radix, hr⟩ : ∃ radix, radixOf? letter = some radix :=
      Option.isSome_iff_exists.1 (by simpa [ht] using hr)
    have hnum (t : List Char) : number ('0' :: letter :: t) = radixNumber letter radix t := by
      simp [number, hr]
    rw [ht, hnum] at h
    obtain ⟨digits, suff, rfl, -⟩ := radixNumber_eq_ok.1 h
    have hx : x = letter :: (digits ++ suff) :=
      List.append_cancel_right (ht.trans (by simp))
    rw [← List.append_assoc] at h
    rw [hx, List.cons_append, hnum]
    exact radixNumber_near hn h
  · have hdec {s : List Char}
        (hs : ¬(c = '0' ∧ s.head?.any (fun c => (radixOf? c).isSome) = true)) :
        number (c :: s) = .ok (decimalNumber (c :: s)) := by
      apply number_eq
      intro letter t ht
      obtain ⟨rfl, rfl⟩ := List.cons.inj ht
      simpa using hs
    rw [hdec hr, ← List.cons_append] at h
    rw [hdec (by rwa [hhead]), ← List.cons_append, decimalNumber_near hn (Except.ok.inj h)]

/-! ## Literals and comments -/

theorem closeQuote_behind {quote : Char} (h : closeQuote quote s = some (body, rest))
    (u : List Char) : closeQuote quote (s ++ u) = some (body, rest ++ u) := by
  fun_induction closeQuote quote s generalizing body rest with
  | case1 | case2 => cases h
  | case3 c s ih =>
    obtain ⟨r, hr, hb⟩ := Option.map_eq_some_iff.1 h
    cases hb
    simp [closeQuote, ih hr]
  | case4 s hone hmore =>
    cases h
    have hq : quote ≠ '\\' := not_backslash hone hmore
    rw [List.cons_append, closeQuote_cons hq, if_pos rfl]
  | case5 c s hone hmore hq ih =>
    obtain ⟨r, hr, hb⟩ := Option.map_eq_some_iff.1 h
    cases hb
    rw [List.cons_append, closeQuote_cons (not_backslash hone hmore), if_neg hq, ih hr]
    rfl

theorem closeQuote_near {quote : Char} (h : closeQuote quote (x ++ rest) = some (body, rest))
    (u : List Char) : body = x ∧ closeQuote quote (x ++ u) = some (x, u) := by
  obtain rfl := List.append_cancel_right (closeQuote_append h)
  exact ⟨rfl, closeQuote_behind (closeQuote_alone h) u⟩

theorem quotedLiteral_near {opening : List Char} {quote : Char}
    (h : quotedLiteral kind opening quote (x ++ rest) = .ok (l, rest)) (u : List Char) :
    quotedLiteral kind opening quote (x ++ u) = .ok (l, u) := by
  unfold quotedLiteral at h
  split at h
  · cases h
  · next hb =>
    cases h
    obtain ⟨rfl, hu⟩ := closeQuote_near hb u
    rw [quotedLiteral, hu]

theorem quote_mem_of_closeRaw {hashes : Nat} (h : closeRaw hashes s = some (body, rest)) :
    '"' ∈ s := by
  fun_induction closeRaw hashes s generalizing body rest with
  | case1 => cases h
  | case2 c s hc => simp [hc.1]
  | case3 c s _ ih =>
    obtain ⟨r, hr, -⟩ := Option.map_eq_some_iff.1 h
    exact List.mem_cons_of_mem c (ih hr)

theorem closeRaw_behind {hashes : Nat} (h : closeRaw hashes s = some (body, rest)) (u : List Char) :
    closeRaw hashes (s ++ u) = some (body, rest ++ u) := by
  fun_induction closeRaw hashes s generalizing body rest with
  | case1 => cases h
  | case2 c s hc =>
    cases h
    obtain ⟨v, rfl⟩ := List.isPrefixOf_iff_prefix.1 hc.2
    simp [closeRaw, hc.1]
  | case3 c s hc ih =>
    obtain ⟨r, hr, hb⟩ := Option.map_eq_some_iff.1 h
    cases hb
    have hn : ¬(c = '"' ∧ (List.replicate hashes '#').isPrefixOf (s ++ u) = true) := by
      rintro ⟨hq, hp⟩
      rw [List.isPrefixOf_iff_prefix] at hp
      obtain hp | hp := List.prefix_or_prefix_of_prefix hp (List.prefix_append s u)
      · exact hc ⟨hq, List.isPrefixOf_iff_prefix.2 hp⟩
      -- All that is left are number signs, and none of them closes the literal.
      · exact absurd (List.eq_of_mem_replicate (hp.subset (quote_mem_of_closeRaw hr))) (by decide)
    rw [List.cons_append, closeRaw, if_neg hn, ih hr]
    rfl

theorem rawLiteral_near {opening : List Char}
    (h : rawLiteral kind opening (x ++ rest) = .ok (l, rest)) (hl : l.chars = opening ++ x)
    (u : List Char) : rawLiteral kind opening (x ++ u) = .ok (l, u) := by
  obtain ⟨n, body, rfl, hr⟩ := rawLiteral_alone h
  obtain rfl := List.append_cancel_left hl
  have hd (v : List Char) : (List.replicate n '#' ++ '"' :: v).dropWhile (· = '#') = '"' :: v := by
    rw [List.dropWhile_append_of_pos (by simp)]
    simp
  simp only [rawLiteral, takeWhile_hashes, hd, List.length_replicate] at hr
  cases hb : closeRaw n body with
  | none =>
    rw [hb] at hr
    cases hr
  | some r =>
    rw [hb] at hr
    obtain ⟨body', left⟩ := r
    obtain ⟨hl, rfl⟩ := Prod.mk.inj (Except.ok.inj hr)
    rw [List.append_assoc, List.cons_append]
    simp only [rawLiteral, takeWhile_hashes, hd, List.length_replicate, closeRaw_behind hb u]
    rw [hl]
    rfl

theorem blockComment_near (h : blockComment (x ++ rest) = .ok (l, rest)) (u : List Char) :
    blockComment (x ++ u) = .ok (l, u) := by
  unfold blockComment at h
  split at h
  · cases h
  · next body _ hb =>
    cases h
    have hx := closeComment_append hb
    obtain ⟨t, ts, hts, ht, hi, -⟩ := closeComment_inside hb
    obtain rfl := List.length_eq_zero_iff.1 hts
    obtain ⟨body', rfl, hc⟩ := hi.closeComment_zero
    obtain rfl : body' = body := by simpa using ht
    have hx : body' ++ ['*', '/'] = x := List.append_cancel_right (by simpa using hx)
    rw [blockComment, ← hx, hc u]

/-! ## Words and marks -/

/-- A run that ends in front of a text ends there in front of any that goes on alike. -/
theorem takeWhile_cut {p : Char → Bool} (hh : u.head?.any p = t.head?.any p)
    (h : (x ++ u).dropWhile p = u) :
    (x ++ u).takeWhile p = x ∧ (x ++ t).takeWhile p = x ∧ (x ++ t).dropWhile p = t := by
  have hx : (x ++ u).takeWhile p = x := by
    have happ := List.takeWhile_append_dropWhile (p := p) (l := x ++ u)
    rw [h] at happ
    exact List.append_cancel_right happ
  have hall : ∀ c ∈ x, p c = true := by
    rw [← hx]
    exact fun c => List.mem_takeWhile_imp
  have ht : t.head?.any p = false := by
    have hu := List.head?_dropWhile_not p (x ++ u)
    rw [h] at hu
    rw [← hh]
    cases u with
    | nil => rfl
    | cons c u => simpa using hu
  refine ⟨hx, ?_⟩
  rw [List.takeWhile_append_of_pos hall, List.dropWhile_append_of_pos hall]
  cases t with
  | nil => simp
  | cons c t =>
    have hc : p c = false := by simpa using ht
    simp [hc]

theorem takeWhile_near {p : Char → Bool} (hp : ∀ c, isBlank c = true → p c = false)
    (hn : Near 3 rest rest') (h : (x ++ rest).dropWhile p = rest) :
    (x ++ rest).takeWhile p = x ∧ (x ++ rest').takeWhile p = x ∧
      (x ++ rest').dropWhile p = rest' :=
  takeWhile_cut (hn.head (by omega) hp).symm h

theorem word_near (hn : Near 3 rest rest') (h : word (x ++ rest) = (l, rest)) :
    word (x ++ rest') = (l, rest') := by
  obtain ⟨rfl, hr⟩ := Prod.mk.inj h
  obtain ⟨hx, hx', hr'⟩ := takeWhile_near (fun _ => isWordPart_of_isBlank) hn hr
  rw [word, hx, hx', hr']

theorem rawWord_near (hn : Near 3 rest rest') (h : rawWord (x ++ rest) = (l, rest)) :
    rawWord (x ++ rest') = (l, rest') := by
  obtain ⟨rfl, hr⟩ := Prod.mk.inj h
  obtain ⟨hx, hx', hr'⟩ := takeWhile_near (fun _ => isWordPart_of_isBlank) hn hr
  rw [rawWord, hx, hx', hr']

theorem charOrLifetime_lifetime (hb : c ≠ '\\') (hq : s.head? ≠ some '\'')
    (hw : isWordStart c = true) : charOrLifetime (c :: s) =
      .ok (.plain .lifetime ('\'' :: (c :: s).takeWhile isWordPart),
        (c :: s).dropWhile isWordPart) := by
  have hw : startsWord (c :: s) = true := hw
  unfold charOrLifetime
  split
  · next h => exact absurd (List.cons.inj h).1 hb
  · next h => exact absurd (by rw [(List.cons.inj h).2]; rfl) hq
  · rw [if_pos hw]

/-- More than the quote is read. -/
theorem charOrLifetime_ne (h : charOrLifetime s = .ok (l, rest)) : l.chars ≠ ['\''] := by
  intro hl
  unfold charOrLifetime at h
  split at h
  · obtain ⟨d, t, rfl, -⟩ := quotedLiteral_alone h
    cases hl
  · obtain ⟨d, t, rfl, -⟩ := quotedLiteral_alone h
    cases hl
  · split at h
    · next hw =>
      cases h
      obtain ⟨c, t, -, ht, -⟩ := takeWhile_of_startsWord hw
      simp [Lexeme.plain, ht] at hl
    · cases h

theorem charOrLifetime_near (hn : Near 3 rest rest')
    (h : charOrLifetime (x ++ rest) = .ok (l, rest)) (hl : l.chars = '\'' :: x) :
    charOrLifetime (x ++ rest') = .ok (l, rest') := by
  cases x with
  | nil => exact absurd hl (charOrLifetime_ne h)
  | cons d y =>
    have hy := (hn.append y).head? (by omega) (d := '\'') (by decide)
    by_cases hb : d = '\\' ∨ (y ++ rest).head? = some '\''
    · have hquoted {r : List Char} (hr : d = '\\' ∨ (y ++ r).head? = some '\'') :
          charOrLifetime (d :: y ++ r) = quotedLiteral .char ['\''] '\'' (d :: y ++ r) := by
        apply charOrLifetime_quoted
        obtain rfl | hr := hr
        · exact .inl ⟨y ++ r, rfl⟩
        · obtain ⟨t, ht⟩ := List.head?_eq_some_iff.1 hr
          exact .inr ⟨d, t, by rw [List.cons_append, ht]⟩
      rw [hquoted hb] at h
      rw [hquoted (by rwa [hy]), quotedLiteral_near h rest']
    · rw [not_or] at hb
      have hw : isWordStart d = true := by
        by_contra hw
        have hw : ¬startsWord (d :: y ++ rest) = true := hw
        unfold charOrLifetime at h
        split at h
        · next he => exact hb.1 (List.cons.inj he).1
        · next he =>
          have he : y ++ rest = _ := (List.cons.inj he).2
          exact hb.2 (by rw [he]; rfl)
        · rw [if_neg hw] at h
          cases h
      rw [List.cons_append, charOrLifetime_lifetime hb.1 hb.2 hw, ← List.cons_append] at h
      obtain ⟨rfl, hr⟩ := Prod.mk.inj (Except.ok.inj h)
      obtain ⟨hx, hx', hr'⟩ := takeWhile_near (fun _ => isWordPart_of_isBlank) hn hr
      rw [List.cons_append, charOrLifetime_lifetime hb.1 (mt hy.1 hb.2) hw, ← List.cons_append,
        hx, hx', hr']

theorem mark?_near {chars : List Char} (hn : Near 3 s t) (h : mark? s = some (kind, chars)) :
    mark? t = some (kind, chars) := by
  have hp : Punct.ofStart? t = Punct.ofStart? s := by
    unfold Punct.ofStart?
    congr 1
    funext p
    have hb : p.text.toList.all (fun c => !isBlank c) = true := by cases p <;> decide
    apply hn.isPrefixOf
    · cases p <;> decide
    · simpa using hb
  have hd {f : Delim → Char} (hf : ∀ d, isBlank (f d) = false) :
      Delim.all.find? (fun d => t.head? = some (f d)) =
        Delim.all.find? fun d => s.head? = some (f d) := by
    congr 1
    funext d
    simp only [hn.head? (by omega) (hf d)]
  unfold mark? at h ⊢
  rw [hp, hd (f := Delim.openChar) (by rintro ⟨⟩ <;> decide),
    hd (f := Delim.closeChar) (by rintro ⟨⟩ <;> decide)]
  exact h

/-! ## The first lexeme -/

theorem opensLexeme_eq_true : opensLexeme c s = true ↔
    c = '/' ∧ (s.head? = some '/' ∨ s.head? = some '*') ∨
      c = 'b' ∧ (s.head? = some '\'' ∨ s.head? = some '"' ∨
        s.head? = some 'r' ∧ (s.tail.head? = some '"' ∨ s.tail.head? = some '#')) ∨
      c = 'r' ∧ (s.head? = some '"' ∨ s.head? = some '#') ∨ c = '"' ∨ c = '\'' := by
  constructor
  · intro h
    unfold opensLexeme at h
    split at h
    case h_11 => cases h
    all_goals simp
  · rintro (⟨rfl, h | h⟩ | ⟨rfl, h | h | ⟨h, h' | h'⟩⟩ | ⟨rfl, h | h⟩ | rfl | rfl)
    any_goals rfl
    all_goals obtain ⟨t, rfl⟩ := List.head?_eq_some_iff.1 h
    any_goals rfl
    all_goals
      obtain ⟨u, rfl⟩ := List.head?_eq_some_iff.1 h'
      rfl

theorem Near.tail (h : Near (k + 1) s t) (hs : s.head?.all isBlank = false) :
    Near k s.tail t.tail := by
  cases h with
  | stop hs' => rw [hs] at hs'; cases hs'
  | char c h => exact h

theorem opensLexeme_near (hn : Near 2 s t) : opensLexeme c t = opensLexeme c s := by
  have ht : s.head? = some 'r' → ∀ d, isBlank d = false →
      (t.tail.head? = some d ↔ s.tail.head? = some d) := fun hr d hd =>
    (hn.tail (by rw [hr]; decide)).head? (by omega) hd
  rw [Bool.eq_iff_iff, opensLexeme_eq_true, opensLexeme_eq_true]
  simp only [hn.head? (by omega) (d := '/') (by decide), hn.head? (by omega) (d := '*') (by decide),
    hn.head? (by omega) (d := '\'') (by decide), hn.head? (by omega) (d := '"') (by decide),
    hn.head? (by omega) (d := 'r') (by decide), hn.head? (by omega) (d := '#') (by decide)]
  have h1 := fun hr => ht hr '"' (by decide)
  have h2 := fun hr => ht hr '#' (by decide)
  grind

theorem quotedLiteral_opening {opening : List Char} {quote : Char}
    (h : quotedLiteral kind opening quote s = .ok (l, rest)) : ∃ t, l.chars = opening ++ t := by
  obtain ⟨d, t, rfl, -⟩ := quotedLiteral_alone h
  exact ⟨d :: t, rfl⟩

theorem rawLiteral_opening {opening : List Char} (h : rawLiteral kind opening s = .ok (l, rest)) :
    ∃ t, l.chars = opening ++ t := by
  obtain ⟨n, body, rfl, -⟩ := rawLiteral_alone h
  exact ⟨_, rfl⟩

theorem rawWord_opening (h : rawWord s = (l, rest)) : ∃ t, l.chars = 'r' :: '#' :: t := by
  cases h
  exact ⟨_, rfl⟩

theorem blockComment_opening (h : blockComment s = .ok (l, rest)) :
    ∃ t, l.chars = '/' :: '*' :: t := by
  unfold blockComment at h
  split at h
  · cases h
  · cases h
    exact ⟨_, rfl⟩

/-- The number sign behind the letter is still there, and what it does not open it does not open. -/
theorem letter_near (hn : Near 3 rest rest') (hw : ¬startsWord s = true) (hq : ∀ t, s ≠ '"' :: t)
    (hh : ∀ t, s ≠ '#' :: t) (h : word ('r' :: '#' :: s) = (l, rest)) :
    CutOff ('r' :: rest') l rest' ∧ l.chars = ['r'] := by
  have hr : word (['r'] ++ '#' :: s) = (.plain (wordKind ['r']) ['r'], '#' :: s) := rfl
  obtain ⟨rfl, rfl⟩ := Prod.mk.inj (hr.symm.trans h)
  obtain ⟨t, rfl⟩ : ∃ t, rest' = '#' :: t :=
    List.head?_eq_some_iff.1 ((hn.head? (by omega) (by decide)).2 rfl)
  have ht : Near 2 s t := hn.tail (by rfl)
  have head {d : Char} (hd : isBlank d = false) (hs : ∀ u, s ≠ d :: u) (u : List Char) :
      t ≠ d :: u := by
    rintro rfl
    obtain ⟨v, hv⟩ := List.head?_eq_some_iff.1 ((ht.head? (by omega) hd).1 rfl)
    exact hs v hv
  refine ⟨.letter (by rwa [startsWord_near ht (by omega)]) (head (by decide) hq)
    (head (by decide) hh) ?_, rfl⟩
  exact word_near (x := ['r']) hn h

/--
What is cut off is cut off in the same way from a text that goes on nearly alike. Blanks and
comments up to the end of the line may go on.
-/
theorem CutOff.near (hn : Near 3 rest rest') (h : CutOff s l rest)
    (hb : ∀ c ∈ s.head?, isBlank c = false) (hl : ∀ t, s ≠ '/' :: '/' :: t) :
    CutOff (l.chars ++ rest') l rest' := by
  obtain ⟨happ, hne⟩ := h.splits
  obtain ⟨d, y, hd⟩ := List.exists_cons_of_ne_nil hne
  -- What stands behind the opening of a lexeme is the rest of the lexeme and the old rest.
  have behind {o x s : List Char} (hx : l.chars = o ++ x)
      (hs : l.chars ++ rest = o ++ s) : s = x ++ rest := by
    rw [hx, List.append_assoc] at hs
    exact (List.append_cancel_left hs).symm
  cases h with
  | blanks hc => exact absurd hc (by simp [hb _ rfl])
  | lineComment => exact absurd rfl (hl _)
  | blockComment h =>
    obtain ⟨x, hx⟩ := blockComment_opening h
    obtain rfl := behind (o := ['/', '*']) hx happ
    rw [hx, List.cons_append, List.cons_append]
    exact .blockComment (blockComment_near h rest')
  | quoted ho h =>
    obtain ⟨x, hx⟩ := quotedLiteral_opening h
    obtain rfl := behind hx happ
    rw [hx, List.append_assoc]
    exact .quoted ho (quotedLiteral_near h rest')
  | raw ho h =>
    obtain ⟨x, hx⟩ := rawLiteral_opening h
    obtain rfl := behind hx happ
    rw [hx, List.append_assoc]
    exact .raw ho (rawLiteral_near h hx rest')
  | rawWord hw h =>
    obtain ⟨x, hx⟩ := rawWord_opening h
    obtain rfl := behind (o := ['r', '#']) hx happ
    rw [hx, List.cons_append, List.cons_append]
    exact .rawWord (by rwa [startsWord_near (hn.append x) (by omega)]) (rawWord_near hn h)
  | letter hw hq hh h =>
    obtain ⟨hr, hx⟩ := letter_near hn hw hq hh h
    rwa [hx]
  | charOrLifetime h =>
    rw [hd, List.cons_append] at happ ⊢
    obtain ⟨rfl, rfl⟩ := List.cons.inj happ
    exact .charOrLifetime (charOrLifetime_near hn h hd)
  | number hc h =>
    rw [hd, List.cons_append] at happ ⊢
    obtain ⟨rfl, rfl⟩ := List.cons.inj happ
    exact .number hc (number_near hn h)
  | word hc ho h =>
    rw [hd, List.cons_append] at happ ⊢
    obtain ⟨rfl, rfl⟩ := List.cons.inj happ
    rw [← opensLexeme_near ((hn.append y).mono (by omega))] at ho
    exact .word hc ho (word_near (x := d :: y) hn h)
  | mark ho h hs =>
    obtain rfl : _ = d :: y := hd
    rw [List.cons_append] at hs
    obtain ⟨rfl, rfl⟩ := List.cons.inj hs
    have hy := hn.append y
    rw [← opensLexeme_near (hy.mono (by omega))] at ho
    exact .mark ho (mark?_near ((Near.char d hy).mono (by omega)) h) rfl

/-- A lexeme is cut off from any text that goes on in nearly the same way. -/
theorem firstLexeme_near (hn : Near 3 rest rest') (hb : isBlank c = false)
    (hc : c = '/' → (x ++ rest).head? ≠ some '/')
    (h : firstLexeme c (x ++ rest) = .ok (l, rest)) :
    firstLexeme c (x ++ rest') = .ok (l, rest') := by
  rw [firstLexeme_eq_ok] at h ⊢
  have hl : l.chars = c :: x := List.append_cancel_right h.splits.1
  have hr := h.near hn (by simpa using hb) fun t ht =>
    hc (List.cons.inj ht).1 (congrArg List.head? (List.cons.inj ht).2)
  rwa [hl] at hr

end Ferrotype
