import Ferrotype.Proofs.Text.Newlines
import Ferrotype.Proofs.Token.Join
import Mathlib.Data.List.Forall2

/-!
# Tokens of lines that end in another way

If each line of a text ends in `\r\n` and not in `\n`, the tokens are the same, in the same places.
Only a doc comment of several lines holds the ends of its lines.
-/

namespace Ferrotype

open Text

variable {c : Char} {s t body rest : List Char} {l : Lexeme} {kind : Kind} {p : Position}
  {ts : List Token}

/-! ## Places -/

theorem Position.after_crlf (p : Position) (s : List Char) : p.after (crlf s) = p.after s := by
  induction s generalizing p with
  | nil => rfl
  | cons c s ih =>
    by_cases hc : c = '\n'
    · subst hc
      rw [crlf_newline, after_cons, after_cons, after_cons, ih]
      rfl
    · rw [crlf_cons hc, after_cons, after_cons, ih]

theorem near_crlf (k : Nat) (s : List Char) : Near k s (crlf s) := by
  induction s generalizing k with
  | nil => exact .stop rfl rfl
  | cons c s ih =>
    by_cases hc : c = '\n'
    · subst hc
      exact .stop (by rfl) (by rfl)
    · cases k with
      | zero => exact .zero
      | succ k =>
        rw [crlf_cons hc]
        exact .char c (ih k)

/-! ## Lexemes on one line -/

theorem isBlank_of_isWordPart (h : isWordPart c = true) : isBlank c = false := by
  by_contra hb
  rw [isWordPart_of_isBlank (by simpa using hb)] at h
  cases h

theorem isBlank_of_isDigitPart (h : isDigitPart c = true) : isBlank c = false := by
  by_contra hb
  rw [isDigitPart_of_isBlank (by simpa using hb)] at h
  cases h

theorem isBlank_of_mem_fraction (h : c ∈ fraction s) : isBlank c = false := by
  unfold fraction at h
  split at h
  · split at h
    · cases h
    · obtain rfl | h := List.mem_cons.1 h
      · decide
      · exact isBlank_of_isDigitPart (List.mem_takeWhile_imp h)
  · cases h

theorem isBlank_of_mem_exponent (h : c ∈ exponent s) : isBlank c = false := by
  match s with
  | [] => cases h
  | [e] => simp [exponent] at h
  | e :: d :: t =>
    by_cases he : e = 'e' ∨ e = 'E'
    · have hb : isBlank e = false := by obtain rfl | rfl := he <;> decide
      simp only [exponent, if_pos he] at h
      split at h
      · obtain rfl | h := List.mem_cons.1 h
        · exact hb
        · exact isBlank_of_isDigitPart (List.mem_takeWhile_imp h)
      · split at h
        · next hs =>
          have hd : isBlank d = false := by obtain rfl | rfl := hs.1 <;> decide
          obtain rfl | h := List.mem_cons.1 h
          · exact hb
          obtain rfl | h := List.mem_cons.1 h
          · exact hd
          · exact isBlank_of_isDigitPart (List.mem_takeWhile_imp h)
        · cases h
    · rw [exponent_eq_nil_of_ne he] at h
      cases h

theorem isBlank_of_mem_suffix (h : c ∈ suffix s) : isBlank c = false :=
  isBlank_of_isWordPart (isWordPart_of_mem_suffix h)

theorem isBlank_of_mem_decimal (h : decimalNumber s = (l, rest)) (hc : c ∈ l.chars) :
    isBlank c = false := by
  obtain ⟨rfl, -⟩ := Prod.mk.inj h
  simp only [Lexeme.plain, List.mem_append] at hc
  obtain hc | hc | hc | hc := hc
  · exact isBlank_of_isDigitPart (List.mem_takeWhile_imp hc)
  · exact isBlank_of_mem_fraction hc
  · exact isBlank_of_mem_exponent hc
  · exact isBlank_of_mem_suffix hc

theorem isBlank_of_mem_number (h : number s = .ok (l, rest)) (hc : c ∈ l.chars) :
    isBlank c = false := by
  unfold number at h
  split at h
  · next letter t =>
    split at h
    · next radix hr =>
      have hletter : isBlank letter = false := by
        by_contra hb
        rw [radixOf?_of_isBlank (by simpa using hb)] at hr
        cases hr
      obtain ⟨digits, suff, -, rfl, hs, -, rfl⟩ := radixNumber_eq_ok.1 h
      simp only [Lexeme.plain, List.mem_cons, List.mem_append] at hc
      obtain rfl | rfl | hc | hc := hc
      · decide
      · exact hletter
      · by_contra hb
        have hd := List.mem_takeWhile_imp hc
        rw [isDigitOf_of_isBlank (by simpa using hb)] at hd
        cases hd
      · rw [← hs] at hc
        exact isBlank_of_mem_suffix hc
    · exact isBlank_of_mem_decimal (Except.ok.inj h) hc
  · exact isBlank_of_mem_decimal (Except.ok.inj h) hc

theorem isBlank_of_mem_word (h : word s = (l, rest)) (hc : c ∈ l.chars) : isBlank c = false := by
  obtain ⟨rfl, -⟩ := Prod.mk.inj h
  exact isBlank_of_isWordPart (List.mem_takeWhile_imp hc)

theorem isBlank_of_mem_rawWord (h : rawWord s = (l, rest)) (hc : c ∈ l.chars) :
    isBlank c = false := by
  obtain ⟨rfl, -⟩ := Prod.mk.inj h
  simp only [List.mem_cons] at hc
  obtain rfl | rfl | hc := hc
  · decide
  · decide
  · exact isBlank_of_isWordPart (List.mem_takeWhile_imp hc)

theorem isBlank_of_mem_mark {chars : List Char} (h : MarkOf kind chars) (hc : c ∈ chars) :
    isBlank c = false := by
  cases h with
  | punct p =>
    have hp : p.text.toList.all (fun c => !isBlank c) = true := by cases p <;> decide
    simpa using List.all_eq_true.1 hp c hc
  | opener d | closer d =>
    obtain rfl := List.mem_singleton.1 hc
    cases d <;> decide

theorem charOrLifetime_newline (h : charOrLifetime s = .ok (l, rest)) :
    '\n' ∉ l.chars ∨ l = .plain .char l.chars := by
  unfold charOrLifetime at h
  split at h
  · obtain ⟨chars, rfl⟩ := quotedLiteral_kind h
    exact .inr rfl
  · obtain ⟨chars, rfl⟩ := quotedLiteral_kind h
    exact .inr rfl
  · split at h
    · cases h
      refine .inl fun hm => ?_
      obtain hd | hd := List.mem_cons.1 hm
      · cases hd
      · exact absurd (List.mem_takeWhile_imp hd) (by decide)
    · cases h

/-- Apart from comments and blanks, only a quoted literal may go over several lines. -/
theorem newline_not_mem_or_quoted (h : firstLexeme c s = .ok (l, rest)) (hb : isBlank c = false)
    (hc : c = '/' → s.head? ≠ some '/' ∧ s.head? ≠ some '*') :
    '\n' ∉ l.chars ∨ ∃ kind, kind.isQuoted = true ∧ l = .plain kind l.chars := by
  have hblank (hl : ∀ d ∈ l.chars, isBlank d = false) : '\n' ∉ l.chars := fun hm =>
    absurd (hl _ hm) (by decide)
  replace h := cutOff_of_firstLexeme h
  generalize ht : c :: s = text at h
  cases h with
  | blanks hc =>
    cases ht
    rw [hb] at hc
    cases hc
  | lineComment =>
    cases ht
    exact absurd rfl (hc rfl).1
  | blockComment =>
    cases ht
    exact absurd rfl (hc rfl).2
  | quoted ho h =>
    obtain ⟨chars, rfl⟩ := quotedLiteral_kind h
    exact .inr ⟨_, ho.isQuoted, rfl⟩
  | raw ho h =>
    obtain ⟨chars, rfl⟩ := rawLiteral_kind h
    exact .inr ⟨_, ho.isQuoted, rfl⟩
  | rawWord _ h => exact .inl (hblank fun d => isBlank_of_mem_rawWord h)
  | letter _ _ _ h | word _ _ h => exact .inl (hblank fun d => isBlank_of_mem_word h)
  | charOrLifetime h => exact (charOrLifetime_newline h).imp_right fun hl => ⟨.char, rfl, hl⟩
  | number _ h => exact .inl (hblank fun d => isBlank_of_mem_number h)
  | mark _ h _ => exact .inl (hblank fun d => isBlank_of_mem_mark (mark?_eq_some h).1)

/-! ## Comments -/

theorem head?_crlf {d : Char} (hn : d ≠ '\n') (hr : d ≠ '\r') :
    (crlf s).head? = some d ↔ s.head? = some d := by
  cases s with
  | nil => rfl
  | cons c s =>
    by_cases hc : c = '\n'
    · subst hc
      simp [Ne.symm hn, Ne.symm hr]
    · rw [crlf_cons hc]
      rfl

theorem closeComment_crlf {depth : Nat} (h : closeComment depth s = some (body, rest)) :
    closeComment depth (crlf s) = some (crlf body, crlf rest) := by
  fun_induction closeComment depth s generalizing body rest with
  | case1 => cases h
  | case2 depth s ih =>
    obtain ⟨r, hr, hb⟩ := Option.map_eq_some_iff.1 h
    cases hb
    simp only [crlf_cons (c := '/') (by decide), crlf_cons (c := '*') (by decide), closeComment,
      ih hr, Option.map_some]
  | case3 s =>
    cases h
    simp only [crlf_cons (c := '/') (by decide), crlf_cons (c := '*') (by decide), closeComment,
      crlf_nil]
  | case4 depth s ih =>
    obtain ⟨r, hr, hb⟩ := Option.map_eq_some_iff.1 h
    cases hb
    simp only [crlf_cons (c := '/') (by decide), crlf_cons (c := '*') (by decide), closeComment,
      ih hr, Option.map_some]
  | case5 depth c s ho hz hn ih =>
    obtain ⟨r, hr, hb⟩ := Option.map_eq_some_iff.1 h
    cases hb
    by_cases hc : c = '\n'
    · subst hc
      rw [crlf_newline, closeComment_char (by simp) (by simp),
        closeComment_char (by simp) (by simp), ih hr]
      rfl
    · rw [crlf_cons hc, crlf_cons hc, closeComment_char, ih hr]
      · rfl
      · intro hd he
        obtain ⟨t, rfl⟩ := List.head?_eq_some_iff.1 ((head?_crlf (by decide) (by decide)).1 he)
        exact ho t hd rfl
      · intro hd he
        obtain ⟨t, rfl⟩ := List.head?_eq_some_iff.1 ((head?_crlf (by decide) (by decide)).1 he)
        cases depth with
        | zero => exact hz t rfl hd rfl
        | succ n => exact hn n t rfl hd rfl

theorem blockDoc?_crlf (body : List Char) : blockDoc? (crlf body) =
    (blockDoc? body).map fun d => (d.1, withReturns d.2) := by
  fun_cases blockDoc? body with
  | case1 text => rfl
  | case2 c text hc =>
    rw [crlf_cons (by decide), Option.map_some, withReturns, String.toList_ofList]
    by_cases hn : c = '\n'
    · subst hn
      rfl
    · rw [crlf_cons hn, blockDoc?, if_neg hc]
  | case3 text =>
    rw [crlf_cons (by decide), Option.map_some, withReturns, String.toList_ofList]
    rfl
  | case4 body ho hi =>
    cases body with
    | nil => rfl
    | cons c body =>
      by_cases hn : c = '\n'
      · subst hn
        rfl
      · rw [crlf_cons hn, blockDoc?]
        · rfl
        · intro d t h
          obtain ⟨rfl, h⟩ := List.cons.inj h
          cases body with
          | nil => cases h
          | cons e body => exact ho e body rfl
        · intro t h
          obtain ⟨rfl, -⟩ := List.cons.inj h
          exact hi body rfl

theorem lineDoc?_return (body : List Char) : lineDoc? (body ++ ['\r']) = lineDoc? body := by
  have hh (text : List Char) : (text ++ ['\r']).head? = some '/' ↔ text.head? = some '/' := by
    cases text <;> simp
  fun_cases lineDoc? body with
  | case1 text ht => rw [List.cons_append, lineDoc?, if_pos ((hh text).2 ht)]
  | case2 text ht =>
    rw [List.cons_append, lineDoc?, if_neg (mt (hh text).1 ht), dropEndWhile_concat,
      if_pos (by decide)]
  | case3 text => rw [List.cons_append, lineDoc?, dropEndWhile_concat, if_pos (by decide)]
  | case4 body ho hi =>
    cases body with
    | nil => rfl
    | cons c body =>
      rw [List.cons_append, lineDoc?]
      · rintro t h
        exact ho body (by rw [(List.cons.inj h).1])
      · rintro t h
        exact hi body (by rw [(List.cons.inj h).1])

/-! ## Tokens -/

/-- Tokens that are the same, or doc comments that end their lines in the two ways. -/
inductive Token.Reflowed : Token → Token → Prop where
  | same (t : Token) : Reflowed t t
  | doc (style : DocStyle) {x : String} (p : Position) (hx : '\r' ∉ x.toList) :
    Reflowed ⟨.doc style, x, p⟩ ⟨.doc style, withReturns x, p⟩

theorem reflowed_refl (ts : List Token) : List.Forall₂ Token.Reflowed ts ts :=
  List.forall₂_same.2 fun t _ => .same t

theorem blockComment_crlf (hs : '\r' ∉ s) (h : blockComment s = .ok (l, rest)) :
    ∃ l', blockComment (crlf s) = .ok (l', crlf rest) ∧
      (∀ p : Position, p.after l'.chars = p.after l.chars) ∧
      ∀ p, List.Forall₂ Token.Reflowed (l.token? p).toList (l'.token? p).toList := by
  unfold blockComment at h
  split at h
  · cases h
  next body _ hbody =>
  cases h
  refine ⟨⟨'/' :: '*' :: (crlf body ++ ['*', '/']), blockDoc? (crlf body)⟩, ?_, ?_, ?_⟩
  · rw [blockComment, closeComment_crlf hbody]
  · intro p
    simp only [Position.after_cons, Position.after_append, Position.after_crlf]
  · intro p
    simp only [Lexeme.token?, blockDoc?_crlf]
    cases hd : blockDoc? body with
    | none => exact .nil
    | some d =>
      obtain ⟨kind, x⟩ := d
      obtain ⟨style, text, rfl, hm, rfl⟩ := blockDoc?_eq_some hd
      have hx : '\r' ∉ text := by
        rw [← closeComment_append hbody, List.mem_append] at hs
        exact fun ht => hs (.inl (hm.suffix.subset ht))
      exact .cons (.doc style p (by simpa using hx)) .nil

/-- The first lexeme of a text that is no comment up to the end of its line. -/
theorem firstLexeme_crlf (hs : '\r' ∉ s) (h : firstLexeme c s = .ok (l, rest))
    (hb : isBlank c = false) (hc : c = '/' → s.head? ≠ some '/')
    (hq : ∀ kind, kind.isQuoted = true → l = .plain kind l.chars → '\n' ∉ l.chars) :
    ∃ l', firstLexeme c (crlf s) = .ok (l', crlf rest) ∧
      (∀ p : Position, p.after l'.chars = p.after l.chars) ∧
      ∀ p, List.Forall₂ Token.Reflowed (l.token? p).toList (l'.token? p).toList := by
  by_cases hbc : c = '/' ∧ s.head? = some '*'
  · obtain ⟨rfl, hs'⟩ := hbc
    obtain ⟨t, rfl⟩ := List.head?_eq_some_iff.1 hs'
    rw [crlf_cons (by decide)]
    exact blockComment_crlf (fun ht => hs (.tail _ ht)) h
  · have hline : '\n' ∉ l.chars := by
      obtain hl | ⟨kind, hk, hl⟩ := newline_not_mem_or_quoted h hb fun hd =>
        ⟨hc hd, fun hs => hbc ⟨hd, hs⟩⟩
      · exact hl
      · exact hq kind hk hl
    obtain ⟨x, hl, rfl⟩ := firstLexeme_chars h
    rw [hl, List.mem_cons, not_or] at hline
    refine ⟨l, ?_, fun _ => rfl, fun p => reflowed_refl _⟩
    rw [crlf_append, crlf_of_not_mem hline.2]
    exact firstLexeme_near (near_crlf 3 rest) hb hc h

/-- A comment up to the end of its line says the same, and ends at the same place. -/
theorem tokensFrom_lineComment_crlf (hb : '\n' ∉ body) (hr : rest.head?.all (· == '\n') = true)
    (p : Position) : tokensFrom p (crlf ('/' :: '/' :: (body ++ rest))) =
      (tokensFrom (p.after ('/' :: '/' :: body)) (crlf rest)).map
        ((Lexeme.token? ⟨'/' :: '/' :: body, lineDoc? body⟩ p).toList ++ ·) := by
  rw [crlf_cons (by decide), crlf_cons (by decide), crlf_append, crlf_of_not_mem hb]
  cases rest with
  | nil =>
    exact tokensFrom_cut (firstLexeme_line_cut hb hr) p
  | cons c rest =>
    obtain rfl : c = '\n' := by simpa using hr
    have hb' : '\n' ∉ body ++ ['\r'] := by simpa using hb
    have hn : ('\n' :: crlf rest).head?.all (· == '\n') = true := rfl
    have hl := firstLexeme_line_cut hb' hn
    rw [lineDoc?_return, List.append_assoc] at hl
    refine (tokensFrom_cut hl p).trans ?_
    have hp : p.after ('/' :: '/' :: (body ++ ['\r'])) =
        (p.after ('/' :: '/' :: body)).next '\r' := by
      rw [← List.cons_append, ← List.cons_append, Position.after_append]
      rfl
    rw [crlf_newline, tokensFrom_blank (c := '\r') (by decide), ← hp]
    rfl

/-- A lexeme is cut off from the text with the other ends of lines, too, with what it leaves. -/
theorem tokensFrom_cut_crlf (hs : '\r' ∉ s) (hb : isBlank c = false)
    (hf : firstLexeme c s = .ok (l, rest)) (p : Position)
    (hq : ∀ t ∈ l.token? p, t.kind.isQuoted = true → '\n' ∉ t.text.toList) :
    ∃ cut, List.Forall₂ Token.Reflowed (l.token? p).toList cut ∧
      tokensFrom p (crlf (c :: s)) =
        (tokensFrom (p.after l.chars) (crlf rest)).map (cut ++ ·) := by
  by_cases hline : c = '/' ∧ s.head? = some '/'
  · obtain ⟨rfl, hh⟩ := hline
    obtain ⟨t, rfl⟩ := List.head?_eq_some_iff.1 hh
    obtain ⟨body, rest', rfl, hbody, hr⟩ := exists_line t
    have hcut := firstLexeme_line_cut hbody hr
    rw [hf] at hcut
    obtain ⟨rfl, rfl⟩ := Prod.mk.inj (Except.ok.inj hcut)
    exact ⟨_, reflowed_refl _, tokensFrom_lineComment_crlf hbody hr p⟩
  · have hquoted (kind : Kind) (hk : kind.isQuoted = true) (hkind : l = .plain kind l.chars) :
        '\n' ∉ l.chars := by
      have htok : l.token? p = some ⟨kind, String.ofList l.chars, p⟩ := by
        rw [hkind]
        rfl
      have hm := hq _ htok hk
      rwa [String.toList_ofList] at hm
    obtain ⟨l', hf', hp, htok⟩ := firstLexeme_crlf hs hf hb (fun hc hd => hline ⟨hc, hd⟩) hquoted
    refine ⟨_, htok p, ?_⟩
    have hc : c ≠ '\n' := by
      rintro rfl
      cases hb
    rw [crlf_cons hc, tokensFrom_cut hf', hp]

/-- A text has the same tokens if its lines end in the other way. -/
theorem tokensFrom_crlf (hs : '\r' ∉ s) (h : tokensFrom p s = .ok ts)
    (hq : ∀ t ∈ ts, t.kind.isQuoted = true → '\n' ∉ t.text.toList) :
    ∃ us, tokensFrom p (crlf s) = .ok us ∧ List.Forall₂ Token.Reflowed ts us := by
  refine tokensFrom_induction (fun p s ts => '\r' ∉ s →
    (∀ t ∈ ts, t.kind.isQuoted = true → '\n' ∉ t.text.toList) →
      ∃ us, tokensFrom p (crlf s) = .ok us ∧ List.Forall₂ Token.Reflowed ts us) ?_ ?_ ?_ h hs hq
  · exact fun p _ _ => ⟨[], tokensFrom_nil p, .nil⟩
  · intro p c s ts hc ih hs hq
    obtain ⟨us, hus, hall⟩ := ih (fun hm => hs (.tail _ hm)) hq
    refine ⟨us, ?_, hall⟩
    by_cases hl : c = '\n'
    · subst hl
      rw [crlf_newline, tokensFrom_blank (by decide), tokensFrom_blank (by decide)]
      exact hus
    · rw [crlf_cons hl, tokensFrom_blank hc, hus]
  · intro p c s l rest ts hc hf happ ih hs hq
    rw [List.forall_mem_append] at hq
    have hrest : '\r' ∉ rest := fun hm => hs (happ ▸ List.mem_append_right _ hm)
    obtain ⟨cut, hcut, ht⟩ := tokensFrom_cut_crlf (fun hm => hs (.tail _ hm)) hc hf p
      (by simpa using hq.1)
    obtain ⟨us, hus, hall⟩ := ih hrest hq.2
    exact ⟨cut ++ us, by rw [ht, hus]; rfl, List.rel_append hcut hall⟩

/-! ## Whole texts -/

theorem crlf_eq_cons {d : Char} (hn : d ≠ '\n') (hr : d ≠ '\r') (h : crlf s = d :: t) :
    ∃ s', s = d :: s' ∧ crlf s' = t := by
  have hh : (crlf s).head? = some d := by rw [h]; rfl
  obtain ⟨s', rfl⟩ := List.head?_eq_some_iff.1 ((head?_crlf hn hr).1 hh)
  rw [crlf_cons hn] at h
  exact ⟨s', rfl, (List.cons.inj h).2⟩

/-- An interpreter line is the first line, unless it may be an attribute. -/
theorem shebang_cut (ht : (s.dropWhile isBlank).head? ≠ some '[') (hs : s = body ++ rest)
    (hb : '\n' ∉ body) (hr : rest.head?.all (· == '\n') = true) :
    shebang ('#' :: '!' :: s) = '#' :: '!' :: body := by
  have hb' : '\n' ∉ '#' :: '!' :: body := by simpa using hb
  rw [shebang, if_neg ht, hs, ← List.cons_append, ← List.cons_append, (takeWhile_line hb' hr).1]

theorem shebang_of_forall (h : ∀ t, s = '#' :: '!' :: t → (t.dropWhile isBlank).head? = some '[') :
    shebang s = [] := by
  unfold shebang
  split
  · next t => rw [if_pos (h t rfl)]
  · rfl

/-- Behind an interpreter line the tokens are the same, too. -/
theorem tokensFrom_shebang_crlf (s : List Char) :
    tokensFrom (Position.start.after (shebang (crlf s)))
        ((crlf s).drop (shebang (crlf s)).length) =
      tokensFrom (Position.start.after (shebang s)) (crlf (s.drop (shebang s).length)) := by
  have hhead (t : List Char) : ((crlf t).dropWhile isBlank).head? = some '[' ↔
      (t.dropWhile isBlank).head? = some '[' := by
    rw [dropWhile_crlf, head?_crlf (by decide) (by decide)]
  by_cases h : ∀ t, s = '#' :: '!' :: t → (t.dropWhile isBlank).head? = some '['
  · have h' : shebang (crlf s) = [] := by
      apply shebang_of_forall
      intro t ht
      obtain ⟨v, rfl, hv⟩ := crlf_eq_cons (by decide) (by decide) ht
      obtain ⟨u, rfl, rfl⟩ := crlf_eq_cons (by decide) (by decide) hv
      exact (hhead u).2 (h u rfl)
    rw [shebang_of_forall h, h']
    rfl
  · push Not at h
    obtain ⟨t, rfl, ht⟩ := h
    have ht' : ((crlf t).dropWhile isBlank).head? ≠ some '[' := mt (hhead t).1 ht
    obtain ⟨body, rest, rfl, hb, hr⟩ := exists_line t
    rw [shebang_cut ht rfl hb hr, crlf_cons (by decide), crlf_cons (by decide)]
    rw [crlf_append, crlf_of_not_mem hb] at ht' ⊢
    have hdrop (line rest : List Char) :
        ('#' :: '!' :: (line ++ rest)).drop ('#' :: '!' :: line).length = rest := by simp
    rw [hdrop]
    cases rest with
    | nil => rw [shebang_cut ht' rfl hb hr, hdrop]
    | cons c rest =>
      obtain rfl : c = '\n' := by simpa using hr
      have hp : Position.start.after ('#' :: '!' :: (body ++ ['\r'])) =
          (Position.start.after ('#' :: '!' :: body)).next '\r' := by
        rw [← List.cons_append, ← List.cons_append, Position.after_append]
        rfl
      have hcut : body ++ crlf ('\n' :: rest) = (body ++ ['\r']) ++ '\n' :: crlf rest := by simp
      rw [hcut] at ht' ⊢
      rw [shebang_cut ht' rfl (by simpa using hb) rfl, hdrop, hp, ← tokensFrom_blank (by decide),
        crlf_newline]

/-- A text has the same tokens if its lines end in the other way, and ends at the same place. -/
theorem tokenize_withReturns {source : String} {tokens : Tokens} (hs : '\r' ∉ source.toList)
    (h : tokenize source = .ok tokens)
    (hq : ∀ t ∈ tokens.list, t.kind.isQuoted = true → '\n' ∉ t.text.toList) :
    ∃ tokens', tokenize (withReturns source) = .ok tokens' ∧ tokens'.finish = tokens.finish ∧
      List.Forall₂ Token.Reflowed tokens.list tokens'.list := by
  obtain ⟨ht, hf⟩ := tokenize_eq_ok.1 h
  have hs : '\r' ∉ source.toList.drop (shebang source.toList).length := fun hm =>
    hs (List.mem_of_mem_drop hm)
  obtain ⟨us, hus, hall⟩ := tokensFrom_crlf hs ht hq
  refine ⟨⟨us, tokens.finish⟩, tokenize_eq_ok.2 ⟨?_, ?_⟩, rfl, hall⟩
  · rw [withReturns, String.toList_ofList, tokensFrom_shebang_crlf, hus]
  · rw [withReturns, String.toList_ofList, Position.after_crlf, hf]

end Ferrotype
