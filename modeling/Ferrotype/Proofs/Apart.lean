import Ferrotype.Proofs.Token.Join

/-!
# Tokens written apart

The tokens of a text are those of its token texts, written in order with blanks and comments
between each two. What a token is never depends on what stood around it.
-/

namespace Ferrotype

open Text

variable {c : Char} {s t u rest : List Char} {kind : Kind} {p : Position} {ts : List Token}

/-! ## Texts between tokens -/

/-- Blanks and comments that are no doc comments; a comment on a line has the end of its line. -/
inductive Filler : List Char → Prop where
  | nil : Filler []
  | blank {c : Char} {s : List Char} (hc : isBlank c = true) (h : Filler s) : Filler (c :: s)
  | lineComment {t s : List Char} (ht : IsLineComment t) (h : Filler s) : Filler (t ++ '\n' :: s)
  | blockComment {t s : List Char} (ht : IsBlockComment t) (h : Filler s) : Filler (t ++ s)

/-- A text that may stand between two tokens, whatever these are. -/
inductive Separator : List Char → Prop where
  | blank {c : Char} {s : List Char} (hc : isBlank c = true) (h : Filler s) : Separator (c :: s)

/-- Texts that are written in order, with a separator before each but the first. -/
inductive WrittenApart : List String → List Char → Prop where
  | nil : WrittenApart [] []
  | one {text : String} : WrittenApart [text] text.toList
  | more {text next : String} {texts : List String} {sep s : List Char} (hs : Separator sep)
    (h : WrittenApart (next :: texts) s) :
    WrittenApart (text :: next :: texts) (text.toList ++ (sep ++ s))

theorem firstLexeme_lineComment (ht : IsLineComment t) (u : List Char) :
    ∃ body, t = '/' :: body ∧ firstLexeme '/' (body ++ '\n' :: u) = .ok (.skipped t, '\n' :: u) := by
  obtain ⟨body, rfl, hn, hm⟩ := ht
  refine ⟨'/' :: body, rfl, ?_⟩
  rw [List.cons_append, firstLexeme_line_cut hn rfl, lineDoc?_eq_none.2 hm]
  rfl

theorem firstLexeme_blockComment (ht : IsBlockComment t) (u : List Char) :
    ∃ body, t = '/' :: body ∧ firstLexeme '/' (body ++ u) = .ok (.skipped t, u) := by
  obtain ⟨body, rfl, hi, hm⟩ := ht
  obtain ⟨body', he, hc⟩ := hi.closeComment_zero
  obtain rfl := List.append_cancel_right he
  refine ⟨'*' :: (body ++ ['*', '/']), rfl, ?_⟩
  change blockComment (body ++ ['*', '/'] ++ u) = _
  rw [blockComment, hc]
  simp only [blockDoc?_eq_none.2 hm]
  rfl

theorem tokensFrom_skipped (h : firstLexeme c s = .ok (.skipped t, rest)) (p : Position) :
    tokensFrom p (c :: s) = tokensFrom (p.after t) rest := by
  rw [tokensFrom_cut h]
  change (tokensFrom (p.after t) rest).map ([] ++ ·) = _
  cases tokensFrom (p.after t) rest <;> rfl

/-- Behind a text between tokens the tokens are those of what follows. -/
theorem Filler.tokensFrom (h : Filler s) (p : Position) (u : List Char) :
    ∃ q, tokensFrom p (s ++ u) = tokensFrom q u := by
  induction h generalizing p with
  | nil => exact ⟨p, rfl⟩
  | blank hc h ih =>
    obtain ⟨q, hq⟩ := ih (p.next _)
    exact ⟨q, by rw [List.cons_append, tokensFrom_blank hc, hq]⟩
  | @lineComment t s ht h ih =>
    obtain ⟨body, rfl, hf⟩ := firstLexeme_lineComment ht (s ++ u)
    obtain ⟨q, hq⟩ := ih ((p.after ('/' :: body)).next '\n')
    refine ⟨q, ?_⟩
    rw [List.append_assoc, List.cons_append, List.cons_append, tokensFrom_skipped hf,
      tokensFrom_blank (by decide), hq]
  | @blockComment t s ht h ih =>
    obtain ⟨body, rfl, hf⟩ := firstLexeme_blockComment ht (s ++ u)
    obtain ⟨q, hq⟩ := ih (p.after ('/' :: body))
    exact ⟨q, by rw [List.append_assoc, List.cons_append, tokensFrom_skipped hf, hq]⟩

/-! ## Tokens behind tokens -/

/-- The tokens that texts have, without their places. -/
def Token.value (t : Token) : Kind × String := (t.kind, t.text)

theorem readsAlone_of_mem (h : tokensFrom p s = .ok ts) :
    ∀ tk ∈ ts, tk.Plain → ReadsAlone tk.kind tk.text.toList := by
  refine tokensFrom_induction (fun _ _ ts => ∀ tk ∈ ts, tk.Plain →
    ReadsAlone tk.kind tk.text.toList) ?_ ?_ ?_ h
  · simp
  · exact fun _ _ _ _ _ ih => ih
  · intro p c s l rest ts _ hf _ ih
    rw [List.forall_mem_append]
    refine ⟨fun tk ht hp => readsAlone_of_firstLexeme hf ?_ hp, ih⟩
    obtain ⟨v, hv, rfl⟩ : ∃ v, l.token = some v ∧ (⟨v.1, v.2, p⟩ : Token) = tk := by
      simpa [Lexeme.token?] using ht
    exact hv

theorem readsAlone_of_tokensFrom (h : tokensFrom p s = .ok ts) (hp : ∀ tk ∈ ts, tk.Plain) :
    ∀ tk ∈ ts, ReadsAlone tk.kind tk.text.toList :=
  fun tk ht => readsAlone_of_mem h tk ht (hp tk ht)

/-- Two slashes start no token but a doc comment. -/
theorem ReadsAlone.not_slashes (hk : ∀ style, kind ≠ .doc style) (h : ReadsAlone kind ('/' :: s))
    (t : List Char) : s ≠ '/' :: t := by
  rintro rfl
  obtain ⟨c, t', ht, -, hf⟩ := h
  cases ht
  have hd : lineDoc? (t.takeWhile (· ≠ '\n')) = some (kind, String.ofList ('/' :: '/' :: t)) :=
    congrArg (fun r => r.1.token) (Except.ok.inj hf)
  obtain ⟨style, -, hs, -⟩ := lineDoc?_eq_some hd
  exact hk style hs

theorem ReadsAlone.tokensFrom_last {text : String} (h : ReadsAlone kind text.toList)
    (p : Position) : tokensFrom p text.toList = .ok [⟨kind, text, p⟩] := by
  obtain ⟨c, t, ht, -, hf⟩ := h
  rw [ht] at hf ⊢
  rw [tokensFrom_cut hf, tokensFrom_nil]
  simp [Lexeme.plain, Lexeme.token?, Except.map, ← ht]

/-- A separator ends a token that is read alone. -/
theorem ReadsAlone.tokensFrom_more {text : String} (hk : ∀ style, kind ≠ .doc style)
    (h : ReadsAlone kind text.toList) (hs : Separator s) (p : Position) (u : List Char) :
    ∃ q, tokensFrom p (text.toList ++ (s ++ u)) = (tokensFrom q u).map (⟨kind, text, p⟩ :: ·) := by
  obtain ⟨c, t, ht, hb, hf⟩ := h
  cases hs with
  | @blank n s hn hs =>
    have hc : n ≠ '\n' → ∀ t', c = '/' → t ≠ '/' :: t' := by
      rintro - t' rfl
      exact ReadsAlone.not_slashes hk ⟨'/', t, rfl, hb, by rw [hf, ht]⟩ t'
    have hf := firstLexeme_break hn (by simp [hb]) hc (s ++ u) _ _ hf
    obtain ⟨q, hq⟩ := hs.tokensFrom ((p.after text.toList).next n) u
    refine ⟨q, ?_⟩
    rw [ht, List.cons_append, List.cons_append, tokensFrom_cut hf, ← hq]
    change (tokensFrom (p.after text.toList) (n :: (s ++ u))).map _ = _
    rw [tokensFrom_blank hn]
    simp [Lexeme.plain, Lexeme.token?]

theorem tokensFrom_writtenApart (hp : ∀ tk ∈ ts, tk.Plain)
    (hr : ∀ tk ∈ ts, ReadsAlone tk.kind tk.text.toList)
    (hw : WrittenApart (ts.map Token.text) u) (p : Position) :
    ∃ ts', tokensFrom p u = .ok ts' ∧ ts'.map Token.value = ts.map Token.value := by
  induction ts generalizing p u with
  | nil =>
    cases hw
    exact ⟨[], tokensFrom_nil p, rfl⟩
  | cons tk ts ih =>
    rw [List.forall_mem_cons] at hp hr
    cases ts with
    | nil =>
      cases hw
      exact ⟨_, hr.1.tokensFrom_last p, rfl⟩
    | cons tk' ts =>
      cases hw with
      | more hs hw =>
        obtain ⟨q, hq⟩ := hr.1.tokensFrom_more hp.1.text hs p _
        obtain ⟨ts', ht, hv⟩ := ih hp.2 hr.2 hw q
        refine ⟨⟨tk.kind, tk.text, p⟩ :: ts', by rw [hq, ht]; rfl, ?_⟩
        rw [List.map_cons, hv]
        rfl

/-! ## Whole texts -/

theorem firstLexeme_pound (s : List Char) :
    firstLexeme '#' s = .ok (.plain (.punct .pound) ['#'], s) := by
  have hm : mark? ('#' :: s) = some (.punct .pound, ['#']) := rfl
  have ho : opensLexeme '#' s = false := by cases s <;> rfl
  exact firstLexeme_eq_ok.2 (.mark ho hm rfl)

/-- A token alone is no interpreter line, and no blank behind it makes it one. -/
theorem shebang_of_readsAlone (h : ReadsAlone kind t) (hu : ∀ c ∈ u.head?, isBlank c = true) :
    shebang (t ++ u) = [] := by
  obtain ⟨c, t, rfl, hb, hf⟩ := h
  unfold shebang
  split
  · next v hv =>
    obtain ⟨rfl, hv⟩ := List.cons.inj hv
    rw [firstLexeme_pound] at hf
    obtain ⟨-, rfl⟩ : _ ∧ t = [] := by simpa using hf
    obtain rfl : u = '!' :: v := by simpa using hv
    exact absurd (hu '!' rfl) (by decide)
  · rfl

theorem shebang_writtenApart (hr : ∀ tk ∈ ts, ReadsAlone tk.kind tk.text.toList)
    (hw : WrittenApart (ts.map Token.text) u) : shebang u = [] := by
  cases ts with
  | nil =>
    cases hw
    rfl
  | cons tk ts =>
    have ha := hr tk (by simp)
    cases ts with
    | nil =>
      cases hw
      simpa using shebang_of_readsAlone (u := []) ha (by simp)
    | cons tk' ts =>
      cases hw with
      | more hs hw =>
        refine shebang_of_readsAlone ha ?_
        cases hs with
        | blank hc => simpa using hc

/--
The token texts of a text, written apart, have the same tokens. A doc comment, a name that only
`r#` lets be one, and two quotes that are taken for a character are not written as their texts.
-/
theorem tokenize_writtenApart {source text : String} {tokens : Tokens}
    (h : tokenize source = .ok tokens) (hp : ∀ tk ∈ tokens.list, tk.Plain)
    (hw : WrittenApart (tokens.list.map Token.text) text.toList) :
    ∃ tokens', tokenize text = .ok tokens' ∧
      tokens'.list.map Token.value = tokens.list.map Token.value := by
  have hr := readsAlone_of_tokensFrom (tokenize_eq_ok.1 h).1 hp
  obtain ⟨list, ht, hv⟩ := tokensFrom_writtenApart hp hr hw .start
  refine ⟨⟨list, Position.start.after text.toList⟩, tokenize_eq_ok.2 ⟨?_, rfl⟩, hv⟩
  rw [shebang_writtenApart hr hw]
  exact ht

/-- A range up to a name behind `r#`, and the same with comments in it and without `r#`. -/
theorem tokenize_writtenApart_range :
    ∃ tokens, tokenize "0..r#a" = .ok tokens ∧ (∀ tk ∈ tokens.list, tk.Plain) ∧
      WrittenApart (tokens.list.map Token.text) "0 /*.*/.. //\na".toList ∧
      ∃ tokens', tokenize "0 /*.*/.. //\na" = .ok tokens' ∧
        tokens'.list.map Token.value = tokens.list.map Token.value := by
  have ht : tokenize "0..r#a" = .ok ⟨[⟨.int, "0", ⟨1, 1⟩⟩, ⟨.punct .dotDot, "..", ⟨1, 2⟩⟩,
      ⟨.identifier, "a", ⟨1, 4⟩⟩], ⟨1, 7⟩⟩ := by
    decide +kernel
  have hp : ∀ tk ∈ [(⟨.int, "0", ⟨1, 1⟩⟩ : Token), ⟨.punct .dotDot, "..", ⟨1, 2⟩⟩,
      ⟨.identifier, "a", ⟨1, 4⟩⟩], tk.Plain := by
    simp only [List.forall_mem_cons, List.not_mem_nil, false_implies, implies_true, and_true]
    refine ⟨⟨by simp, by simp, by simp⟩, ⟨by simp, by simp, by simp⟩,
      ⟨by simp, fun _ => ⟨by decide, fun k => ?_⟩, by simp⟩⟩
    cases k <;> decide
  have hb : IsBlockComment ['/', '*', '.', '*', '/'] :=
    ⟨['.'], rfl, .char (by simp) (by simp) .close, by rintro _ _ ⟨⟩⟩
  have hl : IsLineComment ['/', '/'] := ⟨[], rfl, by simp, by rintro _ _ ⟨⟩⟩
  have hw : WrittenApart ["0", "..", "a"] "0 /*.*/.. //\na".toList :=
    .more (.blank (by decide) (.blockComment hb .nil))
      (.more (.blank (by decide) (.lineComment hl .nil)) .one)
  exact ⟨_, ht, hp, hw, tokenize_writtenApart ht hp hw⟩

end Ferrotype
