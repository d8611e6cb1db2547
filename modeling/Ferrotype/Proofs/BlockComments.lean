import Ferrotype.Proofs.DocText
import Ferrotype.Proofs.Partition

/-!
# Comments in comments

Where `/*` stands in front of the lexer it takes a comment with all comments in it, no more and no
less. There is one such comment at most, and without one the text is refused at the `/*`.
-/

namespace Ferrotype

open Text

variable {s t t' u body rest : List Char} {token : Option (Kind × String)}

/-! ## What a comment is -/

/-- A comment from its `/*` to its `*/`. In between are characters and whole comments. -/
def IsComment (s : List Char) : Prop := ∃ t, s = '/' :: '*' :: t ∧ Inside t

/--
The token of a comment with the text `body` between its delimiters, if the source goes on with `s`
behind its `/*`. Only the mark of a doc comment is left out of its text.
-/
inductive CommentToken (s body : List Char) : Option (Kind × String) → Prop where
  | outer {c : Char} {u text : List Char} (hs : s = '*' :: c :: u) (hc : c ≠ '*' ∧ c ≠ '/')
    (hb : body = '*' :: text) : CommentToken s body (some (.doc .outer, String.ofList text))
  | inner {u text : List Char} (hs : s = '!' :: u) (hb : body = '!' :: text) :
    CommentToken s body (some (.doc .inner, String.ofList text))
  | plain (ho : ∀ c u, s = '*' :: c :: u → c = '*' ∨ c = '/') (hi : s.head? ≠ some '!') :
    CommentToken s body none

/-! ## One comment at most -/

theorem Inside.prefix_unique (ht : Inside t) (ht' : Inside t') (hp : t <+: s) (hp' : t' <+: s) :
    t = t' := by
  obtain ⟨u, rfl⟩ := hp
  obtain ⟨u', hu⟩ := hp'
  obtain ⟨body, -, h⟩ := ht.closeComment_zero
  obtain ⟨body', -, h'⟩ := ht'.closeComment_zero
  have he := h u
  rw [← hu, h'] at he
  cases he
  exact (List.append_cancel_right hu).symm

theorem IsComment.prefix_unique (ht : IsComment t) (ht' : IsComment t') (hp : t <+: s)
    (hp' : t' <+: s) : t = t' := by
  obtain ⟨i, rfl, hi⟩ := ht
  obtain ⟨i', rfl, hi'⟩ := ht'
  obtain ⟨u, rfl⟩ := hp
  simp only [List.cons_append, List.cons_prefix_cons, true_and] at hp'
  rw [hi.prefix_unique hi' (List.prefix_append _ _) hp']

/-- A comment that is closed starts the text. -/
theorem closeComment_isComment (h : closeComment 0 s = some (body, rest)) :
    IsComment ('/' :: '*' :: (body ++ ['*', '/'])) := by
  obtain ⟨t, ts, hl, hf, ht, -⟩ := closeComment_inside h
  obtain rfl := List.length_eq_zero_iff.1 hl
  rw [List.flatten_nil, List.append_nil] at hf
  exact ⟨_, rfl, hf ▸ ht⟩

theorem closeComment_eq_none :
    closeComment 0 s = none ↔ ∀ t, IsComment t → ¬t <+: '/' :: '*' :: s := by
  constructor
  · rintro h _ ⟨t, rfl, ht⟩ ⟨u, hu⟩
    simp only [List.cons_append, List.cons.injEq, true_and] at hu
    obtain ⟨body, -, hc⟩ := ht.closeComment_zero
    rw [← hu, hc] at h
    cases h
  · intro h
    cases hc : closeComment 0 s with
    | none => rfl
    | some r =>
      refine absurd ⟨r.2, ?_⟩ (h _ (closeComment_isComment hc))
      simp [← closeComment_append hc]

/-! ## What it says -/

/-- The mark is read off the text between the delimiters, or off the source behind `/*`. -/
theorem commentToken_blockDoc? (hi : Inside (body ++ ['*', '/'])) (rest : List Char) :
    CommentToken (body ++ '*' :: '/' :: rest) body (blockDoc? body) := by
  cases body with
  | nil => exact .plain (by rintro c u ⟨⟩; exact .inr rfl) (by simp)
  | cons c text =>
    by_cases hs : c = '*'
    · subst hs
      cases text with
      | nil => exact .plain (by rintro c u ⟨⟩; exact .inl rfl) (by simp)
      | cons c text =>
        by_cases hc : c = '*'
        · subst hc
          exact .plain (by rintro d u ⟨⟩; exact .inl rfl) (by simp)
        · rw [blockDoc?, if_neg hc]
          refine .outer rfl ⟨hc, ?_⟩ rfl
          -- A star and a slash would have closed the comment.
          rintro rfl
          generalize hb : '*' :: '/' :: text ++ ['*', '/'] = b at hi
          cases hi with
          | close => simp at hb
          | char _ hs => cases hb; exact hs rfl rfl
          | nested => cases hb
    by_cases hm : c = '!'
    · subst hm
      exact .inner rfl rfl
    have hn : blockDoc? (c :: text) = none := by
      unfold blockDoc?
      split <;> simp_all
    rw [hn]
    exact .plain (fun d u h => absurd (List.cons.inj h).1 hs) (by simpa using hm)

theorem firstLexeme_comment (h : closeComment 0 s = some (body, rest)) :
    firstLexeme '/' ('*' :: s) =
      .ok (⟨'/' :: '*' :: (body ++ ['*', '/']), blockDoc? body⟩, rest) := by
  change blockComment s = _
  rw [blockComment, h]

theorem firstLexeme_openComment (h : closeComment 0 s = none) :
    firstLexeme '/' ('*' :: s) = .error .openComment := by
  change blockComment s = _
  rw [blockComment, h]

/-! ## Where it stands -/

/-- A fault at a place that the lexer comes to is a fault of the whole text. -/
theorem Reaches.tokenize_fault {source : String} {before : List Char} {c : Char} {fault : LexFault}
    (hr : Reaches (source.toList.drop (shebang source.toList).length) (c :: t))
    (hs : source.toList = before ++ c :: t) (hf : firstLexeme c t = .error fault) :
    tokenize source = .error ⟨.lexical fault, some (placeBehind before)⟩ := by
  obtain ⟨mid, hm, ht⟩ := hr.tokensFrom_swap
  obtain ⟨ts, ht⟩ := ht (Position.start.after (shebang source.toList))
  have hb : shebang source.toList ++ mid = before := by
    have he : shebang source.toList ++ mid ++ c :: t = before ++ c :: t := by
      rw [List.append_assoc, ← hm, ← hs, List.prefix_iff_eq_append.1 (prefix_shebang _)]
    exact List.append_cancel_right he
  have hp : (Position.start.after (shebang source.toList)).after mid = placeBehind before := by
    rw [← Position.after_append, hb]
    exact placeBehind_after [] before
  rw [tokenize_eq, hm, ht _ (.refl _ _) rfl, tokensFrom_fault hf, hp]
  rfl

/--
Where the lexer comes to `/*` it takes a comment just if one starts there. There is only one, all of
which it takes, and the text between the delimiters goes without its mark into the token. If none
starts there, it is refused at the `/*`.
-/
theorem tokenize_comment {source : String} {before s : List Char}
    (hs : source.toList = before ++ '/' :: '*' :: s)
    (hr : Reaches (source.toList.drop (shebang source.toList).length) ('/' :: '*' :: s)) :
    ((∃ l rest, firstLexeme '/' ('*' :: s) = .ok (l, rest)) ↔
      ∃ t, IsComment t ∧ t <+: '/' :: '*' :: s) ∧
    (∀ t rest, IsComment t → '/' :: '*' :: s = t ++ rest →
      (∀ t', IsComment t' → t' <+: '/' :: '*' :: s → t' = t) ∧
      ∃ body token, t = '/' :: '*' :: (body ++ ['*', '/']) ∧ CommentToken s body token ∧
        closeComment 0 s = some (body, rest) ∧
        firstLexeme '/' ('*' :: s) = .ok (⟨t, token⟩, rest)) ∧
    ((¬∃ t, IsComment t ∧ t <+: '/' :: '*' :: s) →
      firstLexeme '/' ('*' :: s) = .error .openComment ∧
      ∃ e, tokenize source = .error e ∧ e.cause.message = "unterminated block comment" ∧
        e.place = some (placeBehind before)) := by
  refine ⟨?_, fun t rest ht hp => ⟨fun t' ht' hp' => ?_, ?_⟩, fun hn => ?_⟩
  · cases hc : closeComment 0 s with
    | none =>
      rw [firstLexeme_openComment hc]
      simpa using closeComment_eq_none.1 hc
    | some r =>
      rw [firstLexeme_comment hc]
      refine iff_of_true ⟨_, _, rfl⟩ ⟨_, closeComment_isComment hc, r.2, ?_⟩
      simp [← closeComment_append hc]
  · exact ht'.prefix_unique ht hp' ⟨rest, hp.symm⟩
  · obtain ⟨t, rfl, hi⟩ := ht
    obtain ⟨body, rfl, hc⟩ := hi.closeComment_zero
    simp only [List.cons_append, List.cons.injEq, true_and] at hp
    have hc := hc rest
    rw [← hp] at hc
    refine ⟨body, blockDoc? body, rfl, ?_, hc, firstLexeme_comment hc⟩
    rw [hp, List.append_assoc]
    exact commentToken_blockDoc? hi rest
  · have hc : closeComment 0 s = none :=
      closeComment_eq_none.2 fun t ht hp => hn ⟨t, ht, hp⟩
    have hf := firstLexeme_openComment hc
    exact ⟨hf, _, hr.tokenize_fault hs hf, rfl, rfl⟩

/-- A slash behind `/*` is no end, and a star in front of `*/` stands alone. -/
theorem tokenize_comment_nested :
    (firstLexeme '/' "*/ /**/ **/ b".toList =
      .ok (⟨"/*/ /**/ **/".toList, none⟩, " b".toList)) ∧
    ∃ e, tokenize "a /* /* */" = .error e ∧ e.cause.message = "unterminated block comment" ∧
      e.place = some ⟨1, 3⟩ := by
  constructor
  · have hi : Inside "/ /**/ **/".toList :=
      .char (by decide) (by decide) (.char (by decide) (by decide)
        (.nested .close (.char (by decide) (by decide) (.char (by decide) (by decide) .close))))
    have hr : Reaches ("a /*/ /**/ **/ b".toList.drop (shebang "a /*/ /**/ **/ b".toList).length)
        "/*/ /**/ **/ b".toList := .step rfl (.step rfl (.refl _))
    have hs : "a /*/ /**/ **/ b".toList = "a ".toList ++ "/*/ /**/ **/ b".toList := rfl
    obtain ⟨-, h, -⟩ := tokenize_comment hs hr
    obtain ⟨-, body, token, hb, ht, -, hf⟩ := h _ " b".toList ⟨_, rfl, hi⟩ rfl
    cases ht with
    | outer hs => cases hs
    | inner hs => cases hs
    | plain => exact hf
  · have hr : Reaches ("a /* /* */".toList.drop (shebang "a /* /* */".toList).length)
        "/* /* */".toList := .step rfl (.step rfl (.refl _))
    have hs : "a /* /* */".toList = "a ".toList ++ "/* /* */".toList := rfl
    obtain ⟨-, -, h⟩ := tokenize_comment hs hr
    refine (h ?_).2
    rintro ⟨t, ht, hp⟩
    have hn : closeComment 0 " /* */".toList = none := by decide
    exact closeComment_eq_none.1 hn t ht hp

end Ferrotype
