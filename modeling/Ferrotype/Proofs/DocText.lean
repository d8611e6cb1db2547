import Ferrotype.Proofs.Reworded.Items
import Ferrotype.Proofs.Token.Spaced

/-!
# What comments say

Of two texts that differ in what one `///` comment says, both are files or neither is, and the trees
differ in copies of that text only. Where a binary operator may stand, a comment that spells one is
taken for it: such a comment says more than it should.
-/

namespace Ferrotype

open Text

variable {c : Char} {s t u u' v x a b after rest mid : List Char} {l : Lexeme} {p : Position}

/-! ## Up to a place -/

/-- The lexemes of a text come to an end in front of `rest`. -/
inductive Reaches : List Char → List Char → Prop where
  | refl (rest : List Char) : Reaches rest rest
  | step {c : Char} {t mid rest : List Char} {l : Lexeme} (h : firstLexeme c t = .ok (l, mid))
    (hr : Reaches mid rest) : Reaches (c :: t) rest

theorem head?_append_swap (hh : u.head? = u'.head?) (x : List Char) :
    (x ++ u).head? = (x ++ u').head? := by
  cases x with
  | nil => exact hh
  | cons => rfl

theorem takeWhile_within {q : Char → Bool} (hh : u.head? = v.head?)
    (h : (x ++ u).takeWhile q <+: x) : (x ++ v).takeWhile q = (x ++ u).takeWhile q := by
  obtain ⟨y, hy⟩ : ∃ y, (x ++ u).takeWhile q = y := ⟨_, rfl⟩
  rw [hy] at h ⊢
  obtain ⟨r, rfl⟩ := h
  have hd : (y ++ r ++ u).dropWhile q = r ++ u := by
    have happ := List.takeWhile_append_dropWhile (p := q) (l := y ++ r ++ u)
    rw [hy, List.append_assoc] at happ
    simpa using List.append_cancel_left happ
  rw [List.append_assoc] at hd ⊢
  exact (takeWhile_cut (by rw [head?_append_swap hh]) hd).2.1

/-- The first lexeme stays the same if what is behind it is changed further on. -/
theorem firstLexeme_swap (hn : Near 3 u u') (hh : u.head? = u'.head?)
    (h : firstLexeme c (x ++ u) = .ok (l, u)) : firstLexeme c (x ++ u') = .ok (l, u') := by
  by_cases hb : isBlank c = true
  · rw [firstLexeme_blank hb] at h
    obtain ⟨rfl, hr⟩ := Prod.mk.inj (Except.ok.inj h)
    obtain ⟨ht', ht, hd⟩ := takeWhile_cut (t := u') (by rw [hh]) hr
    rw [firstLexeme_blank hb, ht, hd, ht']
  by_cases hc : c = '/' ∧ (x ++ u).head? = some '/'
  · obtain ⟨rfl, hc⟩ := hc
    obtain ⟨happ, -⟩ := splits_firstLexeme _ _ _ _ h
    have hl : l.chars = '/' :: x := List.append_cancel_right happ
    obtain ⟨t, ht⟩ := List.head?_eq_some_iff.1 hc
    rw [ht, firstLexeme_line] at h
    obtain ⟨rfl, hr⟩ := Prod.mk.inj (Except.ok.inj h)
    obtain ⟨y, rfl⟩ : ∃ y, x = '/' :: y := ⟨_, (List.cons.inj hl).2.symm⟩
    obtain rfl : y ++ u = t := (List.cons.inj ht).2
    obtain ⟨ht', ht, hd⟩ := takeWhile_cut (t := u') (by rw [hh]) hr
    rw [List.cons_append, firstLexeme_line, lineComment, ht, hd, ht']
  · apply firstLexeme_near hn (by simpa using hb) _ h
    intro h1 h2
    exact hc ⟨h1, h2⟩

/-- The tokens in front of a place stay the same if what is behind it is changed further on. -/
theorem Reaches.tokensFrom_swap (h : Reaches s u) :
    ∃ before, s = before ++ u ∧ ∀ p, ∃ ts, ∀ v, Near 3 u v → u.head? = v.head? →
      tokensFrom p (before ++ v) = (tokensFrom (p.after before) v).map (ts ++ ·) := by
  induction h with
  | refl rest =>
    refine ⟨[], rfl, fun p => ⟨[], fun v _ _ => ?_⟩⟩
    rw [List.nil_append, Position.after_nil]
    cases tokensFrom p v <;> rfl
  | @step c t mid rest l hf hr ih =>
    obtain ⟨before, rfl, ih⟩ := ih
    obtain ⟨x, hl, rfl⟩ := firstLexeme_chars hf
    refine ⟨c :: (x ++ before), by simp, fun p => ?_⟩
    obtain ⟨ts, ht⟩ := ih (p.after l.chars)
    refine ⟨(l.token? p).toList ++ ts, fun v hn hh => ?_⟩
    have hf := firstLexeme_swap ((hn.append before).mono (by omega))
      (head?_append_swap hh before) hf
    rw [List.cons_append, List.append_assoc, tokensFrom_cut hf, ht v hn hh, ← List.cons_append,
      ← hl, Position.after_append]
    cases tokensFrom ((p.after l.chars).after before) v <;> simp [Except.map]

theorem head?_dropWhile_swap (hh : u.head? = v.head?) (hu : u.head?.any isBlank = false)
    (hn : u ≠ []) (x : List Char) :
    ((x ++ v).dropWhile isBlank).head? = ((x ++ u).dropWhile isBlank).head? := by
  obtain ⟨c, u, rfl⟩ := List.exists_cons_of_ne_nil hn
  obtain ⟨v, rfl⟩ := List.head?_eq_some_iff.1 hh.symm
  have hc : isBlank c = false := by simpa using hu
  rw [dropWhile_break hc, dropWhile_break hc]
  exact head?_append_swap (by rfl) _

/-- The interpreter line ends in front of a comment, or the comment is in it. -/
theorem shebang_swap {before : List Char} (hh : u.head? = v.head?) (hu : u.head? = some '/')
    (hb : shebang (before ++ u) <+: before) : shebang (before ++ v) = shebang (before ++ u) := by
  obtain ⟨u, rfl⟩ := List.head?_eq_some_iff.1 hu
  obtain ⟨v, rfl⟩ := List.head?_eq_some_iff.1 (hh.symm.trans hu)
  match before with
  | [] => rfl
  | [c] => simp [shebang]
  | c :: d :: t =>
    by_cases hcd : c = '#' ∧ d = '!'
    · obtain ⟨rfl, rfl⟩ := hcd
      have hd := head?_dropWhile_swap (u := '/' :: u) (v := '/' :: v) rfl (by rfl) (by simp) t
      simp only [List.cons_append] at hb ⊢
      simp only [shebang, hd] at hb ⊢
      split
      · rfl
      · next ho =>
        rw [if_neg ho] at hb
        exact takeWhile_within (x := '#' :: '!' :: t) (u := '/' :: u) (v := '/' :: v) (by rfl) hb
    · simp only [List.cons_append, shebang_eq_nil hcd]

theorem Reaches.tokenize_swap (h : Reaches (s.drop (shebang s).length) u)
    (hu : u.head? = some '/') :
    ∃ before q ts, s = before ++ u ∧ ∀ v, Near 3 u v → u.head? = v.head? →
      tokensFrom (Position.start.after (shebang (before ++ v)))
        ((before ++ v).drop (shebang (before ++ v)).length) =
          (tokensFrom q v).map (ts ++ ·) := by
  obtain ⟨before, hs, ht⟩ := h.tokensFrom_swap
  obtain ⟨ts, ht⟩ := ht (Position.start.after (shebang s))
  have hpre := List.prefix_iff_eq_append.1 (prefix_shebang s)
  rw [hs, ← List.append_assoc] at hpre
  refine ⟨shebang s ++ before, (Position.start.after (shebang s)).after before, ts, hpre.symm,
    fun v hn hh => ?_⟩
  have hv : shebang (shebang s ++ before ++ v) = shebang s := by
    rw [shebang_swap hh hu, hpre]
    rw [hpre]
    exact List.prefix_append _ _
  rw [hv, List.append_assoc, List.drop_left]
  exact ht v hn hh

/-! ## The comment -/

/-- What the token of a `///` comment says. -/
def docText (a : String) : String := String.ofList (dropEndWhile (· = '\r') a.toList)

theorem tokensFrom_doc {a after : String} (ha : '\n' ∉ a.toList) (hs : a.toList.head? ≠ some '/')
    (hafter : after.toList.head?.all (· == '\n') = true) (p : Position) :
    tokensFrom p ('/' :: '/' :: '/' :: (a.toList ++ after.toList)) =
      (tokensFrom (p.right (a.toList.length + 3)) after.toList).map
        (⟨.doc .outer, docText a, p⟩ :: ·) := by
  have hb : '\n' ∉ '/' :: a.toList := by simpa using ha
  have hl := firstLexeme_line_cut hb hafter
  rw [lineDoc?, if_neg hs, List.cons_append] at hl
  rw [tokensFrom_cut hl, Position.after_right (by simpa using ha)]
  rfl

/-- Behind the end of a line only the line counts. -/
theorem tokensFrom_lineEnd {p q : Position} (hl : p.line = q.line)
    (hs : s.head?.all (· == '\n') = true) : tokensFrom p s = tokensFrom q s := by
  cases s with
  | nil => rw [tokensFrom_nil, tokensFrom_nil]
  | cons c s =>
    obtain rfl : c = '\n' := by simpa using hs
    have hn : p.next '\n' = q.next '\n' := by simp [Position.next, hl]
    rw [tokensFrom_blank (by decide), tokensFrom_blank (by decide), hn]

/-- Tokens that are the same, or two comments in one place that say `x` and `y`. -/
inductive Restated (x y : String) : Token → Token → Prop where
  | same (t : Token) : Restated x y t t
  | comment (p : Position) : Restated x y ⟨.doc .outer, x, p⟩ ⟨.doc .outer, y, p⟩

theorem rewording_restated {x y : String} (ho : BinaryOp.ofText? x = BinaryOp.ofText? y) :
    Rewording (Restated x y) fun v w => v = w ∨ v = x ∧ w = y where
  kind h := by cases h <;> rfl
  place h := by cases h <;> rfl
  text h := by
    cases h with
    | same => exact .inl rfl
    | comment => exact .inr ⟨rfl, rfl⟩
  word h hk := by
    cases h with
    | same => rfl
    | comment => exact absurd rfl (hk .outer)
  operator h := by
    cases h with
    | same => rfl
    | comment => exact ho
  empty := .inl rfl

/-! ## Whole files -/

namespace SourceFile

/-- The lexer comes to `rest` behind a lexeme of the text. -/
def ComesTo (source rest : String) : Prop :=
  Reaches (source.toList.drop (shebang source.toList).length) rest.toList

/-- What a `///` comment may say, up to the end of its line. -/
structure IsDocText (a : String) : Prop where
  line : '\n' ∉ a.toList
  slash : a.toList.head? ≠ some '/'

/-- The tokens of the file, whatever the comment says. -/
theorem tokenize_docText {before a after : String}
    (hr : ComesTo (before ++ "///" ++ a ++ after) ("///" ++ a ++ after))
    (hafter : after.toList.head?.all (· == '\n') = true) :
    ∃ ts q, ∀ x, IsDocText x → tokenize (before ++ "///" ++ x ++ after) =
      match tokensFrom q after.toList with
      | .error (fault, p) => .error ⟨.lexical fault, some p⟩
      | .ok us => .ok ⟨ts ++ ⟨.doc .outer, docText x, q⟩ :: us,
          Position.start.after (before ++ "///" ++ x ++ after).toList⟩ := by
  have hlist (x : String) : (before ++ "///" ++ x ++ after).toList =
      before.toList ++ ('/' :: '/' :: '/' :: (x.toList ++ after.toList)) := by
    simp
  have hrest (x : String) : ("///" ++ x ++ after).toList =
      '/' :: '/' :: '/' :: (x.toList ++ after.toList) := by
    simp
  unfold ComesTo at hr
  rw [hlist, hrest] at hr
  obtain ⟨before', q, ts, hs, ht⟩ := hr.tokenize_swap rfl
  obtain rfl := List.append_cancel_right hs
  refine ⟨ts, q, fun x hx => ?_⟩
  rw [tokenize_eq, hlist, ht ('/' :: '/' :: '/' :: (x.toList ++ after.toList))
    (.char _ (.char _ (.char _ .zero))) rfl, tokensFrom_doc hx.line hx.slash hafter,
    tokensFrom_lineEnd (p := q.right (x.toList.length + 3)) (q := q) rfl hafter]
  cases tokensFrom q after.toList <;> rfl

/--
Two texts that differ in what one `///` comment says are both refused, or both read as trees. Then
their tokens are the same but for that of the comment, and the trees differ in copies of its text
only. It must not spell a binary operator in one of them and something else in the other.
-/
theorem ofText_docText {before a b after : String}
    (hr : ComesTo (before ++ "///" ++ a ++ after) ("///" ++ a ++ after))
    (ha : IsDocText a) (hb : IsDocText b) (hafter : after.toList.head?.all (· == '\n') = true)
    (ho : BinaryOp.ofText? (docText a) = BinaryOp.ofText? (docText b)) :
    (∃ ts us q f g,
      (∀ x ∈ [a, b], ∃ finish, tokenize (before ++ "///" ++ x ++ after) =
        .ok ⟨ts ++ ⟨.doc .outer, docText x, q⟩ :: us, finish⟩) ∧
      ofText (before ++ "///" ++ a ++ after) = .ok f ∧
      ofText (before ++ "///" ++ b ++ after) = .ok g ∧
      SourceFile.Alike (fun v w => v = w ∨ v = docText a ∧ w = docText b) f g) ∨
    ∃ e e', ofText (before ++ "///" ++ a ++ after) = .error e ∧
      ofText (before ++ "///" ++ b ++ after) = .error e' := by
  obtain ⟨ts, q, ht⟩ := tokenize_docText hr hafter
  have hdoc : ∀ x ∈ [a, b], IsDocText x := by simp [ha, hb]
  unfold ofText
  rw [ht a ha, ht b hb]
  cases hus : tokensFrom q after.toList with
  | error e => exact .inr ⟨_, _, rfl, rfl⟩
  | ok us =>
    have htokens : ∀ x ∈ [a, b], ∃ finish, tokenize (before ++ "///" ++ x ++ after) =
        .ok ⟨ts ++ ⟨.doc .outer, docText x, q⟩ :: us, finish⟩ := fun x hx => by
      rw [ht x (hdoc x hx), hus]
      exact ⟨_, rfl⟩
    let tokens (x : String) : Tokens := ⟨ts ++ ⟨.doc .outer, docText x, q⟩ :: us,
      Position.start.after (before ++ "///" ++ x ++ after).toList⟩
    have hrel : List.Forall₂ (Restated (docText a) (docText b)) (tokens a).list (tokens b).list :=
      List.rel_append (List.forall₂_same.2 fun t _ => .same t)
        (.cons (.comment q) (List.forall₂_same.2 fun t _ => .same t))
    obtain ⟨f, g, hf, hg, hfg⟩ | ⟨f, g, hf, hg, -⟩ := ofTokens_alike (rewording_restated ho) hrel
    · exact .inl ⟨ts, us, q, f, g, htokens, hf, hg, hfg⟩
    · exact .inr ⟨_, _, hf, hg⟩

/-- A comment on a field may say one thing or another. -/
theorem ofText_docText_field :
    let source (x : String) := "struct S \x7b " ++ "///" ++ x ++ "\n a: u8 \x7d"
    ∃ f g, ofText (source " one") = .ok f ∧ ofText (source " two") = .ok g ∧
      SourceFile.Alike (fun v w => v = w ∨ v = docText " one" ∧ w = docText " two") f g := by
  intro source
  have hr : ComesTo (source " one") ("///" ++ " one" ++ "\n a: u8 \x7d") := by
    change ComesTo "struct S \x7b /// one\n a: u8 \x7d" "/// one\n a: u8 \x7d"
    refine .step rfl ?_
    refine .step rfl ?_
    refine .step rfl ?_
    refine .step rfl ?_
    refine .step rfl ?_
    refine .step rfl ?_
    exact .refl _
  obtain ⟨-, -, -, f, g, -, h⟩ | ⟨e, -, he, -⟩ := ofText_docText hr ⟨by decide, by decide⟩ (b := " two")
      ⟨by decide, by decide⟩ (by decide) (by decide)
  · exact ⟨f, g, h⟩
  · have hok : (ofText (source " one")).toOption.isSome = true := by decide +kernel
    rw [he] at hok
    cases hok

/-- The bounds of the first trait of a text. -/
def boundsIn (source : String) : Option (List String) :=
  (ofText source).toOption.bind fun file => file.traits.head?.map TraitDef.supertraits

/--
A comment that spells an operator is taken for it, and any other one is refused in its place. A
comment inside of a bound is part of the text of that.
-/
theorem docText_read :
    (∃ f, ofText "enum E \x7b A = 1 ///+\n 2 \x7d" = .ok f) ∧
      (∃ e, ofText "enum E \x7b A = 1 ///x\n 2 \x7d" = .error e) ∧
      boundsIn "trait T: for<///a\n 'b> F \x7b\x7d" = some ["for < a 'b > F"] ∧
      boundsIn "trait T: for<///c\n 'b> F \x7b\x7d" = some ["for < c 'b > F"] := by
  refine ⟨exists_ok_of_isSome (by decide +kernel), ?_, by decide +kernel, by decide +kernel⟩
  have hn : (ofText "enum E \x7b A = 1 ///x\n 2 \x7d").toOption.isSome = false := by decide +kernel
  cases he : ofText "enum E \x7b A = 1 ///x\n 2 \x7d" with
  | ok f =>
    rw [he] at hn
    cases hn
  | error e => exact ⟨e, rfl⟩

end SourceFile

end Ferrotype
