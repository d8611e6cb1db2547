import Ferrotype.Token.Partition

/-!
# Comments

What a comment is, apart from how it is read: a line behind two slashes, or a text in which each
`/*` has its own `*/`. Certain characters behind the mark make it a doc comment.
-/

namespace Ferrotype

open Text

/-! ## Nested comments -/

/-- A text from inside a comment up to and with its end. The comments in it are whole. -/
inductive Inside : List Char → Prop where
  | close : Inside ['*', '/']
  | char {c : Char} {s : List Char} (ho : c = '/' → s.head? ≠ some '*')
    (hc : c = '*' → s.head? ≠ some '/') (h : Inside s) : Inside (c :: s)
  | nested {t s : List Char} (ht : Inside t) (hs : Inside s) : Inside ('/' :: '*' :: (t ++ s))

variable {s t u body rest : List Char}

theorem Inside.ne_nil (h : Inside s) : s ≠ [] := by
  cases h <;> simp

theorem Inside.head?_append (h : Inside s) (u : List Char) : (s ++ u).head? = s.head? := by
  obtain ⟨c, t, rfl⟩ := List.exists_cons_of_ne_nil h.ne_nil
  rfl

/-- What is read up to the end closes the open comments one by one, the innermost first. -/
theorem closeComment_inside {depth : Nat}
    (h : closeComment depth s = some (body, rest)) :
    ∃ (t : List Char) (ts : List (List Char)), ts.length = depth ∧ t ++ ts.flatten = body ++ ['*', '/'] ∧ Inside t ∧
      ∀ t' ∈ ts, Inside t' := by
  fun_induction closeComment depth s generalizing body rest with
  | case1 => simp at h
  | case2 depth s ih =>
    obtain ⟨r, hr, hb⟩ := Option.map_eq_some_iff.1 h
    cases hb
    obtain ⟨t, ts, hl, hf, ht, hts⟩ := ih hr
    obtain ⟨t', ts, rfl⟩ := List.exists_cons_of_length_eq_add_one hl
    rw [List.forall_mem_cons] at hts
    exact ⟨'/' :: '*' :: (t ++ t'), ts, by simpa using hl, by simpa using hf, .nested ht hts.1, hts.2⟩
  | case3 s =>
    cases h
    exact ⟨['*', '/'], [], rfl, rfl, .close, by simp⟩
  | case4 depth s ih =>
    obtain ⟨r, hr, hb⟩ := Option.map_eq_some_iff.1 h
    cases hb
    obtain ⟨t, ts, hl, hf, ht, hts⟩ := ih hr
    exact ⟨['*', '/'], t :: ts, by simp [hl], by simp [hf], .close, List.forall_mem_cons.2 ⟨ht, hts⟩⟩
  | case5 depth c s ho hz hn ih =>
    obtain ⟨r, hr, hb⟩ := Option.map_eq_some_iff.1 h
    cases hb
    obtain ⟨t, ts, hl, hf, ht, hts⟩ := ih hr
    -- The character is followed by the same one in the text and in what is read of it.
    have hh : t.head? = s.head? := by
      rw [← closeComment_append hr, ← ht.head?_append (ts.flatten ++ r.2), ← List.append_assoc, hf]
      simp
    refine ⟨c :: t, ts, hl, by simp [hf], .char (fun hd he => ?_) (fun hd he => ?_) ht, hts⟩
    · obtain ⟨s', rfl⟩ := List.head?_eq_some_iff.1 (hh ▸ he)
      exact ho s' hd rfl
    · obtain ⟨s', rfl⟩ := List.head?_eq_some_iff.1 (hh ▸ he)
      cases depth with
      | zero => exact hz s' rfl hd rfl
      | succ n => exact hn n s' rfl hd rfl

/-- A character with which no comment opens or closes. -/
theorem closeComment_char {depth : Nat} {c : Char} (ho : c = '/' → s.head? ≠ some '*')
    (hc : c = '*' → s.head? ≠ some '/') :
    closeComment depth (c :: s) = (closeComment depth s).map fun r => (c :: r.1, r.2) := by
  rw [closeComment]
  · rintro t rfl rfl
    exact ho rfl rfl
  · rintro t - rfl rfl
    exact hc rfl rfl
  · rintro n t - rfl rfl
    exact hc rfl rfl

/-- A text inside a comment is read to its end, and then one comment less is open. -/
theorem Inside.closeComment_succ (h : Inside t) (depth : Nat) (u : List Char) :
    closeComment (depth + 1) (t ++ u) = (closeComment depth u).map fun r => (t ++ r.1, r.2) := by
  induction h generalizing depth u with
  | close => rfl
  | char ho hc h ih =>
    rw [List.cons_append, closeComment_char (by rwa [h.head?_append]) (by rwa [h.head?_append]), ih]
    simp [Function.comp_def]
  | nested ht hs iht ihs =>
    rw [List.cons_append, List.cons_append, List.append_assoc, closeComment, iht, ihs]
    simp [Function.comp_def]

theorem Inside.closeComment_zero (h : Inside t) :
    ∃ body, t = body ++ ['*', '/'] ∧ ∀ u, closeComment 0 (t ++ u) = some (body, u) := by
  induction h with
  | close => exact ⟨[], rfl, fun u => rfl⟩
  | @char c s ho hc h ih =>
    obtain ⟨body, rfl, ih⟩ := ih
    refine ⟨c :: body, rfl, fun u => ?_⟩
    rw [List.cons_append, closeComment_char (by rwa [h.head?_append]) (by rwa [h.head?_append]), ih]
    rfl
  | @nested t s ht hs iht ihs =>
    obtain ⟨body, rfl, ihs⟩ := ihs
    refine ⟨'/' :: '*' :: (t ++ body), by simp, fun u => ?_⟩
    rw [List.cons_append, List.cons_append, List.append_assoc, closeComment, ht.closeComment_succ,
      ihs]
    rfl

/-! ## Doc comments -/

/-- The text behind `//` of a doc comment, and what is left of it behind its mark. -/
inductive LineMark : DocStyle → List Char → List Char → Prop where
  | outer {text : List Char} (h : text.head? ≠ some '/') : LineMark .outer ('/' :: text) text
  | inner {text : List Char} : LineMark .inner ('!' :: text) text

/-- The text between `/*` and `*/` of a doc comment, and what is left of it behind its mark. -/
inductive BlockMark : DocStyle → List Char → List Char → Prop where
  | outer {c : Char} {text : List Char} (h : c ≠ '*') : BlockMark .outer ('*' :: c :: text) (c :: text)
  | inner {text : List Char} : BlockMark .inner ('!' :: text) text

theorem BlockMark.suffix {style : DocStyle} {text : List Char} (h : BlockMark style body text) :
    text <:+ body := by
  cases h with
  | outer | inner => exact List.suffix_cons _ _

/-- A comment on a line that is no doc comment, up to the end of the line. -/
def IsLineComment (s : List Char) : Prop :=
  ∃ body, s = '/' :: '/' :: body ∧ '\n' ∉ body ∧ ∀ style text, ¬LineMark style body text

/-- A comment with an end that is no doc comment. -/
def IsBlockComment (s : List Char) : Prop :=
  ∃ body, s = '/' :: '*' :: (body ++ ['*', '/']) ∧ Inside (body ++ ['*', '/']) ∧
    ∀ style text, ¬BlockMark style body text

theorem lineDoc?_eq_none : lineDoc? body = none ↔ ∀ style text, ¬LineMark style body text := by
  unfold lineDoc?
  constructor
  · rintro h style text (h' | _)
    · simp [h'] at h
    · cases h
  · intro h
    split
    · next text =>
      by_cases ht : text.head? = some '/'
      · rw [if_pos ht]
      · exact absurd (.outer ht) (h _ _)
    · exact absurd .inner (h _ _)
    · rfl

theorem lineDoc?_eq_some {kind : Kind} {value : String} (h : lineDoc? body = some (kind, value)) :
    ∃ style text, kind = .doc style ∧ LineMark style body text ∧
      value = String.ofList (dropEndWhile (· = '\r') text) := by
  unfold lineDoc? at h
  split at h
  · next text =>
    split at h
    · cases h
    · next ht =>
      cases h
      exact ⟨.outer, text, rfl, .outer ht, rfl⟩
  · next text =>
    cases h
    exact ⟨.inner, text, rfl, .inner, rfl⟩
  · cases h

theorem blockDoc?_eq_none : blockDoc? body = none ↔ ∀ style text, ¬BlockMark style body text := by
  unfold blockDoc?
  constructor
  · rintro h style text (h' | _)
    · simp [h'] at h
    · cases h
  · intro h
    split
    · next c text =>
      by_cases hc : c = '*'
      · rw [if_pos hc]
      · exact absurd (.outer hc) (h _ _)
    · exact absurd .inner (h _ _)
    · rfl

theorem blockDoc?_eq_some {kind : Kind} {value : String} (h : blockDoc? body = some (kind, value)) :
    ∃ style text, kind = .doc style ∧ BlockMark style body text ∧ value = String.ofList text := by
  unfold blockDoc? at h
  split at h
  · next c text =>
    split at h
    · cases h
    · next hc =>
      cases h
      exact ⟨.outer, c :: text, rfl, .outer hc, rfl⟩
  · next text =>
    cases h
    exact ⟨.inner, text, rfl, .inner, rfl⟩
  · cases h

/-! ## The end of the line -/

/-- The first line of a text goes up to its end. -/
theorem takeWhile_line (hb : '\n' ∉ body) (hr : rest.head?.all (· == '\n') = true) :
    (body ++ rest).takeWhile (· ≠ '\n') = body ∧ (body ++ rest).dropWhile (· ≠ '\n') = rest := by
  have hall : ∀ c ∈ body, decide (c ≠ '\n') = true := by
    intro c hc
    simpa using fun h : c = '\n' => hb (h ▸ hc)
  rw [List.takeWhile_append_of_pos hall, List.dropWhile_append_of_pos hall]
  cases rest with
  | nil => simp
  | cons c rest =>
    obtain rfl : c = '\n' := by simpa using hr
    simp

/-- A comment on a line ends where the line does. -/
theorem lineComment_cut (hb : '\n' ∉ body) (hr : rest.head?.all (· == '\n') = true) :
    lineComment (body ++ rest) = (⟨'/' :: '/' :: body, lineDoc? body⟩, rest) := by
  obtain ⟨ht, hd⟩ := takeWhile_line hb hr
  rw [lineComment, ht, hd]

theorem firstLexeme_line (s : List Char) : firstLexeme '/' ('/' :: s) = .ok (lineComment s) := by
  have hb : isBlank '/' = false := by decide
  simp only [firstLexeme, hb, Bool.false_eq_true, if_false]

theorem firstLexeme_line_cut (hb : '\n' ∉ body) (hr : rest.head?.all (· == '\n') = true) :
    firstLexeme '/' ('/' :: (body ++ rest)) =
      .ok (⟨'/' :: '/' :: body, lineDoc? body⟩, rest) := by
  rw [firstLexeme_line, lineComment_cut hb hr]

/-- The first line of a text, and the rest of it. -/
theorem exists_line (s : List Char) : ∃ line rest, s = line ++ rest ∧ '\n' ∉ line ∧
    rest.head?.all (· == '\n') = true := by
  induction s with
  | nil => exact ⟨[], [], rfl, by simp, rfl⟩
  | cons c s ih =>
    by_cases hc : c = '\n'
    · exact ⟨[], c :: s, rfl, by simp, by simp [hc]⟩
    · obtain ⟨line, rest, rfl, hl, hr⟩ := ih
      exact ⟨c :: line, rest, rfl, by simp [Ne.symm hc, hl], hr⟩

end Ferrotype
