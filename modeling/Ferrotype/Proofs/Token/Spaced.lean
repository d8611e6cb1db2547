import Ferrotype.Proofs.Token.Join
import Ferrotype.Proofs.Token.Words
import Mathlib

/-!
# Texts of words

The tokens of words that are written with a space between each two. A word has to be one lexeme,
and no space may end it early.
-/

namespace Ferrotype

open Text

variable {c : Char} {t : List Char}

/-! ## Lexemes -/

theorem firstLexeme_word (hc : isAsciiStart c = true) (ht : ∀ d ∈ t, isAsciiPart d = true) :
    firstLexeme c t = .ok (.plain (wordKind (c :: t)) (c :: t), []) := by
  have hw : ∀ d ∈ t, isWordPart d = true := fun d hd => isWordPart_of_ascii (ht d hd)
  exact firstLexeme_eq_ok.2 (readsAlone_iff.1 (readsAlone_word (isWordStart_of_ascii hc) hw))

theorem firstLexeme_lifetime (hc : isAsciiStart c = true) (ht : ∀ d ∈ t, isAsciiPart d = true) :
    firstLexeme '\'' (c :: t) = .ok (.plain .lifetime ('\'' :: c :: t), []) := by
  have hw : ∀ d ∈ t, isWordPart d = true := fun d hd => isWordPart_of_ascii (ht d hd)
  exact firstLexeme_eq_ok.2 (.charOrLifetime (charOrLifetime_word (isWordStart_of_ascii hc) hw))

/-! ## Words that are lexemes -/

/-- A word is read as its own kind of token, if a space or nothing comes behind it. -/
structure Word.Legible (w : Word) : Prop where
  once : w.twice = false
  lexeme : ∃ c t, w.text.toList = c :: t ∧ isBlank c = false ∧ c ≠ '/' ∧
    firstLexeme c t = .ok (.plain w.kind (c :: t), [])
  line : '\n' ∉ w.text.toList

/-- Words with a space between each two. -/
def spaced (ws : List Word) : String := " ".intercalate (ws.map Word.text)

theorem Position.after_right {s : List Char} (h : '\n' ∉ s) (p : Position) :
    p.after s = p.right s.length := by
  induction s generalizing p with
  | nil => rfl
  | cons c s ih =>
    simp only [List.mem_cons, not_or] at h
    rw [after_cons, ih h.2, next, if_neg (Ne.symm h.1)]
    simp only [right, List.length_cons]
    congr 1
    omega

namespace Word.Legible

variable {w : Word}

theorem tokens_eq (h : w.Legible) (p : Position) : w.tokens p = [w.token p] := by
  simp [Word.tokens, h.once]

/-- The last word. -/
theorem tokensFrom_last (h : w.Legible) (p : Position) :
    tokensFrom p w.text.toList = .ok (w.tokens p) := by
  obtain ⟨c, t, hw, -, -, hf⟩ := h.lexeme
  rw [hw, tokensFrom_cut hf, tokensFrom_nil, h.tokens_eq]
  simp [Lexeme.plain, Lexeme.token?, Except.map, Word.token, ← hw]

/-- A word behind which a space and more text stand. -/
theorem tokensFrom_more (h : w.Legible) (p : Position) (u : List Char) :
    tokensFrom p (w.text.toList ++ ' ' :: u) =
      (tokensFrom (p.right (w.width + 1)) u).map (w.tokens p ++ ·) := by
  obtain ⟨c, t, hw, hb, hc, hf⟩ := h.lexeme
  have hf := firstLexeme_break (n := ' ') rfl (by simp [hb]) (fun _ _ h => absurd h hc) u _ _ hf
  have hp : (p.after (c :: t)).next ' ' = p.right (w.width + 1) := by
    rw [← hw, Position.after_right h.line]
    simp [Position.next, Position.right, Word.width, h.once, Nat.add_assoc, String.length]
  rw [hw, List.cons_append, tokensFrom_cut hf, List.nil_append]
  change (tokensFrom (p.after (c :: t)) _).map _ = _
  rw [tokensFrom_blank (by decide), hp, h.tokens_eq]
  simp [Lexeme.plain, Lexeme.token?, Word.token, ← hw]

end Word.Legible

/-! ## Kinds of words -/

theorem newline_of_ascii {s : List Char} (h : ∀ d ∈ s, isAsciiPart d = true) : '\n' ∉ s := by
  intro hn
  have := h '\n' hn
  simp [isAsciiPart] at this

theorem legible_word {s : String} (h : isAsciiWord s.toList = true) :
    Word.Legible ⟨wordKind s.toList, s, false⟩ := by
  cases hs : s.toList with
  | nil =>
    rw [hs] at h
    cases h
  | cons c t =>
    simp only [hs, isAsciiWord, Bool.and_eq_true, List.all_eq_true] at h
    obtain ⟨hc, ht⟩ := h
    have hp := isAsciiPart_of_start hc
    refine ⟨rfl, ⟨c, t, hs, isBlank_of_ascii hp, ?_, firstLexeme_word hc ht⟩, ?_⟩
    · rintro rfl
      simp [isAsciiStart] at hc
    · simpa only [hs] using newline_of_ascii (List.forall_mem_cons.2 ⟨hp, ht⟩)

theorem legible_lifetime {s : String} (h : isAsciiWord s.toList = true) :
    Word.Legible ⟨.lifetime, "'" ++ s, false⟩ := by
  cases hs : s.toList with
  | nil =>
    rw [hs] at h
    cases h
  | cons c t =>
    simp only [hs, isAsciiWord, Bool.and_eq_true, List.all_eq_true] at h
    obtain ⟨hc, ht⟩ := h
    have hl : ("'" ++ s).toList = '\'' :: c :: t := by simp [hs]
    refine ⟨rfl, ⟨'\'', c :: t, hl, by decide, by decide, firstLexeme_lifetime hc ht⟩, ?_⟩
    have hn := newline_of_ascii (List.forall_mem_cons.2 ⟨isAsciiPart_of_start hc, ht⟩)
    rw [hl]
    simpa using hn

theorem wordKind_keyword (k : Keyword) : wordKind k.text.toList = .keyword k := by
  have hu : k.text.toList ≠ ['_'] := by cases k <;> decide
  rw [wordKind, if_neg hu, String.ofList_toList, Keyword.ofText?_text]

theorem legible_keyword (k : Keyword) : (Word.keyword k).Legible := by
  have h : isAsciiWord k.text.toList = true := by cases k <;> rfl
  rw [Word.keyword, ← wordKind_keyword]
  exact legible_word h

/-- Characters of marks and delimiters with which nothing else starts. -/
def isMarkPart (c : Char) : Bool :=
  !isBlank c && !isDigit c && !isWordStart c && !List.contains ['/', 'b', 'r', '"', '\'', '\n'] c

theorem legible_of_mark {w : Word} (hw : w.twice = false)
    (hm : mark? w.text.toList = some (w.kind, w.text.toList))
    (hp : w.text.toList.all isMarkPart = true) : w.Legible := by
  have hc : ∀ c ∈ w.text.toList, isBlank c = false ∧ isDigit c = false ∧ isWordStart c = false ∧
      c ∉ ['/', 'b', 'r', '"', '\'', '\n'] := by
    intro c hc
    simpa [isMarkPart, and_assoc] using List.all_eq_true.1 hp c hc
  obtain ⟨c, t, ht⟩ := List.exists_cons_of_ne_nil (mark?_eq_some hm).1.ne_nil
  obtain ⟨hb, -, -, ho⟩ := hc c (by simp [ht])
  simp only [List.mem_cons, List.not_mem_nil, or_false, not_or] at ho
  have hf : opensLexeme c t = false := by
    unfold opensLexeme
    split
    any_goals rfl
    all_goals simp at ho
  refine ⟨hw, ⟨c, t, ht, hb, ho.1, ?_⟩, fun hn => ?_⟩
  · rw [ht] at hm
    exact firstLexeme_eq_ok.2 (.mark hf hm (List.append_nil _))
  · exact absurd hn (by simpa using (hc _ hn).2.2.2)

/-- A mark that starts no comment. -/
theorem legible_mark {p : Punct} (h : '/' ∉ p.text.toList) : (Word.mark p).Legible := by
  refine legible_of_mark rfl (mark?_text p) ?_
  cases p
  all_goals first | rfl | exact absurd (by decide) h

theorem legible_opener (d : Delim) : (Word.opener d).Legible := by
  refine legible_of_mark rfl ?_ ?_
  all_goals cases d <;> rfl

theorem legible_closer (d : Delim) : (Word.closer d).Legible := by
  refine legible_of_mark rfl ?_ ?_
  all_goals cases d <;> rfl

/-! ## Texts -/

theorem tokensFrom_spaced {ws : List Word} (h : ∀ w ∈ ws, w.Legible) (p : Position) :
    tokensFrom p (spaced ws).toList = .ok (layout p ws) := by
  induction ws generalizing p with
  | nil => exact tokensFrom_nil p
  | cons w ws ih =>
    rw [List.forall_mem_cons] at h
    cases ws with
    | nil =>
      have hs : (spaced [w]).toList = w.text.toList := by simp [spaced]
      rw [hs, h.1.tokensFrom_last]
      simp [layout]
    | cons v ws =>
      have hs : (spaced (w :: v :: ws)).toList =
          w.text.toList ++ ' ' :: (spaced (v :: ws)).toList := by simp [spaced]
      rw [hs, h.1.tokensFrom_more, ih h.2]
      rfl

end Ferrotype
