import Ferrotype.Text.Parts
import Ferrotype.Text.Quoted
import Mathlib.Data.List.Infix

/-!
# Words in quoted texts

A quoted text holds the same words as the text itself. A word is looked for as it is written: so its
characters must need no escape, and it must not start inside of one.
-/

namespace Ferrotype.Text

variable {c d q : Char} {s w x y chunk : List Char}

/-! ## Parts of texts -/

theorem occursIn_iff : occursIn w s = true ↔ w <:+: s := by
  induction s with
  | nil => simp [occursIn]
  | cons c s ih => simp [occursIn, ih, List.infix_cons_iff]

theorem prefix_append_cons (h : c ∉ w) : w <+: x ++ c :: y ↔ w <+: x := by
  induction x generalizing w with
  | nil =>
    cases w with
    | nil => simp
    | cons d w =>
      have hd : d ≠ c := fun he => h (by simp [he])
      simp [List.cons_prefix_cons, hd]
  | cons e x ih =>
    cases w with
    | nil => simp
    | cons d w =>
      have hw : c ∉ w := fun hm => h (List.mem_cons_of_mem _ hm)
      simp [List.cons_prefix_cons, ih hw]

/-- What holds no separator stands on one side of it. -/
theorem infix_append_cons (h : c ∉ w) : w <:+: x ++ c :: y ↔ w <:+: x ∨ w <:+: y := by
  induction x with
  | nil =>
    have hp : w <+: c :: y ↔ w = [] := by
      simpa using prefix_append_cons (x := []) (y := y) h
    simp [List.infix_cons_iff, hp]
  | cons e x ih =>
    have hp := prefix_append_cons (x := e :: x) (y := y) h
    rw [List.cons_append] at hp ⊢
    rw [List.infix_cons_iff, List.infix_cons_iff, hp, ih, or_assoc]

/-- What does not start within `x` stands behind it. -/
theorem infix_append_of_notMem (h : d ∉ x) : d :: w <:+: x ++ y ↔ d :: w <:+: y := by
  induction x with
  | nil => rfl
  | cons e x ih =>
    rw [List.mem_cons, not_or] at h
    rw [List.cons_append, List.infix_cons_iff, List.cons_prefix_cons, ih h.2]
    simp [h.1]

/-! ## Escapes -/

/-- The characters that stand behind the backslash of an escape. -/
def escapeLetters : List Char := "'\"\\nrtxuU0123456789abcdef".toList

/-- A character that is written as itself between quotes of both kinds. -/
def isShown (c : Char) : Bool := isPrintable c && !(['\'', '"', '\\'].contains c)

theorem mem_escapeLetters_of_hexDigits {width n : Nat} (h : d ∈ hexDigits width n) :
    d ∈ escapeLetters := by
  have hall : ∀ n < 16, Nat.digitChar n ∈ escapeLetters := by decide
  induction width generalizing n with
  | zero => cases h
  | succ width ih =>
    rcases List.mem_append.1 h with h | h
    · exact ih h
    · rw [List.mem_singleton.1 h]
      exact hall _ (Nat.mod_lt _ (by decide))

/-- What may be written for a character: itself or, if it is not shown, an escape. -/
def IsWritten (c : Char) (chunk : List Char) : Prop :=
  chunk = [c] ∨
    isShown c = false ∧ ∃ letters, chunk = '\\' :: letters ∧ ∀ d ∈ letters, d ∈ escapeLetters

theorem escapeCode_written (h : isShown c = false) : IsWritten c (escapeCode c.toNat) := by
  have hcode {width : Nat} {e : Char} (he : e ∈ escapeLetters) :
      IsWritten c ('\\' :: e :: hexDigits width c.toNat) := by
    refine .inr ⟨h, _, rfl, ?_⟩
    rw [List.forall_mem_cons]
    exact ⟨he, fun d hd => mem_escapeLetters_of_hexDigits hd⟩
  unfold escapeCode
  split_ifs
  · exact hcode (by decide)
  · exact hcode (by decide)
  · exact hcode (by decide)

theorem quoteFor_eq (s : List Char) : quoteFor s = '"' ∨ quoteFor s = '\'' := by
  unfold quoteFor
  split
  · exact .inl rfl
  · exact .inr rfl

theorem isShown_quoteFor (s : List Char) : isShown (quoteFor s) = false := by
  obtain h | h := quoteFor_eq s
  · rw [h]
    decide
  · rw [h]
    decide

theorem escapeChar_written (hq : q = '"' ∨ q = '\'') (c : Char) :
    IsWritten c (escapeChar q c) := by
  have hshort {e : Char} (hc : isShown c = false) (he : e ∈ escapeLetters) :
      IsWritten c ['\\', e] :=
    .inr ⟨hc, _, rfl, by simpa using he⟩
  unfold escapeChar
  split_ifs with hs hn hr ht hp
  · obtain rfl | rfl := hs
    · obtain rfl | rfl := hq
      · exact hshort (by decide) (by decide)
      · exact hshort (by decide) (by decide)
    · exact hshort (by decide) (by decide)
  · subst hn
    exact hshort (by decide) (by decide)
  · subst hr
    exact hshort (by decide) (by decide)
  · subst ht
    exact hshort (by decide) (by decide)
  · exact .inl rfl
  · exact escapeCode_written (by simp [isShown, hp])

/-! ## Words -/

/-- All characters are shown, and the first one is in no escape. -/
structure IsPlainWord (w : List Char) : Prop where
  shown : ∀ c ∈ w, isShown c = true
  first : ∃ c ∈ w.head?, c ∉ escapeLetters

theorem ne_of_isShown (hd : isShown d = true) (hc : isShown c = false) : d ≠ c := by
  rintro rfl
  rw [hd] at hc
  cases hc

/-- Quotes and backslashes are in no word. -/
theorem IsPlainWord.notMem (hw : IsPlainWord w) (hc : isShown c = false) : c ∉ w :=
  fun hm => ne_of_isShown (hw.shown c hm) hc rfl

theorem prefix_written {f : Char → List Char} (hf : ∀ c, IsWritten c (f c))
    (hw : ∀ c ∈ w, isShown c = true) : w <+: s.flatMap f ↔ w <+: s := by
  induction s generalizing w with
  | nil => rfl
  | cons c s ih =>
    cases w with
    | nil => simp
    | cons d w =>
      rw [List.forall_mem_cons] at hw
      obtain ⟨hd, hw⟩ := hw
      rw [List.flatMap_cons, List.cons_prefix_cons]
      obtain h | ⟨hc, letters, h, -⟩ := hf c
      · rw [h, List.singleton_append, List.cons_prefix_cons, ih hw]
      · -- The word starts with neither the backslash nor the character that is escaped.
        have hb : d ≠ '\\' := ne_of_isShown hd (by decide)
        have hn : d ≠ c := ne_of_isShown hd hc
        simp [h, List.cons_prefix_cons, hb, hn]

theorem IsPlainWord.infix_written {f : Char → List Char} (hf : ∀ c, IsWritten c (f c))
    (hw : IsPlainWord w) : w <:+: s.flatMap f ↔ w <:+: s := by
  induction s with
  | nil => rfl
  | cons c s ih =>
    have hp := prefix_written (s := c :: s) hf hw.shown
    rw [List.flatMap_cons] at hp ⊢
    rw [List.infix_cons_iff, ← ih, ← hp]
    obtain h | ⟨hc, letters, h, hl⟩ := hf c
    · rw [h, List.singleton_append, List.infix_cons_iff]
    · -- No word starts within the escape.
      obtain ⟨d, hd, hfirst⟩ := hw.first
      obtain ⟨w, rfl⟩ := List.head?_eq_some_iff.1 hd
      have hb : d ≠ '\\' := ne_of_isShown (hw.shown d (by simp)) (by decide)
      have hn : d ∉ '\\' :: letters := by
        rw [List.mem_cons, not_or]
        exact ⟨hb, fun hm => hfirst (hl d hm)⟩
      rw [h, infix_append_of_notMem hn]
      simp [List.cons_prefix_cons, hb]

/-- Quoting neither hides a word nor makes one, wherever the quoted text stands. -/
theorem IsPlainWord.infix_quotedChars (hw : IsPlainWord w) (x s y : List Char) :
    w <:+: x ++ (quotedChars s ++ y) ↔ w <:+: x ∨ w <:+: s ∨ w <:+: y := by
  have hn := hw.notMem (isShown_quoteFor s)
  rw [quotedChars, List.append_assoc, List.cons_append, List.singleton_append, infix_append_cons hn,
    infix_append_cons hn, hw.infix_written (escapeChar_written (quoteFor_eq s))]

theorem IsPlainWord.infix_quoted (hw : IsPlainWord w) (x s y : String) :
    w <:+: (x ++ (quoted s ++ y)).toList ↔
      w <:+: x.toList ∨ w <:+: s.toList ∨ w <:+: y.toList := by
  rw [quoted, String.toList_append, String.toList_append, String.toList_ofList,
    hw.infix_quotedChars]

end Ferrotype.Text
