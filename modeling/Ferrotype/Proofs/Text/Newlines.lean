import Ferrotype.Output.Doc
import Ferrotype.Text.Parts
import Ferrotype.Text.Quoted
import Mathlib.Data.List.Induction

/-!
# Two ways to end a line

A text may end its lines with `\n` or with `\r\n`. Its lines are the same, and trimming and quoting
know the difference only as blanks and as an escape more.
-/

namespace Ferrotype.Text

variable {c : Char} {s t x y p : List Char}

/-- The text with `\r\n` for each `\n`. -/
def crlf (s : List Char) : List Char := s.flatMap fun c => if c = '\n' then ['\r', '\n'] else [c]

def withReturns (s : String) : String := String.ofList (crlf s.toList)

@[simp] theorem crlf_nil : crlf [] = [] := rfl

@[simp] theorem crlf_newline (s : List Char) : crlf ('\n' :: s) = '\r' :: '\n' :: crlf s := rfl

theorem crlf_cons (hc : c ≠ '\n') (s : List Char) : crlf (c :: s) = c :: crlf s := by
  simp [crlf, hc]

@[simp] theorem crlf_append (s t : List Char) : crlf (s ++ t) = crlf s ++ crlf t :=
  List.flatMap_append

theorem crlf_of_not_mem (h : '\n' ∉ s) : crlf s = s := by
  induction s with
  | nil => rfl
  | cons c s ih =>
    rw [List.mem_cons, not_or] at h
    rw [crlf_cons (Ne.symm h.1), ih h.2]

theorem newline_mem_crlf : '\n' ∈ crlf s ↔ '\n' ∈ s := by
  induction s with
  | nil => simp
  | cons c s ih =>
    by_cases hc : c = '\n'
    · simp [hc]
    · rw [crlf_cons hc, List.mem_cons, List.mem_cons, ih]

/-! ## Lines -/

theorem normalizeNewlines_cons (hc : c ≠ '\r') (s : List Char) :
    normalizeNewlines (c :: s) = c :: normalizeNewlines s := by
  rw [normalizeNewlines]
  · exact fun _ h _ => hc h
  · exact fun h => hc h

theorem normalizeNewlines_return (h : s.head? ≠ some '\n') :
    normalizeNewlines ('\r' :: s) = '\n' :: normalizeNewlines s := by
  rw [normalizeNewlines]
  rintro t rfl
  exact h rfl

theorem normalizeNewlines_ne_nil (h : s ≠ []) : normalizeNewlines s ≠ [] := by
  fun_cases normalizeNewlines s with
  | case1 => exact absurd rfl h
  | case2 | case3 | case4 => simp

theorem normalizeNewlines_of_not_mem (h : '\r' ∉ s) : normalizeNewlines s = s := by
  induction s with
  | nil => rfl
  | cons c s ih =>
    rw [List.mem_cons, not_or] at h
    rw [normalizeNewlines_cons (Ne.symm h.1), ih h.2]

theorem normalizeNewlines_crlf (h : '\r' ∉ s) : normalizeNewlines (crlf s) = s := by
  induction s with
  | nil => rfl
  | cons c s ih =>
    rw [List.mem_cons, not_or] at h
    by_cases hc : c = '\n'
    · subst hc
      rw [crlf_newline, normalizeNewlines, ih h.2]
    · rw [crlf_cons hc, normalizeNewlines_cons (Ne.symm h.1), ih h.2]

theorem splitLines_cons (hc : c ≠ '\r') (s : List Char) :
    splitLines (c :: s) =
      if isLineBreak c then [] :: splitLines s
      else match splitLines s with
        | [] => [[c]]
        | line :: lines => (c :: line) :: lines := by
  rw [splitLines.eq_def]
  split
  · next h => cases h
  · next h => exact absurd (List.cons.inj h).1 hc
  · next h =>
    obtain ⟨rfl, rfl⟩ := List.cons.inj h
    rfl

/-- Lines may end in either way. -/
theorem splitLines_normalizeNewlines (s : List Char) :
    splitLines (normalizeNewlines s) = splitLines s := by
  fun_induction normalizeNewlines s with
  | case1 => rfl
  | case2 s ih =>
    rw [splitLines_cons (by decide), if_pos (by decide), ih, splitLines]
  | case3 s hs ih =>
    rw [splitLines_cons (by decide), if_pos (by decide), ih, splitLines, if_pos (by decide)]
    exact fun t _ h => hs t h
  | case4 c s _ hc ih =>
    rw [splitLines_cons (fun h => hc h), splitLines_cons (fun h => hc h), ih]

/-! ## Trimming -/

theorem dropWhile_crlf (s : List Char) :
    (crlf s).dropWhile isBlank = crlf (s.dropWhile isBlank) := by
  induction s with
  | nil => rfl
  | cons c s ih =>
    by_cases hc : c = '\n'
    · subst hc
      rw [crlf_newline, List.dropWhile_cons_of_pos (by decide),
        List.dropWhile_cons_of_pos (by decide), List.dropWhile_cons_of_pos (by decide), ih]
    · rw [crlf_cons hc, List.dropWhile_cons, List.dropWhile_cons, ih]
      split
      · rfl
      · rw [crlf_cons hc]

theorem dropEndWhile_concat (q : Char → Bool) (s : List Char) (c : Char) :
    dropEndWhile q (s ++ [c]) = if q c then dropEndWhile q s else s ++ [c] := by
  unfold dropEndWhile
  rw [List.reverse_append, List.reverse_singleton, List.singleton_append, List.dropWhile_cons]
  split <;> simp

theorem dropEndWhile_crlf (s : List Char) :
    dropEndWhile isBlank (crlf s) = crlf (dropEndWhile isBlank s) := by
  induction s using List.reverseRecOn with
  | nil => rfl
  | append_singleton s c ih =>
    by_cases hc : c = '\n'
    · subst hc
      have hs : crlf (s ++ ['\n']) = crlf s ++ ['\r'] ++ ['\n'] := by simp
      rw [hs, dropEndWhile_concat, if_pos (by decide), dropEndWhile_concat, if_pos (by decide), ih,
        dropEndWhile_concat, if_pos (by decide)]
    · have hs : crlf (s ++ [c]) = crlf s ++ [c] := by rw [crlf_append, crlf_cons hc, crlf_nil]
      rw [hs, dropEndWhile_concat, dropEndWhile_concat, ih]
      split
      · rfl
      · rw [hs]

theorem trim_crlf (s : List Char) : trim (crlf s) = crlf (trim s) := by
  rw [trim, dropWhile_crlf, dropEndWhile_crlf, trim]

theorem mem_of_mem_trim (h : c ∈ trim s) : c ∈ s := by
  unfold trim dropEndWhile at h
  rw [List.mem_reverse] at h
  have h := List.mem_reverse.1 ((List.dropWhile_suffix _).subset h)
  exact (List.dropWhile_suffix _).subset h

/-- A text that ends its lines in the other way is the same one between its blanks. -/
theorem normalizeNewlines_trim_crlf (h : '\r' ∉ s) :
    normalizeNewlines (trim (crlf s)) = normalizeNewlines (trim s) := by
  have ht : '\r' ∉ trim s := fun hm => h (mem_of_mem_trim hm)
  rw [trim_crlf, normalizeNewlines_crlf ht, normalizeNewlines_of_not_mem ht]

/-! ## Doc comments -/

open Output

theorem guardCloser_cons (h : c = '*' → s.head? ≠ some '/') :
    guardCloser (c :: s) = c :: guardCloser s := by
  rw [guardCloser]
  rintro t rfl rfl
  exact h rfl rfl

theorem guardCloser_cons_of_ne (h : c ≠ '*') (s : List Char) :
    guardCloser (c :: s) = c :: guardCloser s :=
  guardCloser_cons fun hc => absurd hc h

theorem head?_guardCloser (s : List Char) : (guardCloser s).head? = s.head? := by
  fun_cases guardCloser s <;> rfl

theorem head?_normalizeNewlines (h : (normalizeNewlines s).head? = some '/') :
    s.head? = some '/' := by
  revert h
  fun_cases normalizeNewlines s with
  | case1 => exact id
  | case2 | case3 => nofun
  | case4 => exact id

theorem guardCloser_normalizeNewlines (s : List Char) :
    guardCloser (normalizeNewlines s) = normalizeNewlines (guardCloser s) := by
  fun_induction normalizeNewlines s with
  | case1 => rfl
  | case2 s ih =>
    rw [guardCloser_cons_of_ne (by decide), guardCloser_cons_of_ne (by decide),
      guardCloser_cons_of_ne (by decide), normalizeNewlines, ih]
  | case3 s hs ih =>
    have hn : (guardCloser s).head? ≠ some '\n' := by
      rw [head?_guardCloser]
      intro h
      obtain ⟨t, rfl⟩ := List.head?_eq_some_iff.1 h
      exact hs t rfl
    rw [guardCloser_cons_of_ne (by decide), guardCloser_cons_of_ne (by decide),
      normalizeNewlines_return hn, ih]
  | case4 c s _ hc ih =>
    have hc : c ≠ '\r' := fun h => hc h
    by_cases hs : c = '*' ∧ s.head? = some '/'
    · obtain ⟨rfl, hs⟩ := hs
      obtain ⟨t, rfl⟩ := List.head?_eq_some_iff.1 hs
      rw [normalizeNewlines_cons (by decide), guardCloser_cons_of_ne (by decide),
        guardCloser_cons_of_ne (by decide), normalizeNewlines_cons (by decide)] at ih
      rw [normalizeNewlines_cons (by decide), guardCloser, guardCloser,
        normalizeNewlines_cons (by decide), normalizeNewlines_cons (by decide),
        normalizeNewlines_cons (by decide), (List.cons.inj ih).2]
    · rw [guardCloser_cons fun h1 h2 => hs ⟨h1, head?_normalizeNewlines h2⟩,
        guardCloser_cons fun h1 h2 => hs ⟨h1, h2⟩, normalizeNewlines_cons hc, ih]

/-- The text with `\n` at the end of every line. -/
def withNewlines (s : String) : String := String.ofList (normalizeNewlines s.toList)

/-- A doc comment is written in the same way, however its lines end. -/
theorem docLines_withNewlines (level : Nat) (doc : Option String) :
    docLines level (doc.map withNewlines) = docLines level doc := by
  unfold docLines
  congr 1
  cases doc with
  | none => rfl
  | some doc =>
    simp only [Option.map_some, withNewlines, String.toList_ofList]
    cases doc.toList with
    | nil => rfl
    | cons c s =>
      obtain ⟨d, t, ht⟩ := List.exists_cons_of_ne_nil
        (normalizeNewlines_ne_nil (List.cons_ne_nil c s))
      rw [ht, docBlock, docBlock, ← ht, docTexts, guardCloser_normalizeNewlines,
        splitLines_normalizeNewlines, docTexts]
      · nofun
      · nofun

/-! ## Quoting -/

/-- One text has some `\r` more than the other, each in front of `\n`. -/
inductive Reflow : List Char → List Char → Prop where
  | nil : Reflow [] []
  | char {x y : List Char} (c : Char) (h : Reflow x y) : Reflow (c :: x) (c :: y)
  | newline {x y : List Char} (h : Reflow x y) : Reflow ('\n' :: x) ('\r' :: '\n' :: y)

namespace Reflow

theorem refl (s : List Char) : Reflow s s := by
  induction s with
  | nil => exact .nil
  | cons c s ih => exact .char c ih

theorem append {x' y' : List Char} (h : Reflow x y) (h' : Reflow x' y') :
    Reflow (x ++ x') (y ++ y') := by
  induction h with
  | nil => exact h'
  | char c _ ih => exact .char c ih
  | newline _ ih => exact .newline ih

theorem crlf (s : List Char) : Reflow s (crlf s) := by
  induction s with
  | nil => exact .nil
  | cons c s ih =>
    by_cases hc : c = '\n'
    · subst hc
      exact .newline ih
    · rw [crlf_cons hc]
      exact .char c ih

theorem mem_iff (h : Reflow x y) (hc : c ≠ '\r') : c ∈ y ↔ c ∈ x := by
  induction h with
  | nil => rfl
  | char d _ ih => rw [List.mem_cons, List.mem_cons, ih]
  | newline _ ih => simp [ih, hc]

end Reflow

/-- One quoted text has some `\r` more than the other, each in front of `\n`. -/
inductive QuotedReflow : List Char → List Char → Prop where
  | nil : QuotedReflow [] []
  | char {x y : List Char} (c : Char) (h : QuotedReflow x y) : QuotedReflow (c :: x) (c :: y)
  | newline {x y : List Char} (h : QuotedReflow x y) :
    QuotedReflow ('\\' :: 'n' :: x) ('\\' :: 'r' :: '\\' :: 'n' :: y)

namespace QuotedReflow

theorem refl (s : List Char) : QuotedReflow s s := by
  induction s with
  | nil => exact .nil
  | cons c s ih => exact .char c ih

theorem append {x' y' : List Char} (h : QuotedReflow x y) (h' : QuotedReflow x' y') :
    QuotedReflow (x ++ x') (y ++ y') := by
  induction h with
  | nil => exact h'
  | char c _ ih => exact .char c ih
  | newline _ ih => exact .newline ih

theorem isPrefixOf_eq (h : QuotedReflow x y) (hp : '\\' ∉ p) :
    p.isPrefixOf y = p.isPrefixOf x := by
  induction h generalizing p with
  | nil => rfl
  | char c _ ih =>
    cases p with
    | nil => simp
    | cons d p =>
      rw [List.mem_cons, not_or] at hp
      simp only [List.isPrefixOf, ih hp.2]
  | newline =>
    cases p with
    | nil => simp
    | cons d p =>
      rw [List.mem_cons, not_or] at hp
      have hd : (d == '\\') = false := beq_eq_false_iff_ne.2 (Ne.symm hp.1)
      simp only [List.isPrefixOf, hd, Bool.false_and]

/-- A part without escapes that does not start with `r` is found in both or in none. -/
theorem occursIn_eq (h : QuotedReflow x y) (hp : '\\' ∉ p) (hn : p ≠ []) (hr : p.head? ≠ some 'r') :
    occursIn p y = occursIn p x := by
  induction h with
  | nil => rfl
  | char c h ih => rw [occursIn, occursIn, ih, (QuotedReflow.char c h).isPrefixOf_eq hp]
  | @newline x y h ih =>
    obtain ⟨d, p, rfl⟩ := List.exists_cons_of_ne_nil hn
    rw [List.mem_cons, not_or] at hp
    have hb (s : List Char) : (d :: p).isPrefixOf ('\\' :: s) = false := by
      simp [List.isPrefixOf, Ne.symm hp.1]
    have hr (s : List Char) : (d :: p).isPrefixOf ('r' :: s) = false := by
      have : d ≠ 'r' := by simpa using hr
      simp [List.isPrefixOf, this]
    have hx := (QuotedReflow.char 'n' h).isPrefixOf_eq (p := d :: p) (by simp [hp])
    simp only [occursIn, hb, hr, hx, ih, Bool.false_or]

end QuotedReflow

theorem quoteFor_reflow (h : Reflow x y) : quoteFor y = quoteFor x := by
  unfold quoteFor
  simp only [h.mem_iff (c := '\'') (by decide), h.mem_iff (c := '"') (by decide)]

theorem quotedChars_reflow (h : Reflow x y) : QuotedReflow (quotedChars x) (quotedChars y) := by
  unfold quotedChars
  rw [quoteFor_reflow h]
  have hq : quoteFor x = '"' ∨ quoteFor x = '\'' := by
    unfold quoteFor
    split <;> simp
  generalize quoteFor x = q at hq
  have he : escapeChar q '\n' = ['\\', 'n'] ∧ escapeChar q '\r' = ['\\', 'r'] := by
    obtain rfl | rfl := hq <;> decide
  have hf : QuotedReflow (x.flatMap (escapeChar q)) (y.flatMap (escapeChar q)) := by
    induction h with
    | nil => exact .nil
    | char c _ ih =>
      rw [List.flatMap_cons, List.flatMap_cons]
      exact (QuotedReflow.refl _).append ih
    | newline _ ih =>
      rw [List.flatMap_cons, List.flatMap_cons, List.flatMap_cons, he.1, he.2]
      exact .newline ih
  exact .char q (hf.append (.refl _))

end Ferrotype.Text
