import Ferrotype.Proofs.Token.Local

/-!
# Texts behind texts

A lexeme that ends in a text ends there, too, if a blank and another text come behind: no lexeme
looks past a blank that it does not reach, and none that is complete goes on.
-/

namespace Ferrotype

open Text

variable {c n : Char} {s u rest : List Char}

/-- A blank ends a lexeme in front of it, unless that is a comment or a literal. -/
def Breaks (n : Char) : Prop := isBlank n = true

/-! ## Runs of characters -/

theorem takeWhile_break {p : Char → Bool} (hp : p n = false) (s u : List Char) :
    (s ++ n :: u).takeWhile p = s.takeWhile p := by
  induction s with
  | nil => simp [hp]
  | cons c s ih => simp only [List.cons_append, List.takeWhile_cons, ih]

theorem dropWhile_break {p : Char → Bool} (hp : p n = false) (s u : List Char) :
    (s ++ n :: u).dropWhile p = s.dropWhile p ++ n :: u := by
  induction s with
  | nil => simp [hp]
  | cons c s ih =>
    simp only [List.cons_append, List.dropWhile_cons, ih]
    split <;> rfl

/-! ## The first lexeme -/

/-- What the cut of a text comes to, the cut of a longer one comes to, with more behind it. -/
def Cut.Continues (cut cut' : Cut) (u : List Char) : Prop :=
  ∀ l rest, cut = .ok (l, rest) → cut' = .ok (l, rest ++ u)

/-- A text goes on in nearly the same way if a blank comes behind it. -/
theorem near_break (hn : Breaks n) (k : Nat) (s u : List Char) : Near k s (s ++ n :: u) := by
  induction s generalizing k with
  | nil => exact .stop rfl hn
  | cons c s ih =>
    cases k with
    | zero => exact .zero
    | succ k => exact .char c (ih k)

theorem firstLexeme_line_break (s u : List Char) :
    (firstLexeme '/' ('/' :: s)).Continues (firstLexeme '/' ('/' :: s ++ '\n' :: u)) ('\n' :: u) := by
  intro l rest h
  rw [firstLexeme_line] at h
  cases h
  rw [List.cons_append, firstLexeme_line]
  unfold lineComment
  rw [takeWhile_break (by simp), dropWhile_break (by simp)]

/--
A first lexeme that is no blank is the first one of a longer text, too. A comment up to the end of
the line ends nowhere else.
-/
theorem firstLexeme_break (hn : Breaks n) (hb : ¬isBlank c = true)
    (hc : n ≠ '\n' → ∀ t, c = '/' → s ≠ '/' :: t) (u : List Char) :
    (firstLexeme c s).Continues (firstLexeme c (s ++ n :: u)) (n :: u) := by
  intro l rest h
  by_cases hl : c = '/' ∧ s.head? = some '/'
  · obtain ⟨rfl, hs⟩ := hl
    obtain ⟨t, rfl⟩ := List.head?_eq_some_iff.1 hs
    obtain rfl : n = '\n' := by
      by_contra hne
      exact hc hne t rfl rfl
    exact firstLexeme_line_break t u l rest h
  · obtain ⟨x, -, rfl⟩ := firstLexeme_chars h
    rw [List.append_assoc]
    exact firstLexeme_near (near_break hn 3 rest u) (by simpa using hb) (fun hd hs => hl ⟨hd, hs⟩) h

end Ferrotype
