import Ferrotype.Proofs.Grammar.Nesting
import Ferrotype.Proofs.Token.Kinds
import Ferrotype.Token.Scan

/-!
# Delimiters come from marks

Of all lexemes only marks are delimiters, and a mark is spelled as its character.
-/

namespace Ferrotype

open Text

variable {c : Char} {s : List Char}

def Lexeme.Spelled (l : Lexeme) : Prop := ∀ kind text, l.token = some (kind, text) → kind.Spelled text

/-- The lexeme that is cut off is no delimiter, or one that is spelled as such. -/
def Cut.Spelled (cut : Cut) : Prop := ∀ l rest, cut = .ok (l, rest) → l.Spelled

theorem Kind.spelled_of_not_delim {kind : Kind} (h : kind.isDelim = false) (text : String) :
    kind.Spelled text := by
  cases kind <;> simp_all [Kind.isDelim, Kind.Spelled]

/-- Literals, words and numbers. -/
theorem spelled_plain {kind : Kind} {chars : List Char} (h : kind.isDelim = false) :
    (Lexeme.plain kind chars).Spelled := by
  intro k text ht
  cases ht
  exact Kind.spelled_of_not_delim h _

theorem spelled_mark {kind : Kind} {chars : List Char} (h : MarkOf kind chars) :
    (Lexeme.plain kind chars).Spelled := by
  intro k text ht
  cases ht
  cases h with
  | punct => trivial
  | opener | closer => exact String.singleton_eq_ofList.symm

theorem CutOff.spelled {l : Lexeme} {rest : List Char} (h : CutOff s l rest) : l.Spelled := by
  cases h with
  | blanks => exact fun k text ht => nomatch ht
  | lineComment h =>
    intro k text ht
    obtain ⟨style, rfl⟩ := lineComment_kind h ht
    trivial
  | blockComment h =>
    intro k text ht
    obtain ⟨style, rfl⟩ := blockComment_kind h ht
    trivial
  | quoted ho h =>
    obtain ⟨chars, rfl⟩ := quotedLiteral_kind h
    exact spelled_plain (by cases ho <;> rfl)
  | raw ho h =>
    obtain ⟨chars, rfl⟩ := rawLiteral_kind h
    exact spelled_plain (by cases ho <;> rfl)
  | rawWord _ h =>
    intro k text ht
    cases h
    cases ht
    trivial
  | charOrLifetime h =>
    obtain ⟨kind, chars, rfl, rfl | rfl⟩ := charOrLifetime_kind h
    all_goals exact spelled_plain rfl
  | number _ h =>
    obtain ⟨kind, chars, rfl, rfl | rfl⟩ := number_kind h
    all_goals exact spelled_plain rfl
  | letter _ _ _ h | word _ _ h =>
    obtain ⟨kind, chars, rfl, rfl | rfl | ⟨k, rfl⟩⟩ := word_kind h
    all_goals exact spelled_plain rfl
  | mark _ h _ => exact spelled_mark (mark?_eq_some h).1

theorem spelled_firstLexeme (c : Char) (s : List Char) : (firstLexeme c s).Spelled :=
  fun _ _ h => (cutOff_of_firstLexeme h).spelled

/-! ## Whole texts -/

theorem spelled_lexemesFrom {p : Position} {ls : List (Lexeme × Position)}
    (h : lexemesFrom p s = .ok ls) : ∀ l ∈ ls, l.1.Spelled := by
  fun_induction lexemesFrom p s generalizing ls with
  | case1 =>
    cases h
    simp
  | case2 => cases h
  | case3 p c t l rest hl ih =>
    cases hr : lexemesFrom (p.after l.chars) rest with
    | error fault =>
      rw [hr] at h
      cases h
    | ok ls' =>
      rw [hr] at h
      cases h
      intro l' hl'
      rcases List.mem_cons.1 hl' with rfl | hl'
      · exact spelled_firstLexeme c t l rest hl
      · exact ih hr l' hl'

theorem spelled_lexemes {ls : List (Lexeme × Position)} (h : lexemes s = .ok ls) :
    ∀ l ∈ ls, l.1.Spelled := by
  unfold lexemes at h
  split at h
  · exact spelled_lexemesFrom h
  · cases hr : lexemesFrom (Position.start.after (shebang s)) (s.drop (shebang s).length) with
    | error fault =>
      rw [hr] at h
      cases h
    | ok ls' =>
      rw [hr] at h
      cases h
      intro l' hl'
      rcases List.mem_cons.1 hl' with rfl | hl'
      · exact fun k text ht => nomatch ht
      · exact spelled_lexemesFrom hr l' hl'

/-- The delimiters among the tokens of a text are spelled as such. -/
theorem tokenize_spelled {source : String} {tokens : Tokens} (h : tokenize source = .ok tokens) :
    Spelled tokens.list := by
  unfold tokenize at h
  split at h
  · cases h
  · next ls hls =>
    cases h
    intro t ht
    obtain ⟨l, hl, hlt⟩ := List.mem_filterMap.1 ht
    obtain ⟨⟨k, text⟩, hk, rfl⟩ := Option.map_eq_some_iff.1 hlt
    exact spelled_lexemes hls l hl k text hk

end Ferrotype
