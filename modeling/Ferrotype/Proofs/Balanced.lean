import Ferrotype.Proofs.Grammar.File
import Ferrotype.Proofs.Token.Spelled

/-!
# Accepted files are balanced

A file is only accepted if its delimiters are nested, wherever they stand. The rules close what
they open one by one, and what is read over is read over in whole trees.
-/

namespace Ferrotype

namespace SourceFile

theorem balanced_of_ofTokens {tokens : Tokens} {file : SourceFile} (hs : Unmistakable tokens.list)
    (h : ofTokens tokens = .ok file) : Balanced tokens.list := by
  obtain ⟨rest, h⟩ := ofTokens_eq_ok.1 h
  exact (Grammar.sourceFile_reads hs h []).balanced

/--
The tokens of an accepted file are nested, unless the text of a delimiter is that of an operator.
The lexer makes no such delimiter, so a text whose tokens are not nested is refused.
-/
theorem accepted_balanced :
    (∀ tokens file, Unmistakable tokens.list → ofTokens tokens = .ok file →
      Balanced tokens.list) ∧
    ∀ source tokens, tokenize source = .ok tokens →
      Unmistakable tokens.list ∧ (¬Balanced tokens.list → ∃ e, ofText source = .error e) := by
  refine ⟨fun tokens file => balanced_of_ofTokens, fun source tokens ht => ?_⟩
  have hs := (tokenize_spelled ht).unmistakable
  refine ⟨hs, fun hb => ?_⟩
  cases h : ofText source with
  | error e => exact ⟨e, rfl⟩
  | ok file =>
    have ho : ofTokens tokens = .ok file := by
      rw [ofText, ht] at h
      exact h
    exact absurd (balanced_of_ofTokens hs ho) hb

/-- A length in square brackets is read, and one that a round bracket closes is refused. -/
theorem accepted_balanced_length :
    (∃ tokens file, tokenize "struct S \x7b a: [u8; 3] \x7d" = .ok tokens ∧
      Unmistakable tokens.list ∧ ofTokens tokens = .ok file ∧ Balanced tokens.list) ∧
    ∃ tokens e, tokenize "struct S \x7b a: [u8; 3) \x7d" = .ok tokens ∧ ¬Balanced tokens.list ∧
      ofText "struct S \x7b a: [u8; 3) \x7d" = .error e := by
  constructor
  · let source := "struct S \x7b a: [u8; 3] \x7d"
    obtain ⟨tokens, ht⟩ : ∃ tokens, tokenize source = .ok tokens :=
      exists_ok_of_isSome (by decide +kernel)
    obtain ⟨file, hf⟩ : ∃ file, ofText source = .ok file :=
      exists_ok_of_isSome (by decide +kernel)
    rw [ofText, ht] at hf
    have hs := (accepted_balanced.2 _ tokens ht).1
    exact ⟨tokens, file, ht, hs, hf, accepted_balanced.1 tokens file hs hf⟩
  · let source := "struct S \x7b a: [u8; 3) \x7d"
    obtain ⟨tokens, ht⟩ : ∃ tokens, tokenize source = .ok tokens :=
      exists_ok_of_isSome (by decide +kernel)
    have hb : (tokenize source).toOption.all (¬Balanced ·.list) = true := by decide +kernel
    rw [ht] at hb
    have hb : ¬Balanced tokens.list := by simpa [Except.toOption] using hb
    obtain ⟨e, he⟩ := (accepted_balanced.2 _ tokens ht).2 hb
    exact ⟨tokens, e, ht, hb, he⟩

/-- The tokens of `enum E { A = 1 ) 2 }`, but for the text of the closer, which is `+`. -/
def mistaken : Tokens where
  list := [⟨.keyword .enumKw, "enum", ⟨1, 1⟩⟩, ⟨.identifier, "E", ⟨1, 6⟩⟩,
    ⟨.opener .brace, "\x7b", ⟨1, 8⟩⟩, ⟨.identifier, "A", ⟨1, 10⟩⟩, ⟨.punct .eq, "=", ⟨1, 12⟩⟩,
    ⟨.int, "1", ⟨1, 14⟩⟩, ⟨.closer .paren, "+", ⟨1, 16⟩⟩, ⟨.int, "2", ⟨1, 18⟩⟩,
    ⟨.closer .brace, "\x7d", ⟨1, 20⟩⟩]
  finish := ⟨1, 21⟩

/-- A closer whose text is that of an operator is read as the operator. -/
theorem accepted_unbalanced : (∃ file, ofTokens mistaken = .ok file) ∧ ¬Balanced mistaken.list :=
  ⟨exists_ok_of_isSome (by decide +kernel), by decide⟩

end SourceFile

end Ferrotype
