import Ferrotype.Proofs.Token.Comment

/-!
# Kinds of lexemes

Each part of the lexer makes tokens of few kinds, and gives a token the text it was cut from, but
for a comment and for a name behind `r#`.
-/

namespace Ferrotype

variable {s rest opening : List Char} {l : Lexeme} {kind : Kind} {text : String}

/-! ## Comments -/

theorem lineComment_kind (h : lineComment s = (l, rest)) (ht : l.token = some (kind, text)) :
    ∃ style, kind = .doc style := by
  cases h
  obtain ⟨style, -, hk, -⟩ := lineDoc?_eq_some ht
  exact ⟨style, hk⟩

theorem blockComment_kind (h : blockComment s = .ok (l, rest))
    (ht : l.token = some (kind, text)) : ∃ style, kind = .doc style := by
  unfold blockComment at h
  split at h
  · cases h
  · cases h
    obtain ⟨style, -, hk, -⟩ := blockDoc?_eq_some ht
    exact ⟨style, hk⟩

/-! ## Literals -/

/-- Literals whose text is quoted, and may so go over several lines. -/
def Kind.isQuoted : Kind → Bool
  | .string | .byteString | .char | .byte => true
  | _ => false

theorem QuoteOpens.isQuoted {quote : Char} (h : QuoteOpens kind opening quote) :
    kind.isQuoted = true := by
  cases h <;> rfl

theorem RawOpens.isQuoted (h : RawOpens kind opening) : kind.isQuoted = true := by
  cases h <;> rfl

theorem quotedLiteral_kind {quote : Char} (h : quotedLiteral kind opening quote s = .ok (l, rest)) :
    ∃ chars, l = .plain kind chars := by
  unfold quotedLiteral at h
  split at h
  · cases h
  · cases h
    exact ⟨_, rfl⟩

theorem rawLiteral_kind (h : rawLiteral kind opening s = .ok (l, rest)) :
    ∃ chars, l = .plain kind chars := by
  unfold rawLiteral at h
  dsimp only at h
  split at h
  · split at h
    · cases h
    · cases h
      exact ⟨_, rfl⟩
  · cases h

theorem charOrLifetime_kind (h : charOrLifetime s = .ok (l, rest)) :
    ∃ kind chars, l = .plain kind chars ∧ (kind = .char ∨ kind = .lifetime) := by
  unfold charOrLifetime at h
  split at h
  · obtain ⟨chars, hl⟩ := quotedLiteral_kind h
    exact ⟨.char, chars, hl, .inl rfl⟩
  · obtain ⟨chars, hl⟩ := quotedLiteral_kind h
    exact ⟨.char, chars, hl, .inl rfl⟩
  · split at h
    · cases h
      exact ⟨.lifetime, _, rfl, .inr rfl⟩
    · cases h

/-! ## Words and numbers -/

theorem wordKind_cases (s : List Char) :
    wordKind s = .underscore ∨ wordKind s = .identifier ∨ ∃ k, wordKind s = .keyword k := by
  unfold wordKind
  split
  · exact .inl rfl
  · split
    · next k _ => exact .inr (.inr ⟨k, rfl⟩)
    · exact .inr (.inl rfl)

theorem word_kind (h : word s = (l, rest)) : ∃ kind chars, l = .plain kind chars ∧
    (kind = .underscore ∨ kind = .identifier ∨ ∃ k, kind = .keyword k) := by
  cases h
  exact ⟨_, _, rfl, wordKind_cases _⟩

theorem number_kind (h : number s = .ok (l, rest)) :
    ∃ kind chars, l = .plain kind chars ∧ (kind = .int ∨ kind = .float) := by
  have hd : ∃ kind chars, (decimalNumber s).1 = .plain kind chars ∧
      (kind = .int ∨ kind = .float) := by
    refine ⟨_, _, rfl, ?_⟩
    split
    · exact .inr rfl
    · exact .inl rfl
  unfold number at h
  split at h
  · split at h
    · unfold radixNumber at h
      dsimp only at h
      split at h
      · cases h
      · cases h
        exact ⟨.int, _, rfl, .inl rfl⟩
    · cases h
      exact hd
  · cases h
    exact hd

end Ferrotype
