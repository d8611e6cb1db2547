import Ferrotype.Text.Character
import Mathlib

/-!
# Words of ASCII

The letters, digits and the underscore of ASCII are such in the tables, too.
-/

namespace Ferrotype

open Text

variable {c : Char}

def isAsciiStart (c : Char) : Bool := c.isAlpha || c == '_'

def isAsciiPart (c : Char) : Bool := c.isAlphanum || c == '_'

/-- An identifier of ASCII; it may be a keyword. -/
def isAsciiWord : List Char → Bool
  | [] => false
  | c :: t => isAsciiStart c && t.all isAsciiPart

theorem isAsciiPart_of_start (h : isAsciiStart c = true) : isAsciiPart c = true := by
  simp only [isAsciiStart, isAsciiPart, Char.isAlphanum, Bool.or_eq_true] at *
  exact h.imp_left .inl

/-- Where the letters, digits and the underscore of ASCII are. -/
theorem ascii_bounds (h : isAsciiPart c = true) : 47 < c.toNat ∧ c.toNat < 123 := by
  simp only [isAsciiPart, Char.isAlphanum, Char.isAlpha, Char.isUpper, Char.isLower, Char.isDigit,
    Bool.or_eq_true, Bool.and_eq_true, decide_eq_true_eq, beq_iff_eq, ge_iff_le,
    UInt32.le_iff_toNat_le] at h
  rcases h with ((⟨h1, h2⟩ | ⟨h1, h2⟩) | ⟨h1, h2⟩) | rfl
  · simp at h1 h2
    omega
  · simp at h1 h2
    omega
  · simp at h1 h2
    omega
  · decide

theorem isWordPart_of_ascii (h : isAsciiPart c = true) : isWordPart c = true := by
  have hc := ascii_bounds h
  have hl : c.toNat < 128 := by omega
  simp only [isAsciiPart, Char.isAlphanum, Bool.or_eq_true] at h
  simpa only [isWordPart, isLetter, isNumeral, inClass, if_pos hl, Bool.or_eq_true] using h

theorem isWordStart_of_ascii (h : isAsciiStart c = true) : isWordStart c = true := by
  have hc := ascii_bounds (isAsciiPart_of_start h)
  have hl : c.toNat < 128 := by omega
  simp only [isAsciiStart, Bool.or_eq_true] at h
  simpa only [isWordStart, isLetter, inClass, if_pos hl, Bool.or_eq_true] using h

theorem isBlank_of_ascii (h : isAsciiPart c = true) : isBlank c = false := by
  have hc := ascii_bounds h
  simp only [isBlank, inRanges, blankRanges, List.any_cons, List.any_nil, Bool.or_false,
    Bool.or_eq_false_iff, Bool.and_eq_false_iff, decide_eq_false_iff_not]
  omega

theorem isDigit_of_ascii (h : isAsciiPart c = true) : isDigit c = c.isDigit := by
  have hc := ascii_bounds h
  exact if_pos (by omega)

theorem isDigit_of_start (h : isAsciiStart c = true) : c.isDigit = false := by
  simp only [isAsciiStart, Char.isAlpha, Char.isUpper, Char.isLower, Char.isDigit,
    Bool.or_eq_true, Bool.and_eq_true, decide_eq_true_eq, beq_iff_eq, ge_iff_le,
    UInt32.le_iff_toNat_le, Bool.and_eq_false_iff, decide_eq_false_iff_not] at h ⊢
  rcases h with (⟨h1, h2⟩ | ⟨h1, h2⟩) | rfl
  · simp at h1 h2 ⊢
    omega
  · simp at h1 h2 ⊢
    omega
  · decide

end Ferrotype
