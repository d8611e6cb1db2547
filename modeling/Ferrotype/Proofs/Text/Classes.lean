import Ferrotype.Text.Character
import Ferrotype.Text.Digits

/-!
# Classes of characters are apart

A blank is no part of a word or a number. The classes are ranges of code points, so this is a matter
of the tables.
-/

namespace Ferrotype.Text

variable {c : Char}

/-! ## Blanks -/

def blanks : List Char :=
  blankRanges.flatMap fun r => (List.range' r.1 (r.2 + 1 - r.1)).map Char.ofNat

theorem mem_blanks (h : isBlank c = true) : c ∈ blanks := by
  obtain ⟨r, hr, hc⟩ := List.any_eq_true.1 h
  simp only [Bool.and_eq_true, decide_eq_true_eq] at hc
  refine List.mem_flatMap.2 ⟨r, hr, List.mem_map.2 ⟨c.toNat, ?_, Char.ofNat_toNat c⟩⟩
  rw [List.mem_range'_1]
  omega

/-- What holds of each of the blanks. -/
theorem forall_blank {p : Char → Bool} (hp : blanks.all p = true) (h : isBlank c = true) :
    p c = true :=
  List.all_eq_true.1 hp c (mem_blanks h)

/-- No blank belongs to a word or a number. -/
theorem blanks_apart : (blanks.all fun c =>
    !isWordPart c && !isWordStart c && !isDigit c && !isHexDigit c) = true := by
  decide +kernel

theorem apart_of_isBlank (h : isBlank c = true) :
    isWordPart c = false ∧ isWordStart c = false ∧ isDigit c = false ∧ isHexDigit c = false := by
  simpa [and_assoc] using forall_blank blanks_apart h

theorem isWordPart_of_isBlank (h : isBlank c = true) : isWordPart c = false :=
  (apart_of_isBlank h).1

theorem isWordStart_of_isBlank (h : isBlank c = true) : isWordStart c = false :=
  (apart_of_isBlank h).2.1

theorem isDigit_of_isBlank (h : isBlank c = true) : isDigit c = false := (apart_of_isBlank h).2.2.1

theorem isHexDigit_of_isBlank (h : isBlank c = true) : isHexDigit c = false :=
  (apart_of_isBlank h).2.2.2

/-! ## Ranges -/

-- Two tables make many pairs, and the kernel is quicker with `Nat.blt` than with decisions.
theorem inRanges_disjoint {rs qs : List (Nat × Nat)}
    (h : (rs.all fun r => qs.all fun q => Nat.blt r.2 q.1 || Nat.blt q.2 r.1) = true)
    (hr : inRanges rs c = true) : inRanges qs c = false := by
  obtain ⟨r, hr, hc⟩ := List.any_eq_true.1 hr
  refine List.any_eq_false.2 fun q hq => ?_
  have := List.all_eq_true.1 (List.all_eq_true.1 h r hr) q hq
  simp only [Bool.and_eq_true, Bool.or_eq_true, decide_eq_true_eq, Nat.blt_eq] at *
  omega

end Ferrotype.Text
