import Ferrotype.Proofs.Apart
import Ferrotype.Proofs.Token.Number
import Ferrotype.Schema.Extract

/-!
# The values of integers

An integer is taken apart twice: when it is cut from the source, and when its text is read as a
number. Both find the same digits, except that the second reading deletes the underscores first and
then sees the mark of a radix where a zero was only put in front of a letter.
-/

namespace Ferrotype

open Text

/--
An integer of ASCII has one radix, one run of digits and one suffix, and is worth its digits in its
radix at any place. More than 4300 decimal digits are not read, and where its suffix hides the mark
of a radix, the rest of the suffix is read as a number of that radix instead.
-/
theorem tokenize_integers {source : String} {tokens : Tokens} {t : Token}
    (h : tokenize source = .ok tokens) (ht : t ∈ tokens.list) (hk : t.kind = .int)
    (ha : ∀ c ∈ t.text.toList, c.toNat < 128) :
    ∃ i : IntegerText, t.text = i.text ∧ (∀ j : IntegerText, t.text = j.text → j = i) ∧
      (¬i.HidesMark → ¬i.TooLong → ∀ place, intValueAt t.text place = .ok i.toNumeral.value) ∧
      (¬i.HidesMark → i.TooLong → ∀ place,
        intValueAt t.text place = .error (.tooManyDigits i.toNumeral.count)) ∧
      (i.HidesMark → ∃ c s n, i.suffix = c :: s ∧ radixOf? c = some n ∧
        intValue t.text = runValue n s) := by
  have hp : t.Plain := by
    constructor
    all_goals simp [hk]
  have hr := readsAlone_of_mem (tokenize_eq_ok.1 h).1 t ht hp
  rw [hk] at hr
  obtain ⟨i, hi⟩ := IntegerText.of_readsAlone hr ha
  have ht : t.text = i.text := String.toList_injective (by rw [i.toList_text, hi])
  refine ⟨i, ht, fun j hj => ?_, fun hn hl place => ?_, fun hn hl place => ?_, fun hh => ?_⟩
  · refine IntegerText.chars_injective ?_
    rw [← j.toList_text, ← hj, ht, i.toList_text]
  · rw [intValueAt, ht, IntegerText.intValue_text hn, Numeral.read, if_neg hl]
  · rw [intValueAt, ht, IntegerText.intValue_text hn, Numeral.read, if_pos hl]
  · rw [ht]
    exact IntegerText.intValue_hidden hh

/-- An underscore behind the mark, a capital digit, and a suffix. -/
theorem tokenize_integers_hex :
    ∃ tokens, tokenize "0x_1Fu8" = .ok tokens ∧ (⟨.int, "0x_1Fu8", ⟨1, 1⟩⟩ : Token) ∈ tokens.list ∧
      (∀ c ∈ "0x_1Fu8".toList, c.toNat < 128) ∧
      ∃ i : IntegerText, i.radix = .hex ∧ i.digits = ['_', '1', 'F'] ∧ i.suffix = ['u', '8'] ∧
        "0x_1Fu8" = i.text ∧ ¬i.HidesMark ∧ ¬i.TooLong ∧
        ∀ place, intValueAt "0x_1Fu8" place = .ok 31 := by
  have ht : tokenize "0x_1Fu8" = .ok ⟨[⟨.int, "0x_1Fu8", ⟨1, 1⟩⟩], ⟨1, 8⟩⟩ := by decide +kernel
  have ha : ∀ c ∈ "0x_1Fu8".toList, c.toNat < 128 := fun c hc => by
    have := ascii_bounds (List.all_eq_true.1 (by decide : "0x_1Fu8".toList.all isAsciiPart) c hc)
    omega
  let parts : IntegerText := {
    radix := .hex
    digits := ['_', '1', 'F']
    suffix := ['u', '8']
    counted := List.all_eq_true.1 (by decide)
    filled := ⟨'1', by decide, by decide⟩
    starts := nofun
    unmarked := nofun
    apart := fun c hc => by
      obtain rfl : 'u' = c := Option.some.inj hc
      exact ⟨isWordStart_of_ascii rfl, by decide⟩
    word := fun c hc =>
      isWordPart_of_ascii (List.all_eq_true.1 (by decide : ['u', '8'].all isAsciiPart) c hc) }
  obtain ⟨i, hi, hu, hv, -⟩ := tokenize_integers ht (List.mem_singleton.2 rfl) rfl ha
  obtain rfl : parts = i := hu parts (by decide)
  have hn : ¬parts.HidesMark := fun h => nomatch h.1
  have hl : ¬parts.TooLong := fun h => nomatch h.1
  exact ⟨_, ht, List.mem_singleton.2 rfl, ha, parts, rfl, rfl, rfl, hi, hn, hl, hv hn hl⟩

/-- The suffix `b1` behind `0_` is read as a binary number. -/
example : intValue "0_b1" = .ok 1 := by rfl

end Ferrotype
