import Ferrotype.Proofs.Token.Spaced
import Ferrotype.Token.Literal

/-!
# The parts of integers

An integer literal is the mark of its radix, digits with underscores among them, and a suffix. The
text alone tells which of its characters are which.
-/

namespace Ferrotype

open Text

variable {c : Char} {s t rest digits : List Char} {n : Nat}

/-! ## Digits -/

theorem digitValue_digit (h : c.isDigit = true) : digitValue c = c.toNat - '0'.toNat := if_pos h

theorem isDigitOf_ten (c : Char) : isDigitOf 10 c = c.isDigit := by
  by_cases hd : c.isDigit = true
  · have hc : c.toNat ≤ 57 := by
      simp only [Char.isDigit, Bool.and_eq_true, decide_eq_true_eq] at hd
      exact hd.2
    have hv : digitValue c < 10 := by
      rw [digitValue_digit hd]
      change c.toNat - 48 < 10
      omega
    simp [isDigitOf, isHexDigit, hd, hv]
  · have hv : 10 ≤ digitValue c := by
      rw [digitValue, if_neg hd]
      split <;> omega
    simp [isDigitOf, hd, Nat.not_lt.2 hv]

/-- A run is the front of a text up to what is not of its class. -/
theorem takeWhile_front {p : Char → Bool} (hd : ∀ c ∈ digits, p c = true)
    (hs : ∀ c ∈ s.head?, p c = false) : (digits ++ s).takeWhile p = digits := by
  rw [List.takeWhile_append_of_pos hd]
  cases s with
  | nil => simp
  | cons c s => simp [hs c rfl]

theorem dropWhile_front {p : Char → Bool} (hd : ∀ c ∈ digits, p c = true)
    (hs : ∀ c ∈ s.head?, p c = false) : (digits ++ s).dropWhile p = s := by
  rw [List.dropWhile_append_of_pos hd]
  cases s with
  | nil => simp
  | cons c s => simp [hs c rfl]

theorem ne_underscore_of_isDigit (h : c.isDigit = true) : c ≠ '_' := by
  rintro rfl
  cases h

theorem isAsciiPart_of_isDigit (h : c.isDigit = true) : isAsciiPart c = true := by
  simp [isAsciiPart, Char.isAlphanum, h]

/-! ## Radices -/

inductive Radix where
  | binary | octal | decimal | hex
  deriving Repr, DecidableEq

namespace Radix

def base : Radix → Nat
  | binary => 2
  | octal => 8
  | decimal => 10
  | hex => 16

/-- What announces the radix. -/
def mark : Radix → List Char
  | binary => ['0', 'b']
  | octal => ['0', 'o']
  | decimal => []
  | hex => ['0', 'x']

/-- A digit of the radix, or an underscore. -/
def isRunPart (radix : Radix) (c : Char) : Bool := isDigitOf radix.base c || c == '_'

theorem of_letter (h : radixOf? c = some n) :
    ∃ radix : Radix, radix ≠ decimal ∧ radix.mark = ['0', c] ∧ radix.base = n := by
  unfold radixOf? at h
  split at h
  · exact ⟨hex, nofun, rfl, Option.some.inj h⟩
  · exact ⟨octal, nofun, rfl, Option.some.inj h⟩
  · exact ⟨binary, nofun, rfl, Option.some.inj h⟩
  · cases h

theorem letter {radix : Radix} (h : radix ≠ decimal) :
    ∃ c, radix.mark = ['0', c] ∧ radixOf? c = some radix.base := by
  cases radix with
  | decimal => exact absurd rfl h
  | _ => exact ⟨_, rfl, rfl⟩

theorem base_eq_ten (radix : Radix) : radix.base = 10 ↔ radix = .decimal := by
  cases radix <;> simp [base]

theorem mark_injective {radix radix' : Radix} (h : radix.mark = radix'.mark) : radix = radix' := by
  cases radix <;> cases radix' <;> simp_all [mark]

theorem isRunPart_decimal (c : Char) : decimal.isRunPart c = (c.isDigit || c == '_') := by
  rw [isRunPart, base, isDigitOf_ten]

theorem isRunPart_eq_false {radix : Radix} (h : radix.isRunPart c = false) :
    isDigitOf radix.base c = false ∧ c ≠ '_' := by
  simpa [isRunPart] using h

theorem isDigitPart_of_isRunPart (h : decimal.isRunPart c = true) : isDigitPart c = true := by
  rw [isRunPart_decimal, Bool.or_eq_true] at h
  rw [isDigitPart, Bool.or_eq_true]
  refine h.imp_left fun hd => ?_
  rw [isDigit_of_ascii (isAsciiPart_of_isDigit hd), hd]

/-- Digits and an underscore are no letters. -/
theorem radixOf?_of_isRunPart (h : decimal.isRunPart c = true) : radixOf? c = none := by
  rw [isRunPart_decimal] at h
  unfold radixOf?
  split
  any_goals rfl
  all_goals simp at h

/-- Digits without a mark do not begin as a mark does, unless a lone zero is put before a letter. -/
theorem radixOf?_of_digits (hd : ∀ c ∈ digits, decimal.isRunPart c = true) (hn : digits ≠ [])
    (hz : digits = ['0'] → ∀ c ∈ rest.head?, radixOf? c = none)
    (h : digits ++ rest = '0' :: c :: t) : radixOf? c = none := by
  match digits with
  | [] => exact absurd rfl hn
  | [d] =>
    obtain ⟨rfl, rfl⟩ : d = '0' ∧ rest = c :: t := List.cons.inj h
    exact hz rfl c rfl
  | d :: e :: digits =>
    obtain ⟨rfl, rfl, -⟩ : d = '0' ∧ e = c ∧ digits ++ rest = t := by simpa using h
    exact radixOf?_of_isRunPart (hd e (by simp))

end Radix

/-! ## Integers -/

/-- A radix and digits, with underscores among them. -/
structure Numeral where
  radix : Radix
  digits : List Char
  counted : ∀ c ∈ digits, radix.isRunPart c = true
  filled : ∃ c ∈ digits, c ≠ '_'
  /-- Without a mark, a digit comes first. -/
  starts : radix = .decimal → digits.head? ≠ some '_'

namespace Numeral

variable {n : Numeral}

def chars (n : Numeral) : List Char := n.radix.mark ++ n.digits

/-- The number that the digits write. Underscores do not count. -/
def value (n : Numeral) : Nat := ofDigits n.radix.base (n.digits.filter (· ≠ '_'))

/-- How many digits there are. -/
def count (n : Numeral) : Nat := (n.digits.filter (· ≠ '_')).length

/-- Decimal digits are too many if they are more than 4300. Those of other radices never are. -/
def TooLong (n : Numeral) : Prop := n.radix = .decimal ∧ 4300 < n.count

instance (n : Numeral) : Decidable n.TooLong :=
  inferInstanceAs (Decidable (n.radix = .decimal ∧ 4300 < n.count))

/-- What the digits are read as: their number, unless they are too many. -/
def read (n : Numeral) : Except IntegerFault Nat :=
  if n.TooLong then .error (.tooManyDigits n.count) else .ok n.value

theorem digits_ne_nil (n : Numeral) : n.digits ≠ [] := by
  obtain ⟨c, hc, -⟩ := n.filled
  exact List.ne_nil_of_mem hc

theorem filter_digits_ne_nil (n : Numeral) : n.digits.filter (· ≠ '_') ≠ [] := by
  obtain ⟨c, hc, hu⟩ := n.filled
  exact List.ne_nil_of_mem (List.mem_filter.2 ⟨hc, by simpa using hu⟩)

theorem chars_decimal (hr : n.radix = .decimal) : n.chars = n.digits := by
  rw [chars, hr]
  rfl

theorem counted_decimal (n : Numeral) (hr : n.radix = .decimal) :
    ∀ c ∈ n.digits, Radix.decimal.isRunPart c = true := hr ▸ n.counted

/-- Decimal digits alone. -/
def plain (s : List Char) (hf : s ≠ []) (hd : ∀ c ∈ s, c.isDigit = true) : Numeral where
  radix := .decimal
  digits := s
  counted := fun c hc => by rw [Radix.isRunPart_decimal, hd c hc, Bool.true_or]
  filled := by
    obtain ⟨c, hc⟩ := List.exists_mem_of_ne_nil s hf
    exact ⟨c, hc, ne_underscore_of_isDigit (hd c hc)⟩
  starts := fun _ hu => ne_underscore_of_isDigit (hd '_' (List.mem_of_mem_head? hu)) rfl

theorem value_plain (hf : s ≠ []) (hd : ∀ c ∈ s, c.isDigit = true) :
    (plain s hf hd).value = Nat.ofDigitChars 10 s 0 := by
  have hu : s.filter (· ≠ '_') = s :=
    List.filter_eq_self.2 fun c hc => decide_eq_true (ne_underscore_of_isDigit (hd c hc))
  change ofDigits 10 (s.filter (· ≠ '_')) = _
  rw [hu, ofDigits, Nat.ofDigitChars_eq_foldl]
  refine List.foldl_ext _ _ _ fun n c hc => ?_
  rw [digitValue_digit (hd c hc)]

end Numeral

/-- An integer literal, taken apart. -/
structure IntegerText extends Numeral where
  suffix : List Char
  /-- What looks like a mark is one. -/
  unmarked : radix = .decimal → digits = ['0'] → ∀ c ∈ suffix.head?, radixOf? c = none
  /-- The suffix is a word with which the digits do not go on. -/
  apart : ∀ c ∈ suffix.head?, isWordStart c = true ∧ radix.isRunPart c = false
  word : ∀ c ∈ suffix, isWordPart c = true

namespace IntegerText

variable {i j : IntegerText}

def chars (i : IntegerText) : List Char := i.toNumeral.chars ++ i.suffix

def text (i : IntegerText) : String := String.ofList i.chars

@[simp] theorem toList_text (i : IntegerText) : i.text.toList = i.chars := String.toList_ofList

theorem chars_decimal (hr : i.radix = .decimal) : i.chars = i.digits ++ i.suffix := by
  rw [chars, Numeral.chars_decimal hr]

/-- Behind the zero of a mark stands its letter. -/
theorem chars_marked (hr : i.radix ≠ .decimal) : ∃ c, radixOf? c = some i.radix.base ∧
    i.radix.mark = ['0', c] ∧ i.chars = '0' :: c :: (i.digits ++ i.suffix) := by
  obtain ⟨c, hm, hc⟩ := i.radix.letter hr
  exact ⟨c, hc, hm, by simp [chars, Numeral.chars, hm]⟩

theorem unmarked_chars (hr : i.radix = .decimal) (h : i.chars = '0' :: c :: t) :
    radixOf? c = none := by
  rw [chars_decimal hr] at h
  exact Radix.radixOf?_of_digits (i.counted_decimal hr) i.digits_ne_nil (i.unmarked hr) h

/-! ## One way to take apart -/

theorem apart_run (i : IntegerText) : ∀ c ∈ i.suffix.head?, i.radix.isRunPart c = false :=
  fun c hc => (i.apart c hc).2

theorem apart_underscore (i : IntegerText) : ∀ c ∈ i.suffix.head?, c ≠ '_' :=
  fun c hc => (Radix.isRunPart_eq_false (i.apart_run c hc)).2

theorem takeWhile_digits (i : IntegerText) :
    (i.digits ++ i.suffix).takeWhile i.radix.isRunPart = i.digits :=
  takeWhile_front i.counted i.apart_run

/-- Without a mark, no text is one that has a mark. -/
theorem chars_ne_of_decimal (hi : i.radix = .decimal) (hj : j.radix ≠ .decimal) :
    i.chars ≠ j.chars := by
  obtain ⟨c, hc, -, hj⟩ := chars_marked hj
  intro h
  rw [unmarked_chars hi (h.trans hj)] at hc
  cases hc

theorem radix_eq (h : i.chars = j.chars) : i.radix = j.radix := by
  by_cases hi : i.radix = .decimal
  · by_cases hj : j.radix = .decimal
    · rw [hi, hj]
    · exact absurd h (chars_ne_of_decimal hi hj)
  · by_cases hj : j.radix = .decimal
    · exact absurd h.symm (chars_ne_of_decimal hj hi)
    · obtain ⟨a, -, ha, hi⟩ := chars_marked hi
      obtain ⟨b, -, hb, hj⟩ := chars_marked hj
      obtain ⟨rfl, -⟩ : a = b ∧ _ := by simpa [hi, hj] using h
      exact Radix.mark_injective (ha.trans hb.symm)

/-- The text tells the parts. -/
theorem chars_injective (h : i.chars = j.chars) : i = j := by
  have hr := radix_eq h
  have hi := i.takeWhile_digits
  have hj := j.takeWhile_digits
  obtain ⟨⟨radix, digits⟩, suffix⟩ := i
  obtain ⟨⟨radix', digits'⟩, suffix'⟩ := j
  obtain rfl : radix = radix' := hr
  have hs : digits ++ suffix = digits' ++ suffix' := by
    simp only [chars, Numeral.chars, List.append_assoc] at h
    exact List.append_cancel_left h
  obtain rfl : digits = digits' := hi.symm.trans ((congrArg _ hs).trans hj)
  obtain rfl : suffix = suffix' := List.append_cancel_left hs
  rfl

end IntegerText

/-! ## Values -/

namespace IntegerText

/-- Behind the zero that the digits are but for underscores, the suffix begins as a mark does. -/
def HidesMark (i : IntegerText) : Prop :=
  i.radix = .decimal ∧ i.digits.filter (· ≠ '_') = ['0'] ∧ ∃ c ∈ i.suffix.head?, radixOf? c ≠ none

end IntegerText

/-- What is read as the number behind a radix letter: digits and the underscores among them. -/
def runValue (n : Nat) (s : List Char) : Except IntegerFault Nat :=
  digitsValue n ((s.filter (· ≠ '_')).takeWhile (isDigitOf n))

theorem splitRadix_mark (h : radixOf? c = some n) : splitRadix ('0' :: c :: s) = (n, s) := by
  unfold radixOf? at h
  split at h
  all_goals cases h
  all_goals rfl

theorem splitRadix_plain (h : ∀ c t, s = '0' :: c :: t → radixOf? c = none) :
    splitRadix s = (10, s) := by
  unfold splitRadix
  split
  · cases h _ _ rfl
  · cases h _ _ rfl
  · cases h _ _ rfl
  · rfl

theorem intValue_eq {text : String}
    (h : splitRadix (text.toList.filter (· ≠ '_')) = (n, s.filter (· ≠ '_'))) :
    intValue text = runValue n s := by
  rw [intValue]
  simp only [h]
  rfl

/-- A suffix keeps its first character without its underscores. -/
theorem head?_filter_suffix (h : ∀ c ∈ s.head?, c ≠ '_') :
    (s.filter (· ≠ '_')).head? = s.head? := by
  cases s with
  | nil => rfl
  | cons c s => simp [h c rfl]

/-- What is no part of the digits ends them, without underscores, too. -/
theorem Numeral.runValue_append (n : Numeral)
    (hs : ∀ c ∈ s.head?, n.radix.isRunPart c = false) :
    runValue n.radix.base (n.digits ++ s) = n.read := by
  have hd : ∀ c ∈ n.digits.filter (· ≠ '_'), isDigitOf n.radix.base c = true := fun c hc => by
    obtain ⟨hc, hu⟩ := List.mem_filter.1 hc
    have hu : (c == '_') = false := by simpa using hu
    simpa [Radix.isRunPart, hu] using n.counted c hc
  have ht : ((n.digits ++ s).filter (· ≠ '_')).takeWhile (isDigitOf n.radix.base) =
      n.digits.filter (· ≠ '_') := by
    rw [List.filter_append]
    refine takeWhile_front hd fun c hc => ?_
    rw [head?_filter_suffix fun c hc => (Radix.isRunPart_eq_false (hs c hc)).2] at hc
    exact (Radix.isRunPart_eq_false (hs c hc)).1
  rw [runValue, ht, digitsValue, if_neg n.filter_digits_ne_nil, read]
  exact if_congr (and_congr n.radix.base_eq_ten Iff.rfl) rfl rfl

namespace IntegerText

variable {i : IntegerText}

/-- An integer is worth its digits in its radix, whatever its suffix is. -/
theorem intValue_text (h : ¬i.HidesMark) : intValue i.text = i.toNumeral.read := by
  refine Eq.trans ?_ (i.runValue_append i.apart_run)
  apply intValue_eq
  rw [toList_text]
  by_cases hr : i.radix = .decimal
  · rw [chars_decimal hr, hr, splitRadix_plain fun c t ht => ?_, Radix.base]
    rw [List.filter_append] at ht
    refine Radix.radixOf?_of_digits (fun d hd => ?_) i.filter_digits_ne_nil (fun hz d hd => ?_) ht
    · exact i.counted_decimal hr d (List.mem_of_mem_filter hd)
    · rw [head?_filter_suffix i.apart_underscore] at hd
      by_contra hl
      exact h ⟨hr, hz, d, hd, hl⟩
  · obtain ⟨c, hc, -, hi⟩ := chars_marked hr
    have hu : c ≠ '_' := by
      rintro rfl
      cases hc
    rw [hi, ← splitRadix_mark hc]
    simp [hu]

/-- The zero in front of the letter of a radix is taken for its mark. -/
theorem intValue_hidden (h : i.HidesMark) : ∃ c s n, i.suffix = c :: s ∧ radixOf? c = some n ∧
    intValue i.text = runValue n s := by
  obtain ⟨hr, hz, c, hc, hl⟩ := h
  obtain ⟨s, hs⟩ := List.head?_eq_some_iff.1 hc
  obtain ⟨n, hn⟩ := Option.ne_none_iff_exists'.1 hl
  refine ⟨c, s, n, hs, hn, intValue_eq ?_⟩
  have hu : c ≠ '_' := i.apart_underscore c hc
  rw [toList_text, chars_decimal hr, List.filter_append, hz, hs, ← splitRadix_mark hn]
  simp [hu]

end IntegerText

end Ferrotype
