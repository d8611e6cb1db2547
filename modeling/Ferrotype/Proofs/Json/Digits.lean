import Ferrotype.Json.Reader
import Ferrotype.Proofs.Except
import Mathlib.Data.List.TakeWhile

/-!
# Integers that are too long

A reader leaves an end of its text, and the digits that it finds too many stand in the text. Every
integer of more than 4300 digits is refused.
-/

namespace Ferrotype.Json

variable {α β : Type} {s t rest digits : List Char} {count : Nat}

/-- So many decimal digits stand in a row. -/
def HasDigits (count : Nat) (s : List Char) : Prop :=
  ∃ digits, digits <:+: s ∧ (∀ c ∈ digits, c.isDigit) ∧ digits.length = count

theorem HasDigits.of_suffix (h : HasDigits count t) (hs : t <:+ s) : HasDigits count s := by
  obtain ⟨digits, hi, hd, hl⟩ := h
  exact ⟨digits, hi.trans hs.isInfix, hd, hl⟩

/-- What may come of reading a text. -/
inductive ResultOf (s : List Char) : Except JsonFault (α × List Char) → Prop where
  | ok {a : α} {rest : List Char} (h : rest <:+ s) : ResultOf s (.ok (a, rest))
  | malformed (cause : JsonCause) (left : Nat) : ResultOf s (.error (.malformed cause left))
  | tooManyDigits {count : Nat} (hl : 4300 < count) (h : HasDigits count s) :
    ResultOf s (.error (.tooManyDigits count))

namespace ResultOf

variable {x : Except JsonFault (α × List Char)}

theorem of_suffix (h : ResultOf t x) (hs : t <:+ s) : ResultOf s x := by
  cases h with
  | ok h => exact .ok (h.trans hs)
  | malformed => exact .malformed _ _
  | tooManyDigits hl h => exact .tooManyDigits hl (h.of_suffix hs)

theorem bind {f : α × List Char → Except JsonFault (β × List Char)} (hx : ResultOf s x)
    (hf : ∀ a rest, rest <:+ s → ResultOf s (f (a, rest))) : ResultOf s (x >>= f) := by
  cases hx with
  | ok h => exact hf _ _ h
  | malformed => exact .malformed _ _
  | tooManyDigits hl h => exact .tooManyDigits hl h

end ResultOf

theorem skipSpace_suffix (s : List Char) : skipSpace s <:+ s := List.dropWhile_suffix _

/-! ## Strings -/

theorem hexFour?_suffix {n : Nat} (h : hexFour? s = some (n, rest)) : rest <:+ s := by
  unfold hexFour? at h
  split at h
  · split at h
    · cases h
      exact ⟨[_, _, _, _], rfl⟩
    · cases h
  · cases h

theorem lowHalf_suffix {high low : Nat} (h : lowHalf high s = .ok (some (low, rest))) :
    rest <:+ s := by
  unfold lowHalf at h
  split at h
  · next t =>
    split at h
    · split at h
      · next hf =>
        split at h
        · cases h
          exact (hexFour?_suffix hf).trans ⟨['\\', 'u'], rfl⟩
        · cases h
      · cases h
    · cases h
  · cases h

theorem lowHalf_error {high : Nat} {fault : JsonFault} (h : lowHalf high s = .error fault) :
    ∃ cause left, fault = .malformed cause left := by
  unfold lowHalf at h
  split at h
  · split at h
    · split at h
      · cases h
      · cases h
        exact ⟨_, _, rfl⟩
    · cases h
  · cases h

theorem reads_unicodeEscape (s : List Char) : ResultOf s (unicodeEscape s) := by
  unfold unicodeEscape
  dsimp only
  split
  · exact .malformed _ _
  · cases hf : hexFour? s with
    | none => exact .malformed _ _
    | some hex =>
      have hs := hexFour?_suffix hf
      cases hl : lowHalf hex.1 hex.2 with
      | error fault =>
        obtain ⟨cause, left, rfl⟩ := lowHalf_error hl
        simp only [hl]
        exact .malformed _ _
      | ok half =>
        simp only [hl]
        cases half with
        | none => exact .ok hs
        | some half => exact .ok ((lowHalf_suffix hl).trans hs)

theorem reads_stringBody (start n : Nat) (s : List Char) : ResultOf s (stringBody start n s) := by
  induction n generalizing s with
  | zero =>
    rw [stringBody.eq_def]
    exact .malformed _ _
  | succ n ih =>
    have hnext {t : List Char} (c : JsonChar) (ht : t <:+ s) :
        ResultOf s (stringBody start n t >>= fun r => .ok (c :: r.1, r.2)) :=
      ((ih t).of_suffix ht).bind fun _ _ h => .ok h
    cases s with
    | nil =>
      rw [stringBody.eq_def]
      exact .malformed _ _
    | cons c s =>
      rw [stringBody.eq_def]
      dsimp only
      split
      · exact .ok (List.suffix_cons c s)
      split
      · split
        · exact .malformed _ _
        · next t =>
          refine ((reads_unicodeEscape t).of_suffix ⟨[c, 'u'], rfl⟩).bind fun d rest h => ?_
          exact hnext d h
        · next e t _ =>
          split
          · exact hnext _ ⟨[c, e], rfl⟩
          · exact .malformed _ _
      split
      · exact .malformed _ _
      · exact hnext _ (List.suffix_cons c s)

theorem reads_string (s : List Char) : ResultOf s (string s) :=
  (reads_stringBody _ _ s).bind fun _ _ h => .ok h

/-! ## Numbers -/

theorem digits_front (s : List Char) : Json.digits s <+: s := List.takeWhile_prefix _

theorem integerPart_front (s : List Char) : integerPart s <+: s := by
  unfold integerPart
  split
  · exact ⟨_, rfl⟩
  · exact digits_front _

theorem fractionPart_front (s : List Char) : fractionPart s <+: s := by
  unfold fractionPart
  split
  · split
    · exact List.nil_prefix
    · exact List.prefix_cons_inj _ |>.2 (digits_front _)
  · exact List.nil_prefix

theorem exponentPart_front (s : List Char) : exponentPart s <+: s := by
  unfold exponentPart
  split
  · split
    · split
      · split
        · split
          · exact List.nil_prefix
          · simp [digits_front]
        · split
          · exact List.nil_prefix
          · simp [digits_front]
      · exact List.nil_prefix
    · exact List.nil_prefix
  · exact List.nil_prefix

theorem append_front {x y : List Char} (hx : x <+: s) (hy : y <+: s.drop x.length) :
    x ++ y <+: s := by
  obtain ⟨z, rfl⟩ := hx
  rw [List.drop_left] at hy
  exact (List.prefix_append_right_inj x).2 hy

/-- The text of a number is the front of what it is read from. -/
theorem numberText_front (s : List Char) : numberText s <+: s := by
  have hsign : (if s.head? = some '-' then ['-'] else []) <+: s := by
    split
    · next h =>
      obtain ⟨t, rfl⟩ := List.head?_eq_some_iff.1 h
      exact ⟨t, rfl⟩
    · exact List.nil_prefix
  unfold numberText
  generalize (if s.head? = some '-' then ['-'] else []) = sign at hsign
  dsimp only
  split
  · exact List.nil_prefix
  · have hwhole := append_front hsign (integerPart_front _)
    have hfrac := append_front hwhole (by simpa using fractionPart_front _)
    exact append_front hfrac (by simpa [Nat.add_assoc] using exponentPart_front _)

theorem reads_numberValue {text : List Char} (ht : text <+: s) :
    ResultOf s (do return (← numberValue text, s.drop text.length)) := by
  unfold numberValue integerDigits?
  dsimp only
  split
  · next digits h =>
    split at h
    · next hd =>
      cases h
      split
      · next hl =>
        refine .tooManyDigits hl ⟨_, ?_, List.all_eq_true.1 hd, rfl⟩
        exact (List.dropWhile_suffix _).isInfix.trans ht.isInfix
      · exact .ok (List.drop_suffix _ s)
    · cases h
  · exact .ok (List.drop_suffix _ s)

theorem reads_atom (s : List Char) : ResultOf s (atom s) := by
  unfold atom
  split
  · exact .ok (List.drop_suffix _ s)
  · split
    · exact .malformed _ _
    · exact reads_numberValue (numberText_front s)

/-! ## Long integers -/

/-- An integer of too many digits in front of `rest`, which it does not go on with. -/
structure LongInteger (sign digits rest : List Char) : Prop where
  signed : sign = [] ∨ sign = ['-']
  decimal : ∀ c ∈ digits, c.isDigit = true
  first : digits.head? ≠ some '0'
  long : 4300 < digits.length
  behind : ∀ c ∈ rest.head?, c.isDigit = false ∧ c ≠ '.' ∧ c ≠ 'e' ∧ c ≠ 'E'

theorem ne_of_isDigit {c d : Char} (hc : c.isDigit = true) (hd : d.isDigit = false) : c ≠ d := by
  rintro rfl
  rw [hc] at hd
  cases hd

namespace LongInteger

variable {sign : List Char}

theorem exists_cons (h : LongInteger sign digits rest) :
    ∃ c t, digits = c :: t ∧ c.isDigit = true := by
  obtain ⟨c, t, rfl⟩ := List.exists_cons_of_length_pos (Nat.zero_lt_of_lt h.long)
  exact ⟨c, t, rfl, h.decimal c List.mem_cons_self⟩

theorem integerPart (h : LongInteger sign digits rest) :
    Json.integerPart (digits ++ rest) = digits := by
  have hall : Json.digits (digits ++ rest) = digits := by
    rw [Json.digits, List.takeWhile_append_of_pos h.decimal]
    cases hr : rest with
    | nil => simp
    | cons c t => simp [(h.behind c (hr ▸ rfl)).1]
  obtain ⟨c, t, rfl, -⟩ := h.exists_cons
  unfold Json.integerPart
  split
  · next hz => exact absurd (congrArg some (List.cons.inj hz).1) h.first
  · exact hall

theorem fractionPart (h : LongInteger sign digits rest) : Json.fractionPart rest = [] := by
  unfold Json.fractionPart
  split
  · exact absurd rfl (h.behind '.' rfl).2.1
  · rfl

theorem exponentPart (h : LongInteger sign digits rest) : Json.exponentPart rest = [] := by
  unfold Json.exponentPart
  split
  · next e _ =>
    obtain ⟨-, -, he⟩ := h.behind e rfl
    rw [if_neg (not_or.2 he)]
  · rfl

/-- The number that is found is the integer. -/
theorem numberText (h : LongInteger sign digits rest) :
    Json.numberText (sign ++ (digits ++ rest)) = sign ++ digits := by
  obtain ⟨c, t, hdigits, hc⟩ := h.exists_cons
  have hm : c ≠ '-' := ne_of_isDigit hc (by decide)
  have hn : digits ≠ [] := hdigits ▸ List.cons_ne_nil c t
  have hhead : digits.head? ≠ some '-' := by simpa [hdigits] using hm
  obtain rfl | rfl := h.signed
  · simp [Json.numberText, hhead, h.integerPart, h.fractionPart, h.exponentPart, hn]
  · have hdrop : ('-' :: (digits ++ rest)).drop (1 + digits.length) = rest := by
      rw [Nat.add_comm, List.drop_succ_cons, List.drop_left]
    simp [Json.numberText, h.integerPart, hdrop, h.fractionPart, h.exponentPart, hn]

theorem dropWhile_sign (h : LongInteger sign digits rest) (behind : List Char) :
    (sign ++ (digits ++ behind)).dropWhile (· = '-') = digits ++ behind := by
  obtain ⟨c, t, hdigits, hc⟩ := h.exists_cons
  have hm : c ≠ '-' := ne_of_isDigit hc (by decide)
  obtain rfl | rfl := h.signed
  · simp [hdigits, hm]
  · simp [hdigits, hm]

theorem find?_words (h : LongInteger sign digits rest) :
    (words.find? fun w => w.1.toList.isPrefixOf (sign ++ (digits ++ rest))) = none := by
  have hne : ∀ w ∈ words, ∃ d, (w.1.toList.dropWhile (· = '-')).head? = some d ∧
      d.isDigit = false := by
    simp [words]
  obtain ⟨c, t, hdigits, hc⟩ := h.exists_cons
  refine List.find?_eq_none.2 fun w hw hp => ?_
  obtain ⟨d, hw, hd⟩ := hne w hw
  obtain ⟨u, hu⟩ := List.isPrefixOf_iff_prefix.1 hp
  -- Behind its hyphens a word goes on with a letter, and the integer with a digit.
  have hdrop := h.dropWhile_sign rest
  obtain ⟨v, hv⟩ := List.head?_eq_some_iff.1 hw
  rw [← hu, List.dropWhile_append, hv, hdigits] at hdrop
  obtain ⟨rfl, -⟩ : d = c ∧ _ := by simpa using hdrop
  rw [hc] at hd
  cases hd

theorem atom (h : LongInteger sign digits rest) :
    Json.atom (sign ++ (digits ++ rest)) = .error (.tooManyDigits digits.length) := by
  obtain ⟨c, t, hdigits, -⟩ := h.exists_cons
  have hdrop : (sign ++ digits).dropWhile (· = '-') = digits := by
    simpa using h.dropWhile_sign []
  have hi : integerDigits? (sign ++ digits) = some digits := by
    rw [integerDigits?, hdrop]
    exact if_pos (List.all_eq_true.2 h.decimal)
  have hv : numberValue (sign ++ digits) = .error (.tooManyDigits digits.length) := by
    simp only [numberValue, hi]
    exact if_pos h.long
  obtain ⟨e, u, htext⟩ : ∃ e u, sign ++ digits = e :: u :=
    List.exists_cons_of_ne_nil (by simp [hdigits])
  unfold Json.atom
  rw [h.find?_words, h.numberText, htext]
  rw [htext] at hv
  simp only [hv]
  rfl

/-- Wherever a value is read, an integer that is too long is refused. -/
theorem value (h : LongInteger sign digits rest) (n : Nat) :
    Json.value (n + 1) (sign ++ (digits ++ rest)) = .error (.tooManyDigits digits.length) := by
  have hhead : ∀ d ∈ (sign ++ (digits ++ rest)).head?, d = '-' ∨ d.isDigit = true := by
    obtain ⟨c, t, hdigits, hc⟩ := h.exists_cons
    obtain rfl | rfl := h.signed
    · simp [hdigits, hc]
    · simp
  rw [value.eq_def]
  dsimp only
  split
  · next hs => cases hhead '"' (by rw [hs]; rfl) <;> contradiction
  · next hs => cases hhead '{' (by rw [hs]; rfl) <;> contradiction
  · next hs => cases hhead '[' (by rw [hs]; rfl) <;> contradiction
  · exact h.atom

end LongInteger

/-! ## Values -/

/-- The readers with `n` steps to go. -/
structure ReadsWell (n : Nat) : Prop where
  value : ∀ s, ResultOf s (Json.value n s)
  members : ∀ before s, ResultOf s (Json.members n before s)
  elements : ∀ s, ResultOf s (Json.elements n s)

namespace ReadsWell

variable {n : Nat}

theorem value_succ (ih : ReadsWell n) (s : List Char) : ResultOf s (Json.value (n + 1) s) := by
  rw [value.eq_def]
  dsimp only
  split
  · next s => exact ((reads_string s).of_suffix (List.suffix_cons _ s)).bind fun _ _ h => .ok h
  · next s =>
    have hs := (skipSpace_suffix s).trans (List.suffix_cons '{' s)
    split
    · next rest h => exact .ok ((List.suffix_cons '}' rest).trans (h ▸ hs))
    · exact ((ih.members [] _).of_suffix hs).bind fun _ _ h => .ok h
  · next s =>
    have hs := (skipSpace_suffix s).trans (List.suffix_cons '[' s)
    split
    · next rest h => exact .ok ((List.suffix_cons ']' rest).trans (h ▸ hs))
    · exact ((ih.elements _).of_suffix hs).bind fun _ _ h => .ok h
  · exact reads_atom s

theorem members_succ (ih : ReadsWell n) (before : List (JsonText × JsonValue)) (s : List Char) :
    ResultOf s (Json.members (n + 1) before s) := by
  rw [members.eq_def]
  dsimp only
  split
  · next t =>
    refine ((reads_string t).of_suffix (List.suffix_cons _ t)).bind fun name rest hr => ?_
    dsimp only
    split
    · next u hu =>
      have hu : u <:+ '"' :: t :=
        (List.suffix_cons ':' u).trans (hu ▸ (skipSpace_suffix rest).trans hr)
      refine ((ih.value _).of_suffix ((skipSpace_suffix u).trans hu)).bind fun v rest hr => ?_
      have hs := (skipSpace_suffix rest).trans hr
      dsimp only
      split
      · next rest h => exact .ok ((List.suffix_cons '}' rest).trans (h ▸ hs))
      · next w h =>
        have hw := (List.suffix_cons ',' w).trans (h ▸ hs)
        exact (ih.members _ _).of_suffix ((skipSpace_suffix w).trans hw)
      · exact .malformed _ _
    · exact .malformed _ _
  · exact .malformed _ _

theorem elements_succ (ih : ReadsWell n) (s : List Char) :
    ResultOf s (Json.elements (n + 1) s) := by
  rw [elements.eq_def]
  dsimp only
  refine (ih.value s).bind fun v rest hr => ?_
  have hs := (skipSpace_suffix rest).trans hr
  dsimp only
  split
  · next rest h => exact .ok ((List.suffix_cons ']' rest).trans (h ▸ hs))
  · next w h =>
    have hw := (List.suffix_cons ',' w).trans (h ▸ hs)
    refine ((ih.elements _).of_suffix ((skipSpace_suffix w).trans hw)).bind fun _ _ h => .ok h
  · exact .malformed _ _

end ReadsWell

theorem reads_well (n : Nat) : ReadsWell n := by
  induction n with
  | zero =>
    constructor
    all_goals
      intros
      first | rw [value.eq_def] | rw [members.eq_def] | rw [elements.eq_def]
      exact .malformed _ _
  | succ n ih => exact ⟨ih.value_succ, ih.members_succ, ih.elements_succ⟩

/-! ## Documents -/

/-- The digits that are too many for a document stand in it. -/
theorem document_tooManyDigits (h : document s = .error (.tooManyDigits count)) :
    4300 < count ∧ HasDigits count s := by
  have hv : ResultOf s (value (2 * s.length + 2) (skipSpace s)) :=
    ((reads_well _).value _).of_suffix (skipSpace_suffix s)
  unfold document at h
  dsimp only at h
  split at h
  · cases h
  · obtain h | ⟨_, -, h⟩ := Except.bind_eq_error.1 h
    · rw [h] at hv
      cases hv with
      | tooManyDigits hl hd => exact ⟨hl, hd⟩
    · split at h
      · cases h
      · cases h

/-- A document whose value cannot be read. -/
theorem document_error {fault : JsonFault} (hb : s.head? ≠ some '\ufeff')
    (h : value (2 * s.length + 2) (skipSpace s) = .error fault) : document s = .error fault := by
  rw [document, if_neg hb, h]
  rfl

end Ferrotype.Json
