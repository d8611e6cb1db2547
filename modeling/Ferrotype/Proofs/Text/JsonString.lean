import Ferrotype.Json.Reader
import Ferrotype.Text.JsonString
import Mathlib.Data.List.Basic

/-!
# Strings of JSON are read back

Each character of a text is written as itself or as one escape, and the reader takes one or the
other at a time. So a text is read back whole, and its quotes are all escaped.
-/

namespace Ferrotype

open Text

variable {c e : Char} {s t x y before after chunk rest : List Char}

/-! ## One character -/

namespace Text

/-- How a character is written: as itself, with a letter or a mark, or with its code. -/
inductive JsonWritten : Char → List Char → Prop where
  | plain {c : Char} (hq : c ≠ '"') (hb : c ≠ '\\') (hc : 0x20 ≤ c.toNat) : JsonWritten c [c]
  | short {c e : Char} (he : Json.simpleEscape? e = some c) : JsonWritten c ['\\', e]
  | code {c : Char} (hc : c.toNat < 0x20) : JsonWritten c ('\\' :: 'u' :: hexDigits 4 c.toNat)

theorem jsonWritten (c : Char) : JsonWritten c (jsonChar c) := by
  unfold jsonChar
  split_ifs with hq hb hn hr ht h8 hf hc
  · subst hq
    exact .short rfl
  · subst hb
    exact .short rfl
  · subst hn
    exact .short rfl
  · subst hr
    exact .short rfl
  · subst ht
    exact .short rfl
  · subst h8
    exact .short rfl
  · subst hf
    exact .short rfl
  · exact .code hc
  · exact .plain hq hb (by omega)

theorem visible_of_simpleEscape? (h : Json.simpleEscape? e = some c) :
    e ≠ 'u' ∧ 0x20 ≤ e.toNat := by
  unfold Json.simpleEscape? at h
  split at h <;> first | decide | cases h

/-- The code of a control character has four digits, which are visible, and is read back. -/
theorem hexDigits_control {n : Nat} (h : n < 0x20) :
    (hexDigits 4 n).length = 4 ∧ (hexDigits 4 n).all isHexDigit = true ∧
      ofDigits 16 (hexDigits 4 n) = n ∧
      ∀ d ∈ hexDigits 4 n, d ≠ '"' ∧ d ≠ '\\' ∧ 0x20 ≤ d.toNat := by
  have hall : ((List.range 0x20).all fun n => (hexDigits 4 n).length == 4 &&
      ((hexDigits 4 n).all isHexDigit && (ofDigits 16 (hexDigits 4 n) == n &&
        (hexDigits 4 n).all fun d => d != '"' && (d != '\\' && 0x20 ≤ d.toNat)))) = true := by
    decide
  simpa using List.all_eq_true.1 hall n (List.mem_range.2 h)

theorem JsonWritten.visible (h : JsonWritten c chunk) : ∀ d ∈ chunk, 0x20 ≤ d.toNat := by
  cases h with
  | plain _ _ hc => simpa using hc
  | short he => simpa using (visible_of_simpleEscape? he).2
  | code hc =>
    obtain ⟨-, -, -, hv⟩ := hexDigits_control hc
    simpa using fun d hd => (hv d hd).2.2

theorem JsonWritten.length_pos (h : JsonWritten c chunk) : 0 < chunk.length := by
  cases h <;> simp

/-! ## Backslashes -/

/-- How many backslashes a text ends with. -/
def backslashes (s : List Char) : Nat := (s.reverse.takeWhile (· = '\\')).length

/-- What ends with an even number of backslashes does not matter in front of another text. -/
theorem backslashes_append (h : backslashes x % 2 = 0) (y : List Char) :
    backslashes (x ++ y) % 2 = backslashes y % 2 := by
  unfold backslashes at *
  rw [List.reverse_append, List.takeWhile_append]
  split
  · next hl => rw [List.length_append, ← hl]; omega
  · rfl

theorem backslashes_of_getLast? (h : x.getLast? ≠ some '\\') : backslashes x = 0 := by
  rw [← List.head?_reverse] at h
  unfold backslashes
  cases hr : x.reverse with
  | nil => rfl
  | cons d y =>
    rw [hr, List.head?_cons] at h
    rw [List.takeWhile_cons_of_neg (by simpa using h)]
    rfl

/-- An escape ends with two backslashes or with none. -/
theorem JsonWritten.even (h : JsonWritten c chunk) : backslashes chunk % 2 = 0 := by
  cases h with
  | plain _ hb => rw [backslashes_of_getLast? (by simpa using hb)]
  | @short e he =>
    by_cases hb : e = '\\'
    · subst hb
      rfl
    · rw [backslashes_of_getLast? (by simpa using hb)]
  | code hc =>
    obtain ⟨hl, -, -, hv⟩ := hexDigits_control hc
    rw [backslashes_of_getLast?]
    intro hg
    have hn : hexDigits 4 c.toNat ≠ [] := List.ne_nil_of_length_eq_add_one hl
    obtain ⟨d, u, hu⟩ := List.exists_cons_of_ne_nil hn
    rw [hu, List.getLast?_cons_cons, List.getLast?_cons_cons, ← hu] at hg
    exact (hv _ (List.mem_of_getLast? hg)).2.1 rfl

/-- The only quote that is written stands behind one backslash. -/
theorem JsonWritten.quote (h : JsonWritten c chunk) (hq : chunk = before ++ '"' :: after) :
    backslashes before % 2 = 1 := by
  cases h with
  | plain hc => exact absurd (List.mem_singleton.1 (hq ▸ by simp)).symm hc
  | @short e he =>
    match before with
    | [] => cases hq
    | [d] =>
      cases hq
      rfl
    | _ :: _ :: _ => simp at hq
  | code hc =>
    obtain ⟨-, -, -, hv⟩ := hexDigits_control hc
    have hm : '"' ∈ '\\' :: 'u' :: hexDigits 4 c.toNat := hq ▸ by simp
    exact absurd rfl (hv '"' (by simpa using hm)).1

end Text

/-! ## Reading one character -/

namespace Json

theorem hexFour?_of_length {digits : List Char} (hl : digits.length = 4)
    (hd : digits.all isHexDigit = true) (rest : List Char) :
    hexFour? (digits ++ rest) = some (ofDigits 16 digits, rest) := by
  match digits, hl with
  | [a, b, c, d], _ => exact if_pos hd

/-- Behind a code that is no surrogate there is no second half. -/
theorem lowHalf_none {n : Nat} (h : isHighSurrogate n = false) (s : List Char) :
    lowHalf n s = .ok none := by
  unfold lowHalf
  split
  · rw [if_neg (by simp [h])]
  · rfl

theorem unicodeEscape_control (hc : c.toNat < 0x20) (hr : rest ≠ []) :
    unicodeEscape (hexDigits 4 c.toNat ++ rest) = .ok (.char c, rest) := by
  obtain ⟨hl, hd, hv, -⟩ := hexDigits_control hc
  have hp := List.length_pos_iff.2 hr
  have hlen : ¬(hexDigits 4 c.toNat ++ rest).length ≤ 4 := by
    rw [List.length_append, hl]
    omega
  have hs : isHighSurrogate c.toNat = false := by
    rw [isHighSurrogate, Bool.and_eq_false_iff]
    exact .inl (decide_eq_false (by omega))
  have hchar : charOfUnit c.toNat = .char c := by
    have hv : c.toNat.isValidChar := c.valid
    rw [charOfUnit, if_pos hv, Char.ofNat_toNat]
  unfold unicodeEscape
  simp only [hexFour?_of_length hl hd, hv, lowHalf_none hs, if_neg hlen]
  exact congrArg (fun d => Except.ok (d, rest)) hchar

/-- What is written for a character is read in one step. -/
theorem stringBody_written {chunk : List Char} (h : JsonWritten c chunk) (hr : rest ≠ [])
    (start n : Nat) : stringBody start (n + 1) (chunk ++ rest) =
      (stringBody start n rest).map fun r => (.char c :: r.1, r.2) := by
  cases h with
  | plain hq hb hc =>
    rw [List.singleton_append, stringBody.eq_def]
    dsimp only
    rw [if_neg hq, if_neg hb, if_neg (by omega)]
    cases stringBody start n rest <;> rfl
  | @short e he =>
    obtain ⟨hu, -⟩ := visible_of_simpleEscape? he
    rw [List.cons_append, List.cons_append, List.nil_append, stringBody.eq_def]
    dsimp only
    rw [if_neg (by decide), if_pos rfl]
    split
    · next hs => cases hs
    · next hs => exact absurd (List.cons.inj hs).1 hu
    · next hs =>
      cases hs
      simp only [he]
      cases stringBody start n rest <;> rfl
  | code hc =>
    rw [List.cons_append, List.cons_append, stringBody.eq_def]
    dsimp only
    rw [if_neg (by decide), if_pos rfl]
    simp only [unicodeEscape_control hc hr]
    change (stringBody start n rest).bind _ = _
    cases stringBody start n rest <;> rfl

/-! ## Whole strings -/

theorem stringBody_flatMap {n : Nat} (hn : s.length < n) (start : Nat) (rest : List Char) :
    stringBody start n (s.flatMap jsonChar ++ '"' :: rest) = .ok (s.map .char, rest) := by
  induction s generalizing n with
  | nil =>
    obtain ⟨n, rfl⟩ := Nat.exists_eq_add_one.2 hn
    rw [List.flatMap_nil, List.nil_append, stringBody.eq_def]
    rfl
  | cons c s ih =>
    obtain ⟨n, rfl⟩ := Nat.exists_eq_add_one.2 (Nat.zero_lt_of_lt hn)
    rw [List.flatMap_cons, List.append_assoc, stringBody_written (jsonWritten c) (by simp),
      ih (Nat.lt_of_succ_lt_succ hn)]
    rfl

theorem length_le_flatMap_jsonChar (s : List Char) : s.length ≤ (s.flatMap jsonChar).length := by
  induction s with
  | nil => exact Nat.zero_le _
  | cons c s ih =>
    have hc := (jsonWritten c).length_pos
    rw [List.flatMap_cons, List.length_append, List.length_cons]
    omega

theorem string_jsonString (s : List Char) (rest : List Char) :
    string (s.flatMap jsonChar ++ '"' :: rest) = .ok (⟨s.map .char⟩, rest) := by
  have hl := length_le_flatMap_jsonChar s
  have hb := stringBody_flatMap (s := s) (n := (s.flatMap jsonChar ++ '"' :: rest).length + 1)
    (by rw [List.length_append]; omega) ((s.flatMap jsonChar ++ '"' :: rest).length + 1) rest
  rw [string, hb]
  rfl

/-- The document that a string is written as. -/
theorem document_jsonString (s : String) :
    document (jsonString s).toList = .ok (.string (.ofString s)) := by
  have ht : (jsonString s).toList = '"' :: (s.toList.flatMap jsonChar ++ ['"']) := by
    rw [jsonString, String.toList_ofList]
    rfl
  have hv (n : Nat) : value (n + 1) ('"' :: (s.toList.flatMap jsonChar ++ ['"'])) =
      .ok (.string (.ofString s), []) := by
    rw [value.eq_def]
    simp only [string_jsonString]
    rfl
  have hk : skipSpace ('"' :: (s.toList.flatMap jsonChar ++ ['"'])) =
      '"' :: (s.toList.flatMap jsonChar ++ ['"']) := rfl
  rw [ht, document, if_neg (by simp), hk, hv]
  rfl

end Json

theorem jsonString_injective : Function.Injective jsonString := by
  intro s t h
  have hs := Json.document_jsonString s
  rw [h, Json.document_jsonString] at hs
  exact (JsonText.ofString_inj.1 (JsonValue.string.inj (Except.ok.inj hs))).symm

/-! ## Quotes and lines -/

namespace Text

theorem backslashes_flatMap (s : List Char) : backslashes (s.flatMap jsonChar) % 2 = 0 := by
  induction s with
  | nil => rfl
  | cons c s ih => rw [List.flatMap_cons, backslashes_append (jsonWritten c).even, ih]

/-- Every quote in the text is escaped. -/
theorem quote_flatMap (h : s.flatMap jsonChar = before ++ '"' :: after) :
    backslashes before % 2 = 1 := by
  induction s generalizing before with
  | nil => simp at h
  | cons c s ih =>
    rw [List.flatMap_cons] at h
    -- The quote is behind all that is written for `c`, or in it.
    obtain ⟨x, rfl, hx⟩ | ⟨x, hc, hx⟩ := List.append_eq_append_iff.1 h
    · rw [backslashes_append (jsonWritten c).even]
      exact ih hx
    · cases x with
      | nil =>
        have hs : s.flatMap jsonChar = [] ++ '"' :: after := hx.symm
        exact absurd (ih hs) (by decide)
      | cons d x =>
        obtain rfl := (List.cons.inj hx).1
        exact (jsonWritten c).quote hc

theorem visible_flatMap (s : List Char) : ∀ d ∈ s.flatMap jsonChar, 0x20 ≤ d.toNat := by
  intro d hd
  obtain ⟨c, -, hd⟩ := List.mem_flatMap.1 hd
  exact (jsonWritten c).visible d hd

theorem newline_notMem_jsonString (s : String) : '\n' ∉ (jsonString s).toList := by
  intro h
  have hm : '\n' ∈ s.toList.flatMap jsonChar := by
    rw [jsonString, String.toList_ofList, jsonStringChars] at h
    simpa using h
  exact absurd (visible_flatMap _ _ hm) (by decide)

end Text

end Ferrotype
