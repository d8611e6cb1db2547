import Ferrotype.Proofs.Apart
import Ferrotype.Proofs.Token.Escapes

/-!
# String literals

The reader of tokens and the reader of values take a string literal apart on their own. The first
one looks no further than one character behind a backslash, the second one reads whole escapes, and
they agree about where the literal ends.
-/

namespace Ferrotype

open Text

variable {c quote : Char} {s rest : List Char} {parts : List StringPart} {kind : Kind} {n : Nat}

/-- The text between double quotes. -/
def quotedText (s : List Char) : String := String.ofList ('"' :: (s ++ ['"']))

/-- What closes a raw literal. -/
def rawClosing (n : Nat) : List Char := '"' :: List.replicate n '#'

/-- The text as a raw literal with `n` number signs. -/
def rawText (n : Nat) (s : List Char) : String :=
  String.ofList ('r' :: (List.replicate n '#' ++ '"' :: (s ++ rawClosing n)))

/-- The text is one token, a string literal, with a value. -/
structure IsStringLiteral (text : String) (value : List Char) : Prop where
  token : tokenize text = .ok ⟨[⟨.string, text, .start⟩], Position.start.after text.toList⟩
  cooked : cookString text = .ok (String.ofList value)

/-! ## Literals with escapes -/

theorem closeQuote_run {run : List Char} (h : ∀ c ∈ run, c ≠ '\\' ∧ c ≠ quote) :
    closeQuote quote (run ++ rest) =
      (closeQuote quote rest).map fun r => (run ++ r.1, r.2) := by
  induction run with
  | nil => simp
  | cons c run ih =>
    rw [List.forall_mem_cons] at h
    rw [List.cons_append, closeQuote_cons h.1.1, if_neg h.1.2, ih h.2, Option.map_map]
    rfl

theorem closeQuote_escape (c : Char) {run : List Char} (h : ∀ c ∈ run, c ≠ '\\' ∧ c ≠ quote) :
    closeQuote quote ('\\' :: c :: (run ++ rest)) =
      (closeQuote quote rest).map fun r => ('\\' :: c :: (run ++ r.1), r.2) := by
  rw [closeQuote, closeQuote_run h, Option.map_map]
  rfl

theorem unquoted_of_class {p : Char → Bool} (hs : p '\\' = false) (hq : p '"' = false)
    (h : p c = true) : c ≠ '\\' ∧ c ≠ '"' := by
  constructor
  · rintro rfl
    rw [hs] at h
    cases h
  · rintro rfl
    rw [hq] at h
    cases h

/-- No backslash and no quote stands behind the first two characters of an escape. -/
theorem StringPart.text_eq (p : StringPart) (h : p.isQuote = false) :
    (∃ c, p.text = [c] ∧ c ≠ '\\' ∧ c ≠ '"') ∨
      ∃ c run, p.text = '\\' :: c :: run ∧ ∀ c ∈ run, c ≠ '\\' ∧ c ≠ '"' := by
  have hex {c : Char} : isHexDigit c = true → c ≠ '\\' ∧ c ≠ '"' :=
    unquoted_of_class (by decide) (by decide)
  cases p with
  | char c hc => exact .inl ⟨c, rfl, hc, by simpa [isQuote] using h⟩
  | simple letter => exact .inr ⟨letter, [], rfl, by simp⟩
  | hex pair =>
    refine .inr ⟨'x', [pair.high, pair.low], rfl, ?_⟩
    simp [hex pair.high_hex, hex pair.low_hex]
  | unicode run =>
    refine .inr ⟨'u', '{' :: (run.chars ++ ['}']), rfl, ?_⟩
    rw [List.forall_mem_cons, List.forall_mem_append]
    refine ⟨by decide, fun c hc => ?_, by simp⟩
    exact unquoted_of_class (p := fun c => isHexDigit c || c == '_') (by decide) (by decide)
      (run.hex c hc)
  | join blanks hb =>
    exact .inr ⟨'\n', blanks, rfl, fun c hc => unquoted_of_class (by decide) (by decide) (hb c hc)⟩

/-- No part but a double quote on its own closes a literal. -/
theorem closeQuote_part (p : StringPart) (h : p.isQuote = false) :
    closeQuote '"' (p.text ++ rest) =
      (closeQuote '"' rest).map fun r => (p.text ++ r.1, r.2) := by
  obtain ⟨c, hp, hc⟩ | ⟨c, run, hp, hr⟩ := p.text_eq h
  · rw [hp]
    exact closeQuote_run (by simpa using hc)
  · rw [hp]
    exact closeQuote_escape c hr

theorem closeQuote_textOf (h : ∀ p ∈ parts, p.isQuote = false) :
    closeQuote '"' (StringPart.textOf parts ++ '"' :: rest) =
      some (StringPart.textOf parts ++ ['"'], rest) := by
  induction parts with
  | nil => simp [closeQuote]
  | cons p ps ih =>
    rw [List.forall_mem_cons] at h
    rw [StringPart.textOf_cons, List.append_assoc, closeQuote_part p h.1, ih h.2]
    simp

theorem readsAlone_textOf (h : ∀ p ∈ parts, p.isQuote = false) :
    ReadsAlone .string (quotedText (StringPart.textOf parts)).toList := by
  refine ⟨'"', StringPart.textOf parts ++ ['"'], String.toList_ofList, by decide, ?_⟩
  change quotedLiteral .string ['"'] '"' (StringPart.textOf parts ++ ['"']) = _
  rw [quotedLiteral, closeQuote_textOf h, quotedText, String.toList_ofList]
  rfl

theorem cookString_quotedText (s : List Char) :
    cookString (quotedText s) = (unescape s).map String.ofList := by
  simp [cookString, quotedText]

/-! ## Raw literals -/

/-- Number signs in front of a text and its closing all stand before the closing. -/
theorem hashes_within (h : List.replicate n '#' <+: s ++ rawClosing n) :
    List.replicate n '#' <+: s := by
  have hq : '"' ∉ List.replicate n '#' := fun hq => absurd (List.eq_of_mem_replicate hq) (by decide)
  have hs : s ++ ['"'] <+: s ++ rawClosing n := ⟨List.replicate n '#', by simp [rawClosing]⟩
  obtain hp | hp := List.prefix_or_prefix_of_prefix h hs
  · obtain hp | hp := List.prefix_concat_iff.1 hp
    · exact absurd (by simp [hp]) hq
    · exact hp
  · exact absurd (hp.subset (by simp)) hq

/-- A text without the closing of a raw literal does not close it early. -/
theorem closeRaw_closing (h : ¬rawClosing n <:+: s) :
    closeRaw n (s ++ rawClosing n) = some (s ++ rawClosing n, []) := by
  induction s with
  | nil => simp [closeRaw, rawClosing]
  | cons c s ih =>
    have hn : ¬(c = '"' ∧ (List.replicate n '#').isPrefixOf (s ++ rawClosing n) = true) := by
      rintro ⟨rfl, hp⟩
      rw [List.isPrefixOf_iff_prefix] at hp
      exact h ((List.prefix_cons_inj '"').2 (hashes_within hp)).isInfix
    have hs : ¬rawClosing n <:+: s := fun hi => h (List.infix_cons hi)
    rw [List.cons_append, closeRaw, if_neg hn, ih hs]
    rfl

theorem readsAlone_rawText (h : ¬rawClosing n <:+: s) :
    ReadsAlone .string (rawText n s).toList := by
  have hd : (List.replicate n '#' ++ '"' :: (s ++ rawClosing n)).dropWhile (· = '#') =
      '"' :: (s ++ rawClosing n) :=
    dropWhile_front (by simp) (by simp)
  refine ⟨'r', _, String.toList_ofList, by decide, ?_⟩
  rw [(firstLexeme_raw n _).1, rawLiteral, takeWhile_hashes, hd]
  simp only [List.length_replicate, closeRaw_closing h]
  simp [rawText]

theorem rawBody_closing (n : Nat) (s : List Char) :
    rawBody (List.replicate n '#' ++ '"' :: (s ++ rawClosing n)) = s := by
  have hs : List.replicate n '#' ++ '"' :: (s ++ rawClosing n) =
      (List.replicate n '#' ++ ['"']) ++ s ++ rawClosing n := by
    simp
  have hl : (List.replicate n '#' ++ ['"'] ++ s ++ rawClosing n).length - (n + 1) =
      (List.replicate n '#' ++ ['"'] ++ s).length := by
    simp [rawClosing]
    omega
  rw [rawBody, takeWhile_hashes, List.length_replicate, hs, hl, List.take_left]
  exact List.drop_left' (by simp)

theorem cookString_rawText (n : Nat) (s : List Char) :
    cookString (rawText n s) = .ok (String.ofList s) := by
  simp only [cookString, rawText, String.toList_ofList, rawBody_closing]

/-! ## Both kinds -/

theorem ReadsAlone.tokenize {text : String} (h : ReadsAlone kind text.toList) :
    tokenize text = .ok ⟨[⟨kind, text, .start⟩], Position.start.after text.toList⟩ := by
  refine tokenize_eq_ok.2 ⟨?_, rfl⟩
  have hs := shebang_of_readsAlone (u := []) h (by simp)
  rw [List.append_nil] at hs
  rw [hs]
  exact h.tokensFrom_last .start

/--
A text has a value just when it is written in parts, and has the value of these. Between quotes it
is one token with that value, unless a quote stands for itself in it. As a raw literal it is one
token that has the text as its value, unless what closes the literal is in it.
-/
theorem stringLiteral_exact (s : List Char) :
    (∀ v, unescape s = .ok v ↔ ∃ parts, StringPart.Joined parts ∧ StringPart.textOf parts = s ∧
      StringPart.valueOf parts = v) ∧
    (∀ parts, StringPart.Joined parts → StringPart.textOf parts = s →
      (∀ p ∈ parts, p.isQuote = false) →
      IsStringLiteral (quotedText s) (StringPart.valueOf parts)) ∧
    ∀ n, ¬rawClosing n <:+: s → IsStringLiteral (rawText n s) s := by
  refine ⟨fun v => unescape_eq_ok, ?_, fun n hn => ?_⟩
  · rintro parts hj rfl hq
    refine ⟨(readsAlone_textOf hq).tokenize, ?_⟩
    rw [cookString_quotedText, unescape_textOf hj]
    rfl
  · exact ⟨(readsAlone_rawText hn).tokenize, cookString_rawText n s⟩

/-- A quote behind a backslash, escapes of both lengths and a joined line. -/
theorem stringLiteral_exact_escapes :
    ∃ parts, StringPart.Joined parts ∧
      StringPart.textOf parts = "\\\"#\\x41\\u\x7b1F_600\x7d\\\n  b".toList ∧
      (∀ p ∈ parts, p.isQuote = false) ∧
      unescape (StringPart.textOf parts) = .ok "\"#A😀b".toList ∧
      IsStringLiteral (quotedText (StringPart.textOf parts)) "\"#A😀b".toList ∧
      ¬rawClosing 2 <:+: StringPart.textOf parts ∧
      IsStringLiteral (rawText 2 (StringPart.textOf parts)) (StringPart.textOf parts) := by
  let parts : List StringPart := [.simple '"' '"' (by decide), .char '#' (by decide),
    .hex ⟨'4', '1', by decide, by decide, by decide⟩,
    .unicode ⟨['1', 'F', '_', '6', '0', '0'], List.all_eq_true.1 (by decide), by decide, by decide,
      by decide, by decide⟩,
    .join [' ', ' '] (List.all_eq_true.1 (by decide)), .char 'b' (by decide)]
  have hj : StringPart.Joined parts := by
    refine ⟨trivial, trivial, trivial, trivial, ?_, trivial, trivial⟩
    rintro _ ⟨⟩
    decide
  have hq : ∀ p ∈ parts, p.isQuote = false := by decide
  have hv : StringPart.valueOf parts = "\"#A😀b".toList := by decide
  have hn : ¬rawClosing 2 <:+: StringPart.textOf parts := by decide
  obtain ⟨hs, hp, hr⟩ := stringLiteral_exact (StringPart.textOf parts)
  refine ⟨parts, hj, by decide, hq, (hs _).2 ⟨parts, hj, rfl, hv⟩, ?_, hn, hr 2 hn⟩
  rw [← hv]
  exact hp parts hj rfl hq

end Ferrotype
