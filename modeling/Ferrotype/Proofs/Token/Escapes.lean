import Ferrotype.Proofs.Except
import Ferrotype.Proofs.Token.Integer

/-!
# The parts of string literals

What stands between the quotes is written in parts: characters that stand for themselves, and
escapes. A text has a value just when it is such parts, and the value is what they stand for.
-/

namespace Ferrotype

open Text

variable {c d : Char} {s rest v : List Char}

/-! ## Parts -/

/-- The letters that stand for one character, each with that character. -/
def simpleEscapes : List (Char × Char) :=
  [('n', '\n'), ('r', '\r'), ('t', '\t'), ('\\', '\\'), ('0', '\x00'), ('\'', '\''), ('"', '"')]

/-- Two digits that name an ASCII character. -/
structure HexPair where
  high : Char
  low : Char
  high_hex : isHexDigit high = true
  low_hex : isHexDigit low = true
  ascii : ofDigits 16 [high, low] ≤ 0x7F

def HexPair.code (pair : HexPair) : Nat := ofDigits 16 [pair.high, pair.low]

/-- The digits of a run that may have underscores among them. -/
def digitsOf (run : List Char) : List Char := run.filter (· ≠ '_')

/-- A run whose digits name a character. Surrogates are no characters. -/
structure CodeRun where
  chars : List Char
  hex : ∀ c ∈ chars, (isHexDigit c || c == '_') = true
  some : 1 ≤ (digitsOf chars).length
  few : (digitsOf chars).length ≤ 6
  inUnicode : ofDigits 16 (digitsOf chars) ≤ 0x10FFFF
  noSurrogate : ¬(0xD800 ≤ ofDigits 16 (digitsOf chars) ∧ ofDigits 16 (digitsOf chars) ≤ 0xDFFF)

def CodeRun.code (run : CodeRun) : Nat := ofDigits 16 (digitsOf run.chars)

inductive StringPart where
  | char (c : Char) (plain : c ≠ '\\')
  | simple (letter stood : Char) (known : (letter, stood) ∈ simpleEscapes)
  | hex (pair : HexPair)
  | unicode (run : CodeRun)
  /-- The end of a line, and the blanks that the next one begins with. -/
  | join (blanks : List Char) (blank : ∀ c ∈ blanks, isBlank c = true)

namespace StringPart

def text : StringPart → List Char
  | char c _ => [c]
  | simple letter _ _ => ['\\', letter]
  | hex pair => ['\\', 'x', pair.high, pair.low]
  | unicode run => '\\' :: 'u' :: '{' :: (run.chars ++ ['}'])
  | join blanks _ => '\\' :: '\n' :: blanks

def value : StringPart → List Char
  | char c _ => [c]
  | simple _ stood _ => [stood]
  | hex pair => [Char.ofNat pair.code]
  | unicode run => [Char.ofNat run.code]
  | join _ _ => []

/-- The part ends where the rest begins: a line that is joined leaves no blank. -/
def Ends : StringPart → List Char → Prop
  | join _ _, rest => ∀ c ∈ rest.head?, isBlank c = false
  | _, _ => True

/-- A double quote that stands for itself. -/
def isQuote : StringPart → Bool
  | char c _ => c == '"'
  | _ => false

def textOf (parts : List StringPart) : List Char := parts.flatMap text

def valueOf (parts : List StringPart) : List Char := parts.flatMap value

/-- Each part ends where the next one begins. -/
def Joined : List StringPart → Prop
  | [] => True
  | p :: ps => p.Ends (textOf ps) ∧ Joined ps

@[simp] theorem textOf_nil : textOf [] = [] := rfl

@[simp] theorem textOf_cons (p : StringPart) (ps : List StringPart) :
    textOf (p :: ps) = p.text ++ textOf ps := List.flatMap_cons

@[simp] theorem valueOf_nil : valueOf [] = [] := rfl

@[simp] theorem valueOf_cons (p : StringPart) (ps : List StringPart) :
    valueOf (p :: ps) = p.value ++ valueOf ps := List.flatMap_cons

end StringPart

/-! ## Escapes -/

theorem simpleEscape?_eq_some : simpleEscape? c = some d ↔ (c, d) ∈ simpleEscapes := by
  unfold simpleEscape?
  split <;> simp_all [simpleEscapes, eq_comm]

theorem escape_simple : ∀ q ∈ simpleEscapes, escape (q.1 :: rest) = .ok ([q.2], rest) := by
  simp [simpleEscapes, escape, simpleEscape?]

theorem hexEscape_eq_ok : hexEscape s = .ok (c, rest) ↔
    ∃ pair : HexPair, s = pair.high :: pair.low :: rest ∧ Char.ofNat pair.code = c := by
  constructor
  · intro h
    unfold hexEscape at h
    repeat' split at h
    all_goals cases h
    next a b hd hc =>
    rw [Bool.and_eq_true] at hd
    exact ⟨⟨a, b, hd.1, hd.2, hc⟩, rfl, rfl⟩
  · rintro ⟨pair, rfl, rfl⟩
    simp only [hexEscape, pair.high_hex, pair.low_hex, Bool.and_self, if_true, if_pos pair.ascii]
    rfl

theorem isValidChar_iff (n : Nat) :
    n.isValidChar ↔ n ≤ 0x10FFFF ∧ ¬(0xD800 ≤ n ∧ n ≤ 0xDFFF) := by
  rw [Nat.isValidChar]
  omega

theorem unicodeValue_eq_ok {digits : List Char} : unicodeValue digits = .ok c ↔
    (1 ≤ digits.length ∧ digits.length ≤ 6) ∧ (ofDigits 16 digits).isValidChar ∧
      Char.ofNat (ofDigits 16 digits) = c := by
  have hl : ¬(digits = [] ∨ 6 < digits.length) ↔ 1 ≤ digits.length ∧ digits.length ≤ 6 := by
    rw [not_or, not_lt, ← ne_eq, ← List.length_pos_iff]
    rfl
  rw [← hl]
  unfold unicodeValue
  split
  · next h => exact ⟨nofun, fun hn => absurd h hn.1⟩
  · next h =>
    split
    · next hv => exact ⟨fun hc => ⟨h, hv, Except.ok.inj hc⟩, fun hc => congrArg _ hc.2.2⟩
    · next hv => exact ⟨nofun, fun hc => absurd hc.2.1 hv⟩

theorem unicodeEscape_eq_ok : unicodeEscape s = .ok (c, rest) ↔
    ∃ run : CodeRun, s = '{' :: (run.chars ++ '}' :: rest) ∧ Char.ofNat run.code = c := by
  constructor
  · intro h
    unfold unicodeEscape at h
    split at h
    · next t =>
      split at h
      · next r hr =>
        obtain ⟨d, hd, h⟩ := Except.bind_eq_ok.1 h
        cases h
        obtain ⟨⟨h₁, h₆⟩, hv, hc⟩ := unicodeValue_eq_ok.1 hd
        rw [isValidChar_iff] at hv
        refine ⟨⟨_, fun c hc => List.mem_takeWhile_imp (p := fun c => isHexDigit c || c == '_') hc,
          h₁, h₆, hv.1, hv.2⟩, ?_, hc⟩
        rw [← hr, List.takeWhile_append_dropWhile]
      · cases h
    · cases h
  · rintro ⟨run, rfl, rfl⟩
    have hb : ∀ c ∈ ('}' :: rest).head?, (isHexDigit c || c == '_') = false := by
      rintro _ ⟨⟩
      decide
    have hv : unicodeValue (digitsOf run.chars) = .ok (Char.ofNat run.code) :=
      unicodeValue_eq_ok.2
        ⟨⟨run.some, run.few⟩, (isValidChar_iff _).2 ⟨run.inUnicode, run.noSurrogate⟩, rfl⟩
    rw [digitsOf, ← takeWhile_front run.hex hb] at hv
    unfold unicodeEscape
    simp only [dropWhile_front run.hex hb, hv]
    rfl

/-- What is read behind a backslash is a part. -/
theorem part_of_escape (h : escape s = .ok (v, rest)) :
    ∃ p : StringPart, p.text ++ rest = '\\' :: s ∧ p.value = v ∧ p.Ends rest := by
  unfold escape at h
  split at h
  · obtain ⟨⟨c, r⟩, hx, h⟩ := Except.bind_eq_ok.1 h
    cases h
    obtain ⟨pair, rfl, rfl⟩ := hexEscape_eq_ok.1 hx
    exact ⟨.hex pair, rfl, rfl, trivial⟩
  · obtain ⟨⟨c, r⟩, hu, h⟩ := Except.bind_eq_ok.1 h
    cases h
    obtain ⟨run, rfl, rfl⟩ := unicodeEscape_eq_ok.1 hu
    exact ⟨.unicode run, by simp [StringPart.text], rfl, trivial⟩
  · next t =>
    cases h
    refine ⟨.join (t.takeWhile isBlank) fun c hc => List.mem_takeWhile_imp hc, ?_, rfl, ?_⟩
    · simp [StringPart.text]
    · intro c hc
      have := List.head?_dropWhile_not isBlank t
      rw [hc] at this
      simpa using this
  · split at h
    · next hd =>
      cases h
      exact ⟨.simple _ _ (simpleEscape?_eq_some.1 hd), rfl, rfl, trivial⟩
    · cases h
  · cases h

/-- Each part that begins with a backslash is read behind it. -/
theorem escape_part {p : StringPart} (ht : p.text ++ rest = '\\' :: s) (he : p.Ends rest) :
    escape s = .ok (p.value, rest) := by
  cases p with
  | char c hc => exact absurd (List.cons.inj ht).1 hc
  | simple letter stood hk =>
    obtain rfl := (List.cons.inj ht).2
    exact escape_simple _ hk
  | hex pair =>
    obtain rfl := (List.cons.inj ht).2
    have hx : hexEscape (pair.high :: pair.low :: rest) = .ok (Char.ofNat pair.code, rest) :=
      hexEscape_eq_ok.2 ⟨pair, rfl, rfl⟩
    change (hexEscape (pair.high :: pair.low :: rest) >>= _) = _
    rw [hx]
    rfl
  | unicode run =>
    obtain rfl := (List.cons.inj ht).2
    have hu : unicodeEscape ('{' :: (run.chars ++ ['}'] ++ rest)) =
        .ok (Char.ofNat run.code, rest) :=
      unicodeEscape_eq_ok.2 ⟨run, by simp, rfl⟩
    change (unicodeEscape ('{' :: (run.chars ++ ['}'] ++ rest)) >>= _) = _
    rw [hu]
    rfl
  | join blanks hb =>
    obtain rfl := (List.cons.inj ht).2
    change Except.ok ([], (blanks ++ rest).dropWhile isBlank) = _
    rw [dropWhile_front hb he]
    rfl

/-! ## Whole texts -/

theorem unescape_escape (h : escape s = .ok (v, rest)) :
    unescape ('\\' :: s) = (unescape rest).map (v ++ ·) := by
  rw [unescape, if_pos rfl]
  split
  · next he =>
    rw [h] at he
    cases he
  · next he =>
    rw [h] at he
    cases he
    rfl

theorem unescape_fault {fault : EscapeFault} (h : escape s = .error fault) :
    unescape ('\\' :: s) = .error fault := by
  rw [unescape, if_pos rfl]
  split
  · next he =>
    rw [h] at he
    cases he
    rfl
  · next he =>
    rw [h] at he
    cases he

namespace StringPart

theorem char_or_escape (p : StringPart) :
    (∃ c hc, p = char c hc) ∨ ∃ s, p.text = '\\' :: s := by
  cases p with
  | char c hc => exact .inl ⟨c, hc, rfl⟩
  | _ => exact .inr ⟨_, rfl⟩

theorem length_pos (p : StringPart) : 0 < p.text.length := by
  cases p <;> exact Nat.succ_pos _

end StringPart

/-- A part at the front of a text gives what it stands for. -/
theorem unescape_part (p : StringPart) (he : p.Ends rest) :
    unescape (p.text ++ rest) = (unescape rest).map (p.value ++ ·) := by
  obtain ⟨c, hc, rfl⟩ | ⟨s, hs⟩ := p.char_or_escape
  · change unescape (c :: rest) = (unescape rest).map (c :: ·)
    rw [unescape, if_neg hc]
  · rw [hs, List.cons_append]
    exact unescape_escape (escape_part (by rw [hs, List.cons_append]) he)

/-- A text that has a value begins with a part. -/
theorem part_of_unescape (h : unescape (c :: s) = .ok v) :
    ∃ (p : StringPart) (rest w : List Char), p.text ++ rest = c :: s ∧ p.Ends rest ∧
      unescape rest = .ok w ∧ p.value ++ w = v := by
  by_cases hc : c = '\\'
  · subst hc
    cases he : escape s with
    | error fault =>
      rw [unescape_fault he] at h
      cases h
    | ok r =>
      obtain ⟨p, ht, hv, hp⟩ := part_of_escape he
      rw [unescape_escape he, Except.map_eq_ok] at h
      obtain ⟨w, hw, rfl⟩ := h
      exact ⟨p, _, w, ht, hp, hw, by rw [hv]⟩
  · rw [unescape, if_neg hc, Except.map_eq_ok] at h
    obtain ⟨w, hw, rfl⟩ := h
    exact ⟨.char c hc, s, w, rfl, trivial, hw, rfl⟩

theorem unescape_textOf {parts : List StringPart} (h : StringPart.Joined parts) :
    unescape (StringPart.textOf parts) = .ok (StringPart.valueOf parts) := by
  induction parts with
  | nil =>
    rw [StringPart.textOf_nil, unescape]
    rfl
  | cons p ps ih =>
    rw [StringPart.textOf_cons, unescape_part p h.1, ih h.2]
    rfl

/-- A text has a value just when it is written in parts, and has the value of these. -/
theorem unescape_eq_ok : unescape s = .ok v ↔
    ∃ parts, StringPart.Joined parts ∧ StringPart.textOf parts = s ∧
      StringPart.valueOf parts = v := by
  constructor
  · intro h
    induction hn : s.length using Nat.strongRecOn generalizing s v with
    | ind n ih =>
    subst hn
    cases s with
    | nil =>
      rw [unescape] at h
      cases h
      exact ⟨[], trivial, rfl, rfl⟩
    | cons c s =>
      obtain ⟨p, rest, w, ht, hp, hw, rfl⟩ := part_of_unescape h
      have hl : rest.length < (c :: s).length := by
        rw [← ht, List.length_append]
        exact Nat.lt_add_of_pos_left p.length_pos
      obtain ⟨parts, hj, rfl, rfl⟩ := ih rest.length hl hw rfl
      refine ⟨p :: parts, ⟨hp, hj⟩, ?_, StringPart.valueOf_cons p parts⟩
      rw [StringPart.textOf_cons, ht]
  · rintro ⟨parts, hj, rfl, rfl⟩
    exact unescape_textOf hj

end Ferrotype
