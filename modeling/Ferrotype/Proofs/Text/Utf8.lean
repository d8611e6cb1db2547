import Ferrotype.Proofs.Except
import Ferrotype.Text.Utf8
import Mathlib.Data.List.TakeWhile
import Mathlib.Tactic.Common

/-!
# Bytes that are a text

Strict decoding accepts exactly the bytes that some text is written with, and gives that text.
-/

namespace Ferrotype.Text

variable {first low high : UInt8} {tail bytes : List UInt8} {c : Char} {text : List Char}

/-- The bytes that a text is written with. -/
def encodeUtf8 (text : List Char) : List UInt8 := text.flatMap String.utf8EncodeChar

/-! ## The bytes of a character -/

/-- What a first byte announces: how many bytes there are, and the bounds of the second. -/
inductive Announces (b : UInt8) : Option (Nat × UInt8 × UInt8) → Prop where
  | one (h : b.toNat < 0x80) : Announces b (some (1, 0, 0))
  | two (h : 0xC2 ≤ b.toNat) (h' : b.toNat < 0xE0) : Announces b (some (2, 0x80, 0xBF))
  | three {low high : UInt8} (h : 0xE0 ≤ b.toNat) (h' : b.toNat < 0xF0)
    (hb : ∀ n, low.toNat ≤ n ∧ n ≤ high.toNat ↔ (0x80 ≤ n ∧ n ≤ 0xBF) ∧
      (b.toNat = 0xE0 → 0xA0 ≤ n) ∧ (b.toNat = 0xED → n ≤ 0x9F)) :
    Announces b (some (3, low, high))
  | four {low high : UInt8} (h : 0xF0 ≤ b.toNat) (h' : b.toNat < 0xF5)
    (hb : ∀ n, low.toNat ≤ n ∧ n ≤ high.toNat ↔ (0x80 ≤ n ∧ n ≤ 0xBF) ∧
      (b.toNat = 0xF0 → 0x90 ≤ n) ∧ (b.toNat = 0xF4 → n ≤ 0x8F)) :
    Announces b (some (4, low, high))
  | nothing (h : 0x80 ≤ b.toNat) (h' : b.toNat < 0xC2 ∨ 0xF5 ≤ b.toNat) : Announces b none

theorem announces (b : UInt8) : Announces b (sequenceShape? b) := by
  simp only [sequenceShape?, UInt8.lt_iff_toNat_lt, ← UInt8.toNat_inj, UInt8.reduceToNat]
  split_ifs
  · exact .one ‹_›
  · exact .nothing (by omega) (by omega)
  · exact .two (by omega) (by omega)
  -- A second byte that would spell a shorter sequence, a surrogate or too much is out of bounds.
  · exact .three (by omega) (by omega) fun n => by simp only [UInt8.reduceToNat]; omega
  · exact .three (by omega) (by omega) fun n => by simp only [UInt8.reduceToNat]; omega
  · exact .three (by omega) (by omega) fun n => by simp only [UInt8.reduceToNat]; omega
  · exact .four (by omega) (by omega) fun n => by simp only [UInt8.reduceToNat]; omega
  · exact .four (by omega) (by omega) fun n => by simp only [UInt8.reduceToNat]; omega
  · exact .four (by omega) (by omega) fun n => by simp only [UInt8.reduceToNat]; omega
  · exact .nothing (by omega) (by omega)

theorem isContinuation_iff (b : UInt8) :
    isContinuation b = true ↔ 0x80 ≤ b.toNat ∧ b.toNat ≤ 0xBF := by
  simp [isContinuation, UInt8.le_iff_toNat_le]

theorem fitting_le (low high : UInt8) (tail : List UInt8) :
    fitting low high tail ≤ tail.length := by
  cases tail with
  | nil => exact Nat.le_refl _
  | cons b tail =>
    have := (List.takeWhile_prefix isContinuation (l := tail)).length_le
    rw [fitting, List.length_cons]
    split <;> omega

/-- All bytes of a tail fit if the second byte keeps its bounds and the others continue. -/
theorem fitting_cons {b : UInt8} : fitting low high (b :: tail) = (b :: tail).length ↔
    (low.toNat ≤ b.toNat ∧ b.toNat ≤ high.toNat) ∧
      ∀ d ∈ tail, 0x80 ≤ d.toNat ∧ d.toNat ≤ 0xBF := by
  have htail : (tail.takeWhile isContinuation).length = tail.length ↔
      ∀ d ∈ tail, 0x80 ≤ d.toNat ∧ d.toNat ≤ 0xBF := by
    simp only [← isContinuation_iff]
    rw [← List.takeWhile_eq_self_iff]
    exact ⟨(List.takeWhile_prefix _).eq_of_length, congrArg List.length⟩
  rw [fitting, List.length_cons, ← htail, ← UInt8.le_iff_toNat_le, ← UInt8.le_iff_toNat_le]
  by_cases hb : low ≤ b ∧ b ≤ high
  · simp [hb, Nat.add_comm]
  · simp [hb]

section CodePoint

variable (b x y z : UInt8)

theorem codePoint_one : codePoint b [] = b.toNat := rfl

theorem codePoint_two : codePoint b [x] = b.toNat % 0x20 * 64 + x.toNat % 64 := rfl

theorem codePoint_three :
    codePoint b [x, y] = (b.toNat % 0x10 * 64 + x.toNat % 64) * 64 + y.toNat % 64 := rfl

theorem codePoint_four : codePoint b [x, y, z] =
    ((b.toNat % 0x08 * 64 + x.toNat % 64) * 64 + y.toNat % 64) * 64 + z.toNat % 64 := rfl

end CodePoint

section Encoding

variable {n : Nat} (h : n.isValidChar)
include h

theorem val_ofNat : (Char.ofNat n).val.toNat = n := congrArg Char.toNat (dif_pos h)

theorem encode_one (hu : n < 0x80) : String.utf8EncodeChar (Char.ofNat n) = [UInt8.ofNat n] := by
  simp only [String.utf8EncodeChar, val_ofNat h]
  rw [if_pos (by omega)]

theorem encode_two (hl : 0x80 ≤ n) (hu : n < 0x800) : String.utf8EncodeChar (Char.ofNat n) =
    [UInt8.ofNat (n / 64 + 0xC0), UInt8.ofNat (n % 64 + 0x80)] := by
  simp only [String.utf8EncodeChar, val_ofNat h]
  rw [if_neg (by omega), if_pos (by omega), Nat.mod_eq_of_lt (a := n / 64) (by omega)]

theorem encode_three (hl : 0x800 ≤ n) (hu : n < 0x10000) : String.utf8EncodeChar (Char.ofNat n) =
    [UInt8.ofNat (n / 4096 + 0xE0), UInt8.ofNat (n / 64 % 64 + 0x80),
      UInt8.ofNat (n % 64 + 0x80)] := by
  simp only [String.utf8EncodeChar, val_ofNat h]
  rw [if_neg (by omega), if_neg (by omega), if_pos (by omega),
    Nat.mod_eq_of_lt (a := n / 4096) (by omega)]

theorem encode_four (hl : 0x10000 ≤ n) (hu : n < 0x110000) :
    String.utf8EncodeChar (Char.ofNat n) =
      [UInt8.ofNat (n / 262144 + 0xF0), UInt8.ofNat (n / 4096 % 64 + 0x80),
        UInt8.ofNat (n / 64 % 64 + 0x80), UInt8.ofNat (n % 64 + 0x80)] := by
  simp only [String.utf8EncodeChar, val_ofNat h]
  rw [if_neg (by omega), if_neg (by omega), if_neg (by omega),
    Nat.mod_eq_of_lt (a := n / 262144) (by omega)]

end Encoding

/-! ## One character -/

/-- Whether decoding reads a character from a first byte and the bytes that it announces. -/
def IsSequence (first : UInt8) (tail : List UInt8) (c : Char) : Prop :=
  ∃ low high, sequenceShape? first = some (tail.length + 1, low, high) ∧
    fitting low high tail = tail.length ∧ c = Char.ofNat (codePoint first tail)

theorem ofNat_eq {n : Nat} {b : UInt8} (h : n = b.toNat) : UInt8.ofNat n = b := by
  rw [h, UInt8.ofNat_toNat]

/-- What is read as a character is what that character is written with. -/
theorem IsSequence.encode (h : IsSequence first tail c) :
    String.utf8EncodeChar c = first :: tail := by
  obtain ⟨low, high, hs, h, rfl⟩ := h
  have ha := announces first
  rw [hs] at ha
  match tail, ha with
  | [], .one hf =>
    rw [codePoint_one, encode_one (.inl (by omega)) hf, UInt8.ofNat_toNat]
  | [x], .two hf hf' =>
    obtain ⟨⟨hx, hx'⟩, -⟩ := fitting_cons.1 h
    simp only [UInt8.reduceToNat] at hx hx'
    rw [codePoint_two, encode_two (.inl (by omega)) (by omega) (by omega),
      ofNat_eq (b := first) (by omega), ofNat_eq (b := x) (by omega)]
  | [x, y], .three hf hf' hb =>
    obtain ⟨hx, ht⟩ := fitting_cons.1 h
    obtain ⟨⟨hx, hx'⟩, hlow, hhigh⟩ := (hb _).1 hx
    obtain ⟨hy, hy'⟩ := ht y (by simp)
    rw [codePoint_three, encode_three (by rw [Nat.isValidChar]; omega) (by omega) (by omega),
      ofNat_eq (b := first) (by omega), ofNat_eq (b := x) (by omega),
      ofNat_eq (b := y) (by omega)]
  | [x, y, z], .four hf hf' hb =>
    obtain ⟨hx, ht⟩ := fitting_cons.1 h
    obtain ⟨⟨hx, hx'⟩, hlow, hhigh⟩ := (hb _).1 hx
    obtain ⟨hy, hy'⟩ := ht y (by simp)
    obtain ⟨hz, hz'⟩ := ht z (by simp)
    rw [codePoint_four, encode_four (by rw [Nat.isValidChar]; omega) (by omega) (by omega),
      ofNat_eq (b := first) (by omega), ofNat_eq (b := x) (by omega),
      ofNat_eq (b := y) (by omega), ofNat_eq (b := z) (by omega)]

section Decoding

-- The library's bound is a constant that `omega` does not open.
theorem toNat_ofNat {n : Nat} (h : n < 256) : (UInt8.ofNat n).toNat = n :=
  UInt8.toNat_ofNat_of_lt' h

variable {n : Nat}

theorem isSequence_one (hu : n < 0x80) : IsSequence (UInt8.ofNat n) [] (Char.ofNat n) := by
  have hf := toNat_ofNat (n := n) (by omega)
  match hs : sequenceShape? (UInt8.ofNat n), announces (UInt8.ofNat n) with
  | _, .one _ => exact ⟨_, _, hs, rfl, by rw [codePoint_one, hf]⟩
  | _, .two .. | _, .three .. | _, .four .. | _, .nothing .. => omega

theorem isSequence_two (hl : 0x80 ≤ n) (hu : n < 0x800) :
    IsSequence (UInt8.ofNat (n / 64 + 0xC0)) [UInt8.ofNat (n % 64 + 0x80)] (Char.ofNat n) := by
  have hf := toNat_ofNat (n := n / 64 + 0xC0) (by omega)
  have hx := toNat_ofNat (n := n % 64 + 0x80) (by omega)
  match hs : sequenceShape? (UInt8.ofNat (n / 64 + 0xC0)), announces _ with
  | _, .two _ _ =>
    refine ⟨_, _, hs, fitting_cons.2 ⟨?_, nofun⟩, ?_⟩
    · simp only [UInt8.reduceToNat]
      omega
    · rw [codePoint_two, hf, hx]
      congr
      omega
  | _, .one .. | _, .three .. | _, .four .. | _, .nothing .. => omega

theorem isSequence_three (hv : n.isValidChar) (hl : 0x800 ≤ n) (hu : n < 0x10000) :
    IsSequence (UInt8.ofNat (n / 4096 + 0xE0))
      [UInt8.ofNat (n / 64 % 64 + 0x80), UInt8.ofNat (n % 64 + 0x80)] (Char.ofNat n) := by
  have hv : n < 0xD800 ∨ 0xDFFF < n ∧ n < 0x110000 := hv
  have hf := toNat_ofNat (n := n / 4096 + 0xE0) (by omega)
  have hx := toNat_ofNat (n := n / 64 % 64 + 0x80) (by omega)
  have hy := toNat_ofNat (n := n % 64 + 0x80) (by omega)
  match hs : sequenceShape? (UInt8.ofNat (n / 4096 + 0xE0)), announces _ with
  | _, .three _ _ hb =>
    refine ⟨_, _, hs, fitting_cons.2 ⟨(hb _).2 (by omega), ?_⟩, ?_⟩
    · rw [List.forall_mem_singleton]
      omega
    · rw [codePoint_three, hf, hx, hy]
      congr
      omega
  | _, .one .. | _, .two .. | _, .four .. | _, .nothing .. => omega

theorem isSequence_four (hl : 0x10000 ≤ n) (hu : n < 0x110000) :
    IsSequence (UInt8.ofNat (n / 262144 + 0xF0)) [UInt8.ofNat (n / 4096 % 64 + 0x80),
      UInt8.ofNat (n / 64 % 64 + 0x80), UInt8.ofNat (n % 64 + 0x80)] (Char.ofNat n) := by
  have hf := toNat_ofNat (n := n / 262144 + 0xF0) (by omega)
  have hx := toNat_ofNat (n := n / 4096 % 64 + 0x80) (by omega)
  have hy := toNat_ofNat (n := n / 64 % 64 + 0x80) (by omega)
  have hz := toNat_ofNat (n := n % 64 + 0x80) (by omega)
  match hs : sequenceShape? (UInt8.ofNat (n / 262144 + 0xF0)), announces _ with
  | _, .four _ _ hb =>
    refine ⟨_, _, hs, fitting_cons.2 ⟨(hb _).2 (by omega), ?_⟩, ?_⟩
    · rw [List.forall_mem_cons, List.forall_mem_singleton]
      omega
    · rw [codePoint_four, hf, hx, hy, hz]
      congr
      omega
  | _, .one .. | _, .two .. | _, .three .. | _, .nothing .. => omega

end Decoding

/-- The bytes that a character is written with are read as that character. -/
theorem isSequence_of_encode (h : String.utf8EncodeChar c = first :: tail) :
    IsSequence first tail c := by
  obtain ⟨n, hv, rfl⟩ : ∃ n, n.isValidChar ∧ c = Char.ofNat n := ⟨c.toNat, c.valid, by simp⟩
  have hu : n < 0xD800 ∨ 0xDFFF < n ∧ n < 0x110000 := hv
  obtain h1 | h1 := Nat.lt_or_ge n 0x80
  · rw [encode_one hv h1] at h
    obtain ⟨rfl, rfl⟩ := List.cons.inj h
    exact isSequence_one h1
  obtain h2 | h2 := Nat.lt_or_ge n 0x800
  · rw [encode_two hv h1 h2] at h
    obtain ⟨rfl, rfl⟩ := List.cons.inj h
    exact isSequence_two h1 h2
  obtain h3 | h3 := Nat.lt_or_ge n 0x10000
  · rw [encode_three hv h2 h3] at h
    obtain ⟨rfl, rfl⟩ := List.cons.inj h
    exact isSequence_three hv h2 h3
  · rw [encode_four hv h3 (by omega)] at h
    obtain ⟨rfl, rfl⟩ := List.cons.inj h
    exact isSequence_four h3 (by omega)

/-! ## Texts -/

theorem decodeFrom_sequence (h : IsSequence first tail c) (offset : Nat) (rest : List UInt8) :
    decodeFrom offset (first :: (tail ++ rest)) =
      (decodeFrom (offset + (tail.length + 1)) rest).map (c :: ·) := by
  obtain ⟨low, high, hs, hf, rfl⟩ := h
  rw [decodeFrom, hs]
  simp [hf]

theorem decodeFrom_encodeUtf8 (offset : Nat) (text : List Char) :
    decodeFrom offset (encodeUtf8 text) = .ok text := by
  induction text generalizing offset with
  | nil => rw [encodeUtf8, List.flatMap_nil, decodeFrom]
  | cons c text ih =>
    obtain ⟨first, tail, hc⟩ := List.exists_cons_of_ne_nil (String.utf8EncodeChar_ne_nil (c := c))
    rw [encodeUtf8, List.flatMap_cons, hc, List.cons_append,
      decodeFrom_sequence (isSequence_of_encode hc), ← encodeUtf8, ih]
    rfl

theorem eq_encodeUtf8_of_decodeFrom {offset : Nat} (h : decodeFrom offset bytes = .ok text) :
    bytes = encodeUtf8 text := by
  revert text
  fun_induction decodeFrom offset bytes with
  | case1 =>
    rintro _ ⟨⟩
    rfl
  | case3 offset first rest length low high hs tail good hg =>
    rename_i ih
    intro _ h
    obtain ⟨cs, hcs, rfl⟩ := Except.map_eq_ok.1 h
    -- What fits is all that was announced, so nothing of it is missing.
    have htail : tail.length = good ∧ tail.length + 1 = length := by
      have hfit : good ≤ tail.length := fitting_le low high tail
      have htake : tail.length ≤ length - 1 := List.length_take_le (length - 1) rest
      omega
    have hc : IsSequence first tail (Char.ofNat (codePoint first tail)) :=
      ⟨low, high, htail.2 ▸ hs, htail.1.symm, rfl⟩
    rw [encodeUtf8, List.flatMap_cons, hc.encode, ← encodeUtf8, ← ih hcs, List.cons_append,
      List.take_append_drop]
  | _ => exact nofun

/-- Decoding accepts what some text is written with, and gives that text. -/
theorem decodeUtf8_eq_ok : decodeUtf8 bytes = .ok text ↔ bytes = encodeUtf8 text :=
  ⟨eq_encodeUtf8_of_decodeFrom, fun h => h ▸ decodeFrom_encodeUtf8 0 text⟩

theorem encodeUtf8_injective : Function.Injective encodeUtf8 := by
  intro s t h
  have hs := decodeUtf8_eq_ok.2 h
  rw [decodeUtf8_eq_ok.2 rfl] at hs
  exact Except.ok.inj hs

end Ferrotype.Text
