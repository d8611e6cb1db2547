import Ferrotype.Options.File
import Ferrotype.Proofs.Json.Digits
import Ferrotype.Proofs.OptionsDocuments
import Ferrotype.Proofs.Text.Newlines
import Ferrotype.Proofs.Text.Utf8

/-!
# Options files

A file is read, decoded, parsed and checked, in this order. Every stage tells of a fault of the
configuration, except for bytes that are no text and for integers that are too long.
-/

namespace Ferrotype

open Text

/-- Faults that are told as faults of the configuration. -/
def OptionsFault.IsConfiguration : OptionsFault → Prop
  | unreadable .. | notJson .. | document _ => True
  | decoding _ | tooManyDigits _ => False

namespace Configuration

variable {files : Files} {path : String} {o : Configuration}

/-- A file that is loaded is the text of a document of options, and is followed. -/
theorem load_eq_ok : load files path = .ok o ↔ ∃ text d, files.read path = .ok (encodeUtf8 text) ∧
    Json.document (normalizeNewlines text) = .ok d ∧ d.IsOptions ∧ o.Follows d := by
  simp only [load, textOfBytes, Except.bind_eq_ok, Except.mapError_eq_ok, Except.map_eq_ok,
    decodeUtf8_eq_ok]
  constructor
  · rintro ⟨_, hr, _, ⟨text, rfl, rfl⟩, d, hd, ho⟩
    exact ⟨text, d, hr, hd, (ofDocument_eq_ok (Json.document_distinct hd)).1 ho⟩
  · rintro ⟨text, d, hr, hd, ho⟩
    exact ⟨_, hr, _, ⟨text, rfl, rfl⟩, d, hd,
      (ofDocument_eq_ok (Json.document_distinct hd)).2 ho⟩

/-- Bytes that are no text are the one thing that decoding tells of. -/
theorem load_eq_decoding {fault : Utf8Fault} : load files path = .error (.decoding fault) ↔
    ∃ bytes, files.read path = .ok bytes ∧ decodeUtf8 bytes = .error fault := by
  have hj (text : List Char) (f : JsonFault) :
      OptionsFault.ofJson path text f ≠ .decoding fault := by
    cases f <;> exact nofun
  simp [load, textOfBytes, Except.bind_eq_error, Except.mapError_eq_error, Except.mapError_eq_ok,
    Except.map_eq_error, hj]

/-- Integers that are too long are told of by the reader of documents alone. -/
theorem load_eq_tooManyDigits {count : Nat} :
    load files path = .error (.tooManyDigits count) ↔ ∃ text,
      files.read path = .ok (encodeUtf8 text) ∧
        Json.document (normalizeNewlines text) = .error (.tooManyDigits count) := by
  have hj (text : List Char) (f : JsonFault) :
      OptionsFault.ofJson path text f = .tooManyDigits count ↔ f = .tooManyDigits count := by
    cases f <;> simp [OptionsFault.ofJson]
  simp [load, textOfBytes, Except.bind_eq_error, Except.mapError_eq_error, Except.mapError_eq_ok,
    Except.map_eq_ok, decodeUtf8_eq_ok, hj]

theorem configures_iff : ((∃ o, load files path = .ok o) ∨
    ∃ fault, load files path = .error fault ∧ fault.IsConfiguration) ↔
      (∀ fault, load files path ≠ .error (.decoding fault)) ∧
        ∀ count, load files path ≠ .error (.tooManyDigits count) := by
  cases load files path with
  | ok o => simp
  | error fault => cases fault <;> simp [OptionsFault.IsConfiguration]

theorem readable_iff {bytes : List UInt8} :
    (∀ fault, decodeUtf8 bytes ≠ .error fault) ↔ ∃ text, bytes = encodeUtf8 text := by
  simp only [← decodeUtf8_eq_ok]
  cases decodeUtf8 bytes <;> simp

/--
Options that are loaded are what the document of the file says. Loading gives options or tells of a
fault of the configuration, except for a file whose bytes are those of no text, or of a text in
which an integer of more than 4300 digits is come upon. Then so many digits stand in the text, and
wherever a value is read, such an integer is refused.
-/
theorem load_configures (files : Files) (path : String) :
    (∀ o, load files path = .ok o ↔ ∃ text d, files.read path = .ok (encodeUtf8 text) ∧
      Json.document (normalizeNewlines text) = .ok d ∧ d.IsOptions ∧ o.Follows d) ∧
    (((∃ o, load files path = .ok o) ∨
      ∃ fault, load files path = .error fault ∧ fault.IsConfiguration) ↔
        ∀ bytes, files.read path = .ok bytes → ∃ text, bytes = encodeUtf8 text ∧
          ∀ count, Json.document (normalizeNewlines text) ≠ .error (.tooManyDigits count)) ∧
    (∀ text count, Json.document text = .error (.tooManyDigits count) →
      4300 < count ∧ Json.HasDigits count text) ∧
    ∀ sign digits rest n, Json.LongInteger sign digits rest →
      Json.value (n + 1) (sign ++ (digits ++ rest)) = .error (.tooManyDigits digits.length) := by
  refine ⟨fun o => load_eq_ok, ?_, fun _ _ => Json.document_tooManyDigits,
    fun _ _ _ n h => h.value n⟩
  simp only [configures_iff, ne_eq, load_eq_decoding, load_eq_tooManyDigits, not_exists, not_and]
  constructor
  · rintro ⟨hd, hj⟩ bytes hr
    obtain ⟨text, rfl⟩ := readable_iff.1 fun fault => hd fault bytes hr
    exact ⟨text, rfl, fun count => hj count text hr⟩
  · intro h
    refine ⟨fun fault bytes hr => ?_, fun count text hr hj => ?_⟩
    · obtain ⟨text, rfl, -⟩ := h bytes hr
      exact readable_iff.2 ⟨text, rfl⟩ fault
    · obtain ⟨text', ht, hn⟩ := h _ hr
      exact hn count (encodeUtf8_injective ht ▸ hj)

/-- A file that is one long integer. -/
theorem load_configures_digits :
    let digits := List.replicate 4301 '1'
    let files : Files := ⟨[(["a.json"], .file (encodeUtf8 digits))]⟩
    Json.LongInteger [] digits [] ∧ Json.document digits = .error (.tooManyDigits 4301) ∧
      ¬((∃ o, load files "a.json" = .ok o) ∨
        ∃ fault, load files "a.json" = .error fault ∧ fault.IsConfiguration) := by
  intro digits files
  obtain ⟨-, hload, -, hlong⟩ := load_configures files "a.json"
  have hl : digits.length = 4301 := List.length_replicate
  have hs : digits = '1' :: List.replicate 4300 '1' := List.replicate_succ
  have hhead : digits.head? = some '1' := congrArg List.head? hs
  have hi : Json.LongInteger [] digits [] := {
    signed := .inl rfl
    decimal := fun c hc => by
      rw [List.eq_of_mem_replicate hc]
      rfl
    first := by
      rw [hhead]
      decide
    long := by omega
    behind := nofun }
  have hj : Json.document digits = .error (.tooManyDigits 4301) := by
    have hb : digits.head? ≠ some '\ufeff' := by
      rw [hhead]
      decide
    have hk : Json.skipSpace digits = digits := by
      rw [hs]
      rfl
    have hv := hlong [] digits [] (2 * digits.length + 1) hi
    rw [List.nil_append, List.append_nil, hl] at hv
    exact Json.document_error hb (by rw [hk, hl, hv])
  have hn : normalizeNewlines digits = digits :=
    normalizeNewlines_of_not_mem fun h => by cases hi.decimal _ h
  refine ⟨hi, hj, fun h => ?_⟩
  obtain ⟨text, ht, hj'⟩ := hload.1 h (encodeUtf8 digits) rfl
  exact hj' 4301 (by rw [← encodeUtf8_injective ht, hn, hj])

example : load ⟨[(["a.json"], .file [0xFF])]⟩ "a.json" =
    .error (.decoding ⟨0, 0xFF, 1, .startByte⟩) := by decide +kernel

end Configuration

end Ferrotype
