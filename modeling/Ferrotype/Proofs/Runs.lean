import Ferrotype.Command.Run
import Ferrotype.Proofs.Command.Arguments
import Ferrotype.Proofs.Files.Paths
import Ferrotype.Proofs.Files.Write
import Ferrotype.Proofs.Output.Settings

/-!
# What a run does

A run transpiles its input with the options of its configuration file and its arguments, and sends
the text to one place. A run that fails before leaves all files as they are. Other runs come upon
an integer that is too long, or upon a text that cannot be written.
-/

namespace Ferrotype.Command

variable {edition : Edition} {a : Arguments} {files files' : Files} {stdin : List UInt8}
  {input text report : String} {base merged : Configuration} {options : Options}

/-! ## What a run is made of -/

/-- The bytes of the input: standard input for `-`, else those of a file. -/
inductive InputBytes (files : Files) (stdin : List UInt8) (input : String) : List UInt8 → Prop where
  | stdin (hi : input = "-") : InputBytes files stdin input stdin
  | file {bytes : List UInt8} (hi : input ≠ "-")
    (hf : files.find? (Path.ofString input) = some (.file bytes)) :
    InputBytes files stdin input bytes

/-- An option is not given. The empty text is no path. -/
def NoPath (path : Option String) : Prop := path = none ∨ path = some ""

/-- The options that the arguments change: those of the configuration file, or the defaults. -/
inductive Configured (a : Arguments) (files : Files) : Configuration → Prop where
  | defaults (hc : NoPath a.config) : Configured a files {}
  | file {path : String} {base : Configuration} (hc : a.config = some path) (hp : path ≠ "")
    (hl : Configuration.load files path = .ok base) : Configured a files base

/-- Every argument that is given replaces its own option, and no other. -/
structure Merged (a : Arguments) (base merged : Configuration) : Prop where
  extract : merged.extract = base.extract
  namespaceGiven : ∀ name : String, a.namespaceName = some name →
    merged.render.namespaceName = some (.ofString name)
  namespaceKept : a.namespaceName = none → merged.render.namespaceName = base.render.namespaceName
  preambleGiven : ∀ text : String, a.preamble = some text →
    merged.render.preamble = some (.ofString text)
  preambleRefused : a.noPreamble = true → merged.render.preamble = none
  preambleKept : a.preamble = none → a.noPreamble = false →
    merged.render.preamble = base.render.preamble
  sumTypesGiven : a.sumTypes = true → merged.render.sumTypes = true
  sumTypesKept : a.sumTypes = false → merged.render.sumTypes = base.render.sumTypes
  sortGiven : a.sort = true → merged.render.sortAlphabetically = true
  sortKept : a.sort = false → merged.render.sortAlphabetically = base.render.sortAlphabetically

/-- What a run does not handle: an integer that is too long, or an output that is no text. -/
inductive Escapes (a : Arguments) (files : Files) (stdin : List UInt8) (input : String) :
    Escape → Prop where
  | options {bytes : List UInt8} {path : String} {count : Nat}
    (hi : InputBytes files stdin input bytes) (hc : a.config = some path) (hp : path ≠ "")
    (hl : Configuration.load files path = .error (.tooManyDigits count)) :
    Escapes a files stdin input (.tooManyDigits count)
  | discriminant {bytes : List UInt8} {base merged : Configuration} {source : List Char}
    {count : Nat} {notices : List Notice} (hi : InputBytes files stdin input bytes)
    (hb : Configured a files base) (hm : Merged a base merged) (hs : textOfBytes bytes = .ok source)
    (ht : (extract merged.extract (String.ofList source)).run =
      ⟨.error (.tooManyDigits count), notices⟩) :
    Escapes a files stdin input (.tooManyDigits count)
  | output {bytes : List UInt8} {base merged : Configuration} {source : List Char}
    {schema : Schema} {notices : List Notice} {fault : EncodeFault}
    (hi : InputBytes files stdin input bytes) (hb : Configured a files base)
    (hm : Merged a base merged) (hs : textOfBytes bytes = .ok source)
    (ht : (extract merged.extract (String.ofList source)).run = ⟨.ok schema, notices⟩)
    (he : (Output.moduleOf merged.render schema).encode = .error fault) :
    Escapes a files stdin input (.encoding fault)

theorem merged_override (ha : a.Exclusive) (base : Configuration) :
    Merged a base { base with render := a.override base.render } where
  extract := rfl
  namespaceGiven := fun name h => by simp [Arguments.override, h]
  namespaceKept := fun h => by simp [Arguments.override, h]
  preambleGiven := fun text h => by
    -- The override looks at the refusal first, but the two are never given together.
    have hn : a.noPreamble = false := by
      by_contra hn
      rw [ha (by simpa using hn)] at h
      cases h
    simp [Arguments.override, h, hn]
  preambleRefused := fun h => by simp [Arguments.override, h]
  preambleKept := fun h hn => by simp [Arguments.override, h, hn]
  sumTypesGiven := fun h => by simp [Arguments.override, h]
  sumTypesKept := fun h => by simp [Arguments.override, h]
  sortGiven := fun h => by simp [Arguments.override, h]
  sortKept := fun h => by simp [Arguments.override, h]

/-- The arguments leave no choice. -/
theorem Merged.unique {merged' : Configuration} (h : Merged a base merged)
    (h' : Merged a base merged') : merged = merged' := by
  have hn : merged.render.namespaceName = merged'.render.namespaceName := by
    cases ha : a.namespaceName with
    | none => rw [h.namespaceKept ha, h'.namespaceKept ha]
    | some name => rw [h.namespaceGiven name ha, h'.namespaceGiven name ha]
  have hp : merged.render.preamble = merged'.render.preamble := by
    cases ha : a.preamble with
    | some text => rw [h.preambleGiven text ha, h'.preambleGiven text ha]
    | none =>
      cases hr : a.noPreamble with
      | true => rw [h.preambleRefused hr, h'.preambleRefused hr]
      | false => rw [h.preambleKept ha hr, h'.preambleKept ha hr]
  have hs : merged.render.sumTypes = merged'.render.sumTypes := by
    cases ha : a.sumTypes with
    | true => rw [h.sumTypesGiven ha, h'.sumTypesGiven ha]
    | false => rw [h.sumTypesKept ha, h'.sumTypesKept ha]
  have ho : merged.render.sortAlphabetically = merged'.render.sortAlphabetically := by
    cases ha : a.sort with
    | true => rw [h.sortGiven ha, h'.sortGiven ha]
    | false => rw [h.sortKept ha, h'.sortKept ha]
  have he : merged.extract = merged'.extract := h.extract.trans h'.extract.symm
  obtain ⟨_, _, _, _, _⟩ := merged
  obtain ⟨_, _, _, _, _⟩ := merged'
  simp_all

theorem configuration_ok (h : Configured a files base) :
    a.configuration files = .ok { base with render := a.override base.render } := by
  unfold Arguments.configuration
  cases h with
  | defaults hc =>
    obtain hc | hc := hc
    · rw [hc]
      rfl
    · rw [hc]
      rfl
  | @file path base hc hp hl =>
    rw [hc]
    split
    · next h => cases h
    · next h => exact absurd (Option.some.inj h) hp
    · next h =>
      obtain rfl := Option.some.inj h
      rw [hl]
      rfl

theorem configuration_error {path : String} {fault : OptionsFault} (hc : a.config = some path)
    (hp : path ≠ "") (hl : Configuration.load files path = .error fault) :
    a.configuration files = .error fault := by
  unfold Arguments.configuration
  rw [hc]
  split
  · next h => cases h
  · next h => exact absurd (Option.some.inj h) hp
  · next h =>
    obtain rfl := Option.some.inj h
    rw [hl]
    rfl

theorem isFile_iff {p : Path} :
    files.isFile p = true ↔ ∃ bytes, files.find? p = some (.file bytes) := by
  unfold Files.isFile
  split
  · next bytes h => simp [h]
  · next h =>
    refine ⟨nofun, fun ⟨bytes, hb⟩ => absurd hb (h bytes)⟩

theorem inputBytes_iff : (∃ bytes, InputBytes files stdin input bytes) ↔
    ¬(input ≠ "-" ∧ !files.isFile (Path.ofString input)) := by
  constructor
  · rintro ⟨_, hi | ⟨hi, hf⟩⟩ ⟨hn, hm⟩
    · exact hn hi
    · rw [isFile_iff.2 ⟨_, hf⟩] at hm
      cases hm
  · intro h
    by_cases hi : input = "-"
    · exact ⟨stdin, .stdin hi⟩
    · obtain ⟨bytes, hf⟩ := isFile_iff.1 (by simpa [hi] using h)
      exact ⟨bytes, .file hi hf⟩

theorem readInput_eq {bytes : List UInt8} (h : InputBytes files stdin input bytes) :
    readInput files stdin input =
      ((textOfBytes bytes).mapError .decoding).map String.ofList := by
  unfold readInput
  cases h with
  | stdin hi =>
    rw [if_pos hi]
    rfl
  | file hi hf =>
    rw [if_neg hi, Files.read_of_find? (Path.normal_ofString input) hf]
    rfl

/-! ## Output -/

theorem convert_tooManyDigits {source : String} {count : Nat} {notices : List Notice}
    (h : (extract merged.extract source).run = ⟨.error (.tooManyDigits count), notices⟩) :
    convert a merged files input source = brokenOff files "" (.tooManyDigits count) := by
  simp only [convert, h]

theorem convert_refuseOutput {source : String} {schema : Schema} {notices : List Notice}
    {fault : EncodeFault} (h : (extract merged.extract source).run = ⟨.ok schema, notices⟩)
    (he : (Output.moduleOf merged.render schema).encode = .error fault) :
    convert a merged files input source =
      refuseOutput files (Report.print a.verbose notices) fault (a.sink input) := by
  simp only [convert, h, he]

/-! ## Runs -/

/-- A run up to its output. -/
theorem runWith_ready (ha : a.Exclusive) {bytes : List UInt8}
    (hi : InputBytes files stdin input bytes) (hb : Configured a files base)
    (hm : Merged a base merged) : runWith a files stdin input =
      match textOfBytes bytes with
      | .error fault => failed files "" (.decoding fault)
      | .ok source => convert a merged files input (String.ofList source) := by
  rw [runWith, if_neg (inputBytes_iff.1 ⟨bytes, hi⟩), configuration_ok hb,
    ← hm.unique (merged_override ha _)]
  simp only [readInput_eq hi]
  cases textOfBytes bytes with
  | error fault => rfl
  | ok source => rfl

/-- A run that comes upon an integer that is too long has done nothing yet. -/
theorem runWith_tooManyDigits (ha : a.Exclusive) {count : Nat}
    (h : Escapes a files stdin input (.tooManyDigits count)) :
    runWith a files stdin input = brokenOff files "" (.tooManyDigits count) := by
  cases h with
  | options hi hc hp hl =>
    rw [runWith, if_neg (inputBytes_iff.1 ⟨_, hi⟩), configuration_error hc hp hl]
  | discriminant hi hb hm hs ht =>
    rw [runWith_ready ha hi hb hm, hs]
    exact convert_tooManyDigits ht

/-- A run whose output is no text has it refused in its place. -/
theorem runWith_encoding (ha : a.Exclusive) {fault : EncodeFault}
    (h : Escapes a files stdin input (.encoding fault)) : ∃ notices,
      runWith a files stdin input =
        refuseOutput files (Report.print a.verbose notices) fault (a.sink input) := by
  cases h with
  | output hi hb hm hs ht he =>
    rw [runWith_ready ha hi hb hm, hs]
    exact ⟨_, convert_refuseOutput ht he⟩

end Ferrotype.Command
