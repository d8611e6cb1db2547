import Ferrotype.Proofs.Json.Distinct
import Ferrotype.Proofs.Options.Sections

/-!
# What an options document may say

A document is accepted exactly if nothing is wrong with it, and then it sets what it gives. If
something is wrong, the first of it is told.
-/

namespace Ferrotype

namespace JsonValue

/-- An object of the two sections, each of them with its own options only. -/
def IsOptions (d : JsonValue) : Prop := ∃ ms, d = .object ms ∧
  ∀ m ∈ ms, m.1 = "extract" ∧ extractSpec.Admits m.2 ∨ m.1 = "generate" ∧ renderSpec.Admits m.2

/-- What is wrong with the name of a section. -/
def unknownSection? (m : JsonText × JsonValue) : Option DocumentFault :=
  if m.1 ∈ sectionNames then none else some (.unknownSection m.1)

/-- All that is wrong with a document: its shape, its sections, and the options of each of them. -/
def violations : JsonValue → List DocumentFault
  | object ms => ms.filterMap unknownSection? ++
      extractSpec.violations (ms.lookup (.ofString "extract")) ++
      renderSpec.violations (ms.lookup (.ofString "generate"))
  | _ => [.notObject]

end JsonValue

namespace Configuration

/-- The options that a document gives are set to what it says, and the others to their defaults. -/
def Follows (o : Configuration) (d : JsonValue) : Prop :=
  extractSpec.Follows (d.member? "extract") o.extract ∧
    renderSpec.Follows (d.member? "generate") o.render

/-- A document that shows some of the options. -/
def written (o : Configuration) (shownExtract : OptionKey ExtractOptions → Bool)
    (shownRender : OptionKey RenderSettings → Bool) : JsonValue :=
  .object [("extract", extractSpec.written shownExtract o.extract),
    ("generate", renderSpec.written shownRender o.render)]

/-- All options. -/
def document (o : Configuration) : JsonValue := o.written (fun _ => true) fun _ => true

/-- The options that are not at their defaults. -/
def changes (o : Configuration) : JsonValue :=
  o.written (fun k => k.value o.extract ≠ k.value extractSpec.defaults)
    fun k => k.value o.render ≠ k.value renderSpec.defaults

variable {d : JsonValue} {o : Configuration}

/-! ## Reading -/

theorem lookup_of_mem {ms : List (JsonText × JsonValue)} {m : JsonText × JsonValue}
    (hn : (ms.map Prod.fst).Nodup) (hm : m ∈ ms) : ms.lookup m.1 = some m.2 := by
  simpa using lookup_filter_map Prod.snd (fun _ => true) hn hm

theorem mem_of_lookup {ms : List (JsonText × JsonValue)} {name : JsonText} {v : JsonValue}
    (h : ms.lookup name = some v) : (name, v) ∈ ms := by
  obtain ⟨before, after, rfl, -⟩ := List.lookup_eq_some_iff.1 h
  simp

theorem nodup_section {ms ss : List (JsonText × JsonValue)} {name : JsonText}
    (hd : (JsonValue.object ms).Distinct) (h : ms.lookup name = some (.object ss)) :
    (ss.map Prod.fst).Nodup := by
  cases hd with
  | object _ hd =>
    cases hd _ (mem_of_lookup h) with
    | object hn _ => exact hn

/-- Nothing is wrong with a document just if it is one of options. -/
theorem violations_eq_nil (hd : d.Distinct) : d.violations = [] ↔ d.IsOptions := by
  cases hd with
  | null | bool | number | string | array => exact ⟨nofun, nofun⟩
  | @object ms hn _ =>
    have hnames : ms.filterMap JsonValue.unknownSection? = [] ↔
        ∀ m ∈ ms, m.1 = "extract" ∨ m.1 = "generate" := by
      simp [JsonValue.unknownSection?, sectionNames, or_iff_not_imp_left]
    rw [JsonValue.violations, List.append_eq_nil_iff, List.append_eq_nil_iff, hnames,
      SectionSpec.violations_eq_nil, SectionSpec.violations_eq_nil]
    constructor
    · rintro ⟨⟨hnames, he⟩, hr⟩
      refine ⟨ms, rfl, fun m hm => ?_⟩
      have hl := lookup_of_mem hn hm
      obtain h | h := hnames m hm
      · exact .inl ⟨h, he m.2 (h ▸ hl)⟩
      · exact .inr ⟨h, hr m.2 (h ▸ hl)⟩
    · rintro ⟨_, ⟨⟩, h⟩
      refine ⟨⟨fun m hm => (h m hm).imp And.left And.left, fun v hv => ?_⟩, fun v hv => ?_⟩
      · obtain ⟨-, ha⟩ | ⟨hne, -⟩ := h _ (mem_of_lookup hv)
        · exact ha
        · exact absurd hne (by simp)
      · obtain ⟨hne, -⟩ | ⟨-, ha⟩ := h _ (mem_of_lookup hv)
        · exact absurd hne (by simp)
        · exact ha

theorem find?_unknown (ms : List (JsonText × JsonValue)) :
    (ms.filterMap JsonValue.unknownSection?).head? =
      (ms.find? fun m => !sectionNames.contains m.1).map fun m => .unknownSection m.1 := by
  induction ms with
  | nil => rfl
  | cons m ms ih =>
    by_cases hm : m.1 ∈ sectionNames
    · simp [JsonValue.unknownSection?, hm, ih]
    · simp [JsonValue.unknownSection?, hm]

/-- Where every section is known, both are read, first `extract`. -/
theorem ofDocument_object {ms : List (JsonText × JsonValue)}
    (h : ms.filterMap JsonValue.unknownSection? = []) : ofDocument (.object ms) = (do
      let extract ← readSection extractSection extractSpec.name extractSpec.defaults
        (ms.lookup (.ofString "extract"))
      let render ← readSection renderSection renderSpec.name renderSpec.defaults
        (ms.lookup (.ofString "generate"))
      return ⟨extract, render⟩) := by
  have hf := find?_unknown ms
  rw [h] at hf
  rw [ofDocument, Option.map_eq_none_iff.1 hf.symm]
  rfl

/-- The first that is wrong with a document is told. -/
theorem ofDocument_error (hd : d.Distinct) {fault : DocumentFault}
    (h : d.violations.head? = some fault) : ofDocument d = .error fault := by
  cases d with
  | null | bool | number | string | array =>
    cases h
    rfl
  | object ms =>
    rw [JsonValue.violations, List.head?_append, List.head?_append] at h
    cases hu : ms.filterMap JsonValue.unknownSection? with
    | cons first faults =>
      have hf := find?_unknown ms
      rw [hu] at hf h
      obtain ⟨m, hm, hfirst⟩ := Option.map_eq_some_iff.1 hf.symm
      cases h
      rw [ofDocument, hm]
      exact congrArg _ hfirst
    | nil =>
      rw [ofDocument_object hu]
      rw [hu] at h
      cases he : extractSpec.violations (ms.lookup (.ofString "extract")) with
      | cons first faults =>
        rw [he] at h
        cases h
        rw [extractSpec_describes.readSection_error (congrArg List.head? he)]
        rfl
      | nil =>
        rw [he] at h
        obtain ⟨e, hread, -⟩ :=
          extractSpec_describes.readSection_ok (fun _ => nodup_section hd) he
        rw [hread, renderSpec_describes.readSection_error h]
        rfl

/-- A document with nothing wrong is read, and followed. -/
theorem ofDocument_ok (hd : d.Distinct) (h : d.violations = []) :
    ∃ o, ofDocument d = .ok o ∧ o.Follows d := by
  cases d with
  | null | bool | number | string | array => cases h
  | object ms =>
    rw [JsonValue.violations, List.append_eq_nil_iff, List.append_eq_nil_iff] at h
    obtain ⟨⟨hu, he⟩, hr⟩ := h
    obtain ⟨e, he, hfe⟩ := extractSpec_describes.readSection_ok (fun _ => nodup_section hd) he
    obtain ⟨r, hr, hfr⟩ := renderSpec_describes.readSection_ok (fun _ => nodup_section hd) hr
    exact ⟨⟨e, r⟩, by rw [ofDocument_object hu, he, hr]; rfl, hfe, hfr⟩

theorem Follows.unique {o' : Configuration} (h : o.Follows d) (h' : o'.Follows d) : o = o' := by
  obtain ⟨e, r⟩ := o
  obtain ⟨e', r'⟩ := o'
  obtain rfl : e = e' := extractSpec_describes.unique h.1 h'.1
  obtain rfl : r = r' := renderSpec_describes.unique h.2 h'.2
  rfl

theorem ofDocument_eq_ok (hd : d.Distinct) :
    ofDocument d = .ok o ↔ d.IsOptions ∧ o.Follows d := by
  constructor
  · intro ho
    cases hv : d.violations with
    | nil =>
      obtain ⟨o', ho', hf⟩ := ofDocument_ok hd hv
      rw [ho] at ho'
      cases ho'
      exact ⟨(violations_eq_nil hd).1 hv, hf⟩
    | cons fault faults =>
      rw [ofDocument_error hd (congrArg List.head? hv)] at ho
      cases ho
  · rintro ⟨h, hf⟩
    obtain ⟨o', ho', hf'⟩ := ofDocument_ok hd ((violations_eq_nil hd).2 h)
    rw [ho', hf.unique hf']

theorem ofDocument_eq_error (hd : d.Distinct) {fault : DocumentFault} :
    ofDocument d = .error fault ↔ d.violations.head? = some fault := by
  refine ⟨fun h => ?_, ofDocument_error hd⟩
  cases hv : d.violations with
  | nil =>
    obtain ⟨o, ho, -⟩ := ofDocument_ok hd hv
    rw [ho] at h
    cases h
  | cons first faults =>
    rw [ofDocument_error hd (congrArg List.head? hv)] at h
    cases h
    rfl

/-! ## Writing -/

theorem distinct_json (v : OptionValue) : v.json.Distinct := by
  obtain b | (_ | s) := v
  · exact .bool b
  · exact .null
  · exact .string s

theorem distinct_section {σ : Type} {spec : SectionSpec σ} {accepted : SectionOptions σ}
    (h : spec.Describes accepted) (shown : OptionKey σ → Bool) (s : σ) :
    (spec.written shown s).Distinct := by
  refine .object (h.names_written shown s) fun m hm => ?_
  obtain ⟨k, -, rfl⟩ := List.mem_map.1 hm
  exact distinct_json _

/-- A document that shows all options that are not at their defaults is read as them. -/
theorem ofDocument_written (o : Configuration) {shownExtract : OptionKey ExtractOptions → Bool}
    {shownRender : OptionKey RenderSettings → Bool}
    (he : ∀ k ∈ extractSpec.keys, shownExtract k = false →
      k.value o.extract = k.value extractSpec.defaults)
    (hr : ∀ k ∈ renderSpec.keys, shownRender k = false →
      k.value o.render = k.value renderSpec.defaults) :
    ofDocument (o.written shownExtract shownRender) = .ok o := by
  have hd : (o.written shownExtract shownRender).Distinct := by
    refine .object (by simp) ?_
    rw [List.forall_mem_cons, List.forall_mem_singleton]
    exact ⟨distinct_section extractSpec_describes _ _, distinct_section renderSpec_describes _ _⟩
  have ho : (o.written shownExtract shownRender).IsOptions := by
    refine ⟨_, rfl, ?_⟩
    rw [List.forall_mem_cons, List.forall_mem_singleton]
    exact ⟨.inl ⟨rfl, extractSpec_describes.admits_written _ _⟩,
      .inr ⟨rfl, renderSpec_describes.admits_written _ _⟩⟩
  have hf : o.Follows (o.written shownExtract shownRender) :=
    ⟨extractSpec_describes.follows_written he, renderSpec_describes.follows_written hr⟩
  exact (ofDocument_eq_ok hd).2 ⟨ho, hf⟩

/-! ## Accepted documents -/

/--
A document is accepted exactly if it is one of options, and then it is followed; else the first that
is wrong with it is told. Options that are written out, all of them or those not at their defaults,
are read back.
-/
theorem ofDocument_exactly :
    (∀ d : JsonValue, d.Distinct →
      ((∃ o, ofDocument d = .ok o) ↔ d.IsOptions) ∧
      (∀ o, ofDocument d = .ok o → o.Follows d) ∧
      ∀ fault, ofDocument d = .error fault ↔ d.violations.head? = some fault) ∧
    ∀ o : Configuration, ofDocument o.document = .ok o ∧ ofDocument o.changes = .ok o := by
  refine ⟨fun d hd => ⟨⟨?_, ?_⟩, ?_, fun fault => ofDocument_eq_error hd⟩, fun o => ⟨?_, ?_⟩⟩
  · rintro ⟨o, ho⟩
    exact ((ofDocument_eq_ok hd).1 ho).1
  · intro h
    obtain ⟨o, ho, -⟩ := ofDocument_ok hd ((violations_eq_nil hd).2 h)
    exact ⟨o, ho⟩
  · exact fun o ho => ((ofDocument_eq_ok hd).1 ho).2
  · exact ofDocument_written o nofun nofun
  · exact ofDocument_written o (by simp) (by simp)

/-- Sections and members stand in another order than their faults are told in. -/
theorem ofDocument_exactly_order :
    let d : JsonValue := .object
      [("generate", .object [("preamble", .null), ("namespace", .number "1")]),
        ("extract", .object [("embed_structs", .number "0"), ("indent", .null)])]
    d.Distinct ∧
      d.violations = [.wrongType "extract" "embed_structs" .bool, .unknownOption "extract" "indent",
        .wrongType "generate" "namespace" .textOrNull] ∧
      ofDocument d = .error (.wrongType "extract" "embed_structs" .bool) := by
  intro d
  have hd : d.Distinct := by
    refine .object (by decide) ?_
    rw [List.forall_mem_cons, List.forall_mem_singleton]
    refine ⟨.object (by decide) ?_, .object (by decide) ?_⟩
    all_goals rw [List.forall_mem_cons, List.forall_mem_singleton]
    · exact ⟨.null, .number "1"⟩
    · exact ⟨.number "0", .null⟩
  exact ⟨hd, by decide, ((ofDocument_exactly.1 d hd).2.2 _).2 (by decide)⟩

end Configuration

end Ferrotype
