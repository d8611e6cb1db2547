import Ferrotype.Options.Document
import Mathlib.Data.List.Basic

/-!
# Sections of an options document

A section is read member by member. What the documentation says of a section stands apart from how
it is read: its options by name, what each holds and what it may be set to.
-/

namespace Ferrotype

/-! ## Options -/

/-- What an option is set to. -/
inductive OptionValue where
  | flag (value : Bool)
  | text (value : Option JsonText)
  deriving DecidableEq

namespace OptionValue

def type : OptionValue → OptionType
  | flag _ => .bool
  | text _ => .textOrNull

/-- How a document writes a value. -/
def json : OptionValue → JsonValue
  | flag b => .bool b
  | text none => .null
  | text (some s) => .string s

theorem json_injective {v w : OptionValue} (h : v.json = w.json) : v = w := by
  cases v with
  | flag b =>
    cases w with
    | flag c => exact congrArg flag (JsonValue.bool.inj h)
    | text t => cases t <;> cases h
  | text s =>
    cases w with
    | flag c => cases s <;> cases h
    | text t => cases s <;> cases t <;> cases h <;> rfl

end OptionValue

/-- The JSON values that an option of a type may be set to. -/
def OptionType.admits : OptionType → JsonValue → Bool
  | bool, .bool _ | textOrNull, .string _ | textOrNull, .null => true
  | _, _ => false

theorem OptionValue.admits_json (v : OptionValue) : v.type.admits v.json = true := by
  obtain b | (_ | s) := v <;> rfl

/-- An option of a section, by its name. -/
structure OptionKey (σ : Type) where
  name : JsonText
  value : σ → OptionValue

/-- What is said of a section: its name, its options, and what they are if nothing is given. -/
structure SectionSpec (σ : Type) where
  name : String
  keys : List (OptionKey σ)
  defaults : σ

def extractSpec : SectionSpec ExtractOptions where
  name := "extract"
  keys := [⟨"embed_structs", fun o => .flag o.embedStructs⟩,
    ⟨"follow_structs", fun o => .flag o.followStructs⟩,
    ⟨"no_anon_structs", fun o => .flag o.noAnonStructs⟩,
    ⟨"sort_alphabetically", fun o => .flag o.sortAlphabetically⟩]
  defaults := {}

def renderSpec : SectionSpec RenderSettings where
  name := "generate"
  keys := [⟨"namespace", fun o => .text o.namespaceName⟩,
    ⟨"preamble", fun o => .text o.preamble⟩,
    ⟨"generate_enums_as_sum_types", fun o => .flag o.sumTypes⟩,
    ⟨"sort_alphabetically", fun o => .flag o.sortAlphabetically⟩]
  defaults := {}

/-! ## What a section may say -/

namespace JsonValue

/-- The value of a member; what is no object has none. -/
def member? (name : JsonText) : JsonValue → Option JsonValue
  | object ms => ms.lookup name
  | _ => none

end JsonValue

namespace SectionSpec

variable {σ : Type}

/-- What each option may be set to: what its default is, a flag or a text. -/
def types (spec : SectionSpec σ) : List (JsonText × OptionType) :=
  spec.keys.map fun k => (k.name, (k.value spec.defaults).type)

/-- An object in which every member is an option of the section, set to a value of its type. -/
def Admits (spec : SectionSpec σ) (v : JsonValue) : Prop := ∃ ms, v = .object ms ∧
  ∀ m ∈ ms, ∃ type, spec.types.lookup m.1 = some type ∧ type.admits m.2 = true

/-- Every option that is given is set to its value, and every other one to its default. -/
def Follows (spec : SectionSpec σ) (given : Option JsonValue) (s : σ) : Prop :=
  ∀ k ∈ spec.keys,
    (k.value s).json = (given.bind (·.member? k.name)).getD (k.value spec.defaults).json

/-- What is wrong with a member. -/
def violation? (spec : SectionSpec σ) (m : JsonText × JsonValue) : Option DocumentFault :=
  match spec.types.lookup m.1 with
  | none => some (.unknownOption spec.name m.1)
  | some type => if type.admits m.2 then none else some (.wrongType spec.name m.1 type)

/-- All that is wrong with a section, in order. -/
def violations (spec : SectionSpec σ) : Option JsonValue → List DocumentFault
  | none => []
  | some (.object ms) => ms.filterMap spec.violation?
  | some _ => [.sectionNotObject spec.name]

theorem violation?_eq_none {spec : SectionSpec σ} {m : JsonText × JsonValue} :
    spec.violation? m = none ↔
      ∃ type, spec.types.lookup m.1 = some type ∧ type.admits m.2 = true := by
  unfold violation?
  cases spec.types.lookup m.1 with
  | none => simp
  | some type => simp

/-- Nothing is wrong with a section just if it is missing or admitted. -/
theorem violations_eq_nil {spec : SectionSpec σ} {given : Option JsonValue} :
    spec.violations given = [] ↔ ∀ v, given = some v → spec.Admits v := by
  match given with
  | none => exact ⟨nofun, fun _ => rfl⟩
  | some (.object ms) =>
    simp only [violations, List.filterMap_eq_nil_iff, violation?_eq_none]
    refine ⟨fun h v hv => ⟨ms, (Option.some.inj hv).symm, h⟩, fun h => ?_⟩
    obtain ⟨_, he, h⟩ := h _ rfl
    cases he
    exact h
  | some .null | some (.bool _) | some (.number _) | some (.string _) | some (.array _) =>
    refine ⟨nofun, fun h => ?_⟩
    obtain ⟨_, he, -⟩ := h _ rfl
    cases he

end SectionSpec

/-! ## How a section is read -/

/-- A setter takes the values of its type. -/
theorem OptionSetter.exists_applied {σ : Type} (setter : OptionSetter σ) (s : σ) (v : JsonValue) :
    (∃ s', setter.apply? s v = some s') ↔ setter.type.admits v = true := by
  cases setter <;> cases v <;> simp [type, OptionSetter.apply?, OptionType.admits]

/-- The setters of a section are those of its options: each sets the option of its name only. -/
structure SectionSpec.Describes {σ : Type} (spec : SectionSpec σ) (accepted : SectionOptions σ) :
    Prop where
  nodup : (spec.keys.map OptionKey.name).Nodup
  typed : ∀ k ∈ spec.keys, ∀ s, (k.value s).type = (k.value spec.defaults).type
  types : accepted.map (fun a => (a.1, a.2.type)) = spec.types
  put : ∀ a ∈ accepted, ∀ s v s', OptionSetter.apply? a.2 s v = some s' → ∀ k ∈ spec.keys,
    (k.value s').json = if k.name = a.1 then v else (k.value s).json
  ext : ∀ s s', (∀ k ∈ spec.keys, k.value s = k.value s') → s = s'

theorem extractSpec_describes : extractSpec.Describes extractSection where
  nodup := by decide
  typed := by simp [extractSpec, OptionValue.type]
  types := rfl
  put := by
    simp only [extractSection, List.forall_mem_cons]
    refine ⟨?_, ?_, ?_, ?_, nofun⟩
    all_goals
      intro s v s' h
      cases v <;> cases h
      simp [extractSpec, OptionValue.json]
  ext s s' h := by
    obtain ⟨_, _, _, _⟩ := s
    obtain ⟨_, _, _, _⟩ := s'
    simpa [extractSpec] using h

theorem renderSpec_describes : renderSpec.Describes renderSection where
  nodup := by decide
  typed := by simp [renderSpec, OptionValue.type]
  types := rfl
  put := by
    simp only [renderSection, List.forall_mem_cons]
    refine ⟨?_, ?_, ?_, ?_, nofun⟩
    all_goals
      intro s v s' h
      cases v <;> cases h
      all_goals simp [renderSpec, OptionValue.json]
  ext s s' h := by
    obtain ⟨_, _, _, _⟩ := s
    obtain ⟨_, _, _, _⟩ := s'
    simpa [renderSpec] using h

theorem lookup_map_snd {β γ : Type} (f : β → γ) (l : List (JsonText × β)) (name : JsonText) :
    (l.map fun e => (e.1, f e.2)).lookup name = (l.lookup name).map f := by
  induction l with
  | nil => rfl
  | cons e l ih =>
    rw [List.map_cons, List.lookup_cons, List.lookup_cons, ih]
    split <;> rfl

namespace SectionSpec.Describes

variable {σ : Type} {spec : SectionSpec σ} {accepted : SectionOptions σ} {s : σ}
  {m : JsonText × JsonValue} {ms : List (JsonText × JsonValue)}

theorem lookup_types (h : spec.Describes accepted) (name : JsonText) :
    spec.types.lookup name = (accepted.lookup name).map OptionSetter.type :=
  h.types ▸ lookup_map_snd _ accepted name

/-- A member that nothing is wrong with sets the option of its name. -/
theorem readMembers_cons (h : spec.Describes accepted) (hm : spec.violation? m = none) (s : σ)
    (ms : List (JsonText × JsonValue)) : ∃ s',
      readMembers accepted spec.name s (m :: ms) = readMembers accepted spec.name s' ms ∧
        ∀ k ∈ spec.keys, (k.value s').json = if k.name = m.1 then m.2 else (k.value s).json := by
  obtain ⟨name, v⟩ := m
  obtain ⟨type, ht, hv⟩ := violation?_eq_none.1 hm
  rw [h.lookup_types] at ht
  obtain ⟨setter, hl, rfl⟩ := Option.map_eq_some_iff.1 ht
  obtain ⟨s', hs'⟩ := (setter.exists_applied s v).2 hv
  obtain ⟨before, after, rfl, -⟩ := List.lookup_eq_some_iff.1 hl
  refine ⟨s', ?_, h.put (name, setter) (by simp) s v s' hs'⟩
  simp only [readMembers, hl, hs']

/-- Any other member ends the reading. -/
theorem readMembers_cons_violation (h : spec.Describes accepted) {fault : DocumentFault}
    (hm : spec.violation? m = some fault) (s : σ) (ms : List (JsonText × JsonValue)) :
    readMembers accepted spec.name s (m :: ms) = .error fault := by
  obtain ⟨name, v⟩ := m
  simp only [violation?, h.lookup_types] at hm
  cases hl : accepted.lookup name with
  | none =>
    rw [hl] at hm
    simp only [readMembers, hl]
    exact congrArg _ (Option.some.inj hm)
  | some setter =>
    have hs := setter.exists_applied s v
    cases ha : setter.apply? s v with
    | some s' => simp [hl, hs.1 ⟨s', ha⟩] at hm
    | none =>
      simp only [ha, reduceCtorEq, exists_false, false_iff] at hs
      simp only [hl, Option.map_some, if_neg hs, Option.some.injEq] at hm
      simp only [readMembers, hl, ha, hm]

/-- Members that nothing is wrong with set every option that they name, and no other. -/
theorem readMembers_ok (h : spec.Describes accepted) (hn : (ms.map Prod.fst).Nodup)
    (hms : ms.filterMap spec.violation? = []) (s : σ) : ∃ s',
      readMembers accepted spec.name s ms = .ok s' ∧
        ∀ k ∈ spec.keys, (k.value s').json = (ms.lookup k.name).getD (k.value s).json := by
  induction ms generalizing s with
  | nil => exact ⟨s, rfl, fun _ _ => rfl⟩
  | cons m ms ih =>
    obtain ⟨hm, hms⟩ := List.forall_mem_cons.1 (List.filterMap_eq_nil_iff.1 hms)
    obtain ⟨hnm, hn⟩ := List.nodup_cons.1 hn
    obtain ⟨s₁, hs₁, hk₁⟩ := h.readMembers_cons hm s ms
    obtain ⟨s₂, hs₂, hk₂⟩ := ih hn (List.filterMap_eq_nil_iff.2 hms) s₁
    refine ⟨s₂, hs₁.trans hs₂, fun k hk => ?_⟩
    rw [hk₂ k hk, hk₁ k hk, List.lookup_cons]
    by_cases hkm : k.name = m.1
    · -- No later member has the name again.
      have hl : ms.lookup k.name = none := List.lookup_eq_none_iff.2 fun e he => by
        rw [hkm]
        exact bne_iff_ne.2 fun hme => hnm (hme ▸ List.mem_map_of_mem he)
      rw [hl, if_pos hkm, beq_iff_eq.2 hkm]
      rfl
    · rw [if_neg hkm, beq_eq_false_iff_ne.2 hkm]

theorem readMembers_error (h : spec.Describes accepted) {fault : DocumentFault}
    (hms : (ms.filterMap spec.violation?).head? = some fault) (s : σ) :
    readMembers accepted spec.name s ms = .error fault := by
  induction ms generalizing s with
  | nil => cases hms
  | cons m ms ih =>
    cases hm : spec.violation? m with
    | some first =>
      rw [List.filterMap_cons_some hm] at hms
      cases hms
      exact h.readMembers_cons_violation hm s ms
    | none =>
      rw [List.filterMap_cons_none hm] at hms
      obtain ⟨s', hs', -⟩ := h.readMembers_cons hm s ms
      exact hs'.trans (ih hms s')

theorem readSection_ok (h : spec.Describes accepted) {given : Option JsonValue}
    (hn : ∀ ms, given = some (.object ms) → (ms.map Prod.fst).Nodup)
    (hv : spec.violations given = []) :
    ∃ s, readSection accepted spec.name spec.defaults given = .ok s ∧ spec.Follows given s := by
  match given with
  | none => exact ⟨spec.defaults, rfl, fun _ _ => rfl⟩
  | some (.object ms) => exact h.readMembers_ok (hn ms rfl) hv spec.defaults
  | some .null | some (.bool _) | some (.number _) | some (.string _) | some (.array _) => cases hv

theorem readSection_error (h : spec.Describes accepted) {given : Option JsonValue}
    {fault : DocumentFault} (hv : (spec.violations given).head? = some fault) :
    readSection accepted spec.name spec.defaults given = .error fault := by
  match given with
  | none => cases hv
  | some (.object ms) => exact h.readMembers_error hv spec.defaults
  | some .null | some (.bool _) | some (.number _) | some (.string _) | some (.array _) =>
    cases hv
    rfl

/-- What is given leaves no choice. -/
theorem unique (h : spec.Describes accepted) {given : Option JsonValue} {s s' : σ}
    (hs : spec.Follows given s) (hs' : spec.Follows given s') : s = s' :=
  h.ext s s' fun k hk => OptionValue.json_injective ((hs k hk).trans (hs' k hk).symm)

end SectionSpec.Describes

/-! ## How a section is written -/

theorem lookup_filter_map {α β : Type} {name : α → JsonText} (value : α → β) (p : α → Bool)
    {as : List α} (hn : (as.map name).Nodup) {a : α} (ha : a ∈ as) :
    ((as.filter p).map fun b => (name b, value b)).lookup (name a) =
      if p a then some (value a) else none := by
  induction as with
  | nil => cases ha
  | cons b as ih =>
    obtain ⟨hb, hn⟩ := List.nodup_cons.1 hn
    obtain rfl | ha := List.mem_cons.1 ha
    · cases hp : p a with
      | true => simp [hp]
      | false =>
        have hnone : ((as.filter p).map fun b => (name b, value b)).lookup (name a) = none := by
          refine List.lookup_eq_none_iff.2 fun e he => ?_
          obtain ⟨c, hc, rfl⟩ := List.mem_map.1 he
          exact bne_iff_ne.2 fun hac => hb (hac ▸ List.mem_map_of_mem (List.mem_of_mem_filter hc))
        simp [hp, hnone]
    · have hne : name a ≠ name b := fun hab => hb (hab ▸ List.mem_map_of_mem ha)
      rw [← ih hn ha, List.filter_cons]
      split
      · rw [List.map_cons, List.lookup_cons, beq_eq_false_iff_ne.2 hne]
      · rfl

namespace SectionSpec

variable {σ : Type} {spec : SectionSpec σ} {accepted : SectionOptions σ}
  {shown : OptionKey σ → Bool}

/-- A section that shows some of its options. -/
def written (spec : SectionSpec σ) (shown : OptionKey σ → Bool) (s : σ) : JsonValue :=
  .object ((spec.keys.filter shown).map fun k => (k.name, (k.value s).json))

namespace Describes

theorem admits_written (h : spec.Describes accepted) (shown : OptionKey σ → Bool) (s : σ) :
    spec.Admits (spec.written shown s) := by
  refine ⟨_, rfl, fun m hm => ?_⟩
  obtain ⟨k, hk, rfl⟩ := List.mem_map.1 hm
  have hk := List.mem_of_mem_filter hk
  have hl := lookup_filter_map (fun k => (k.value spec.defaults).type) (fun _ => true) h.nodup hk
  rw [List.filter_true] at hl
  exact ⟨_, hl, h.typed k hk s ▸ (k.value s).admits_json⟩

/-- What is not shown has to be at its default. -/
theorem follows_written (h : spec.Describes accepted) {s : σ}
    (hs : ∀ k ∈ spec.keys, shown k = false → k.value s = k.value spec.defaults) :
    spec.Follows (some (spec.written shown s)) s := by
  intro k hk
  have hl : (spec.written shown s).member? k.name =
      if shown k then some (k.value s).json else none := lookup_filter_map _ shown h.nodup hk
  rw [Option.bind_some, hl]
  cases hshown : shown k with
  | true => rfl
  | false => exact congrArg _ (hs k hk hshown)

theorem names_written (h : spec.Describes accepted) (shown : OptionKey σ → Bool) (s : σ) :
    (((spec.keys.filter shown).map fun k => (k.name, (k.value s).json)).map Prod.fst).Nodup := by
  rw [List.map_map]
  exact h.nodup.sublist (List.filter_sublist.map OptionKey.name)

end Describes

end SectionSpec

end Ferrotype
