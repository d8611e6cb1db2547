import Ferrotype.Json.Reader
import Ferrotype.Proofs.Except

/-!
# Names of members are distinct

A member that an object has already takes the place of the old one, so no value that is read has an
object with two members of one name.
-/

namespace Ferrotype

open Json

variable {v : JsonValue} {vs : List JsonValue} {ms before : List (JsonText × JsonValue)}
  {s rest : List Char}

/-- No object in a value names a member twice. -/
inductive JsonValue.Distinct : JsonValue → Prop where
  | null : Distinct .null
  | bool (value : Bool) : Distinct (.bool value)
  | number (text : String) : Distinct (.number text)
  | string (value : JsonText) : Distinct (.string value)
  | array {vs : List JsonValue} (h : ∀ v ∈ vs, Distinct v) : Distinct (.array vs)
  | object {ms : List (JsonText × JsonValue)} (hn : (ms.map Prod.fst).Nodup)
    (h : ∀ m ∈ ms, Distinct m.2) : Distinct (.object ms)

namespace JsonValue

theorem mem_names_putMember {name n : JsonText} :
    n ∈ (putMember name v ms).map Prod.fst ↔ n = name ∨ n ∈ ms.map Prod.fst := by
  induction ms with
  | nil => simp [putMember]
  | cons m ms ih =>
    rw [putMember]
    split
    · next h => simp [h]
    · rw [List.map_cons, List.mem_cons, ih, List.map_cons, List.mem_cons]
      exact or_left_comm

theorem nodup_putMember (name : JsonText) (v : JsonValue) (h : (ms.map Prod.fst).Nodup) :
    ((putMember name v ms).map Prod.fst).Nodup := by
  induction ms with
  | nil => simp [putMember]
  | cons m ms ih =>
    obtain ⟨hm, hms⟩ := List.nodup_cons.1 h
    rw [putMember]
    split
    · next he => exact List.nodup_cons.2 ⟨he ▸ hm, hms⟩
    · next he =>
      refine List.nodup_cons.2 ⟨fun hmem => ?_, ih hms⟩
      obtain h | h := mem_names_putMember.1 hmem
      · exact he h
      · exact hm h

theorem mem_putMember {name : JsonText} {m : JsonText × JsonValue} (h : m ∈ putMember name v ms) :
    m = (name, v) ∨ m ∈ ms := by
  induction ms with
  | nil => exact .inl (List.mem_singleton.1 h)
  | cons n ms ih =>
    rw [putMember] at h
    split at h
    · obtain rfl | h := List.mem_cons.1 h
      · exact .inl rfl
      · exact .inr (List.mem_cons_of_mem _ h)
    · obtain rfl | h := List.mem_cons.1 h
      · exact .inr (List.mem_cons_self ..)
      · exact (ih h).imp_right (List.mem_cons_of_mem _)

theorem Distinct.empty : (JsonValue.object []).Distinct := .object List.nodup_nil nofun

theorem Distinct.putMember {name : JsonText} (h : (JsonValue.object ms).Distinct)
    (hv : v.Distinct) : (JsonValue.object (JsonValue.putMember name v ms)).Distinct := by
  cases h with
  | object hn h =>
    refine .object (nodup_putMember name v hn) fun m hm => ?_
    obtain rfl | hm := mem_putMember hm
    · exact hv
    · exact h m hm

end JsonValue

namespace Json

theorem numberValue_distinct (h : numberValue s = .ok v) : v.Distinct := by
  unfold numberValue at h
  split at h
  · split at h
    · cases h
    · cases h
      exact .number _
  · cases h
    exact .number _

theorem atom_distinct (h : atom s = .ok (v, rest)) : v.Distinct := by
  unfold atom at h
  split at h
  · next word value hw =>
    cases h
    have hmem := List.mem_of_find?_eq_some hw
    simp only [words, List.mem_cons, Prod.mk.injEq, List.not_mem_nil, or_false] at hmem
    obtain ⟨-, rfl⟩ | ⟨-, rfl⟩ | ⟨-, rfl⟩ | ⟨-, rfl⟩ | ⟨-, rfl⟩ | ⟨-, rfl⟩ := hmem
    all_goals constructor
  · split at h
    · cases h
    · obtain ⟨_, hv, h⟩ := Except.bind_eq_ok.1 h
      cases h
      exact numberValue_distinct hv

/-- What is read with `n` layers left is distinct, if it is so of the members before it. -/
structure ReadsDistinct (n : Nat) : Prop where
  value {s : List Char} {v : JsonValue} {rest : List Char} (h : Json.value n s = .ok (v, rest)) :
    v.Distinct
  members {before ms : List (JsonText × JsonValue)} {s rest : List Char}
    (hb : (JsonValue.object before).Distinct) (h : Json.members n before s = .ok (ms, rest)) :
    (JsonValue.object ms).Distinct
  elements {s : List Char} {vs : List JsonValue} {rest : List Char}
    (h : Json.elements n s = .ok (vs, rest)) : ∀ v ∈ vs, v.Distinct

namespace ReadsDistinct

variable {n : Nat}

theorem value_succ (ih : ReadsDistinct n) (h : Json.value (n + 1) s = .ok (v, rest)) :
    v.Distinct := by
  rw [value.eq_def] at h
  dsimp only at h
  split at h
  · obtain ⟨_, -, h⟩ := Except.bind_eq_ok.1 h
    cases h
    exact .string _
  · split at h
    · cases h
      exact .empty
    · obtain ⟨_, hms, h⟩ := Except.bind_eq_ok.1 h
      cases h
      exact ih.members .empty hms
  · split at h
    · cases h
      exact .array nofun
    · obtain ⟨_, hvs, h⟩ := Except.bind_eq_ok.1 h
      cases h
      exact .array (ih.elements hvs)
  · exact atom_distinct h

theorem members_succ (ih : ReadsDistinct n) (hb : (JsonValue.object before).Distinct)
    (h : Json.members (n + 1) before s = .ok (ms, rest)) : (JsonValue.object ms).Distinct := by
  rw [members.eq_def] at h
  dsimp only at h
  split at h
  · obtain ⟨_, -, h⟩ := Except.bind_eq_ok.1 h
    split at h
    · obtain ⟨_, hv, h⟩ := Except.bind_eq_ok.1 h
      have hput (name : JsonText) :
          (JsonValue.object (JsonValue.putMember name _ before)).Distinct :=
        hb.putMember (ih.value hv)
      split at h
      · cases h
        exact hput _
      · exact ih.members (hput _) h
      · cases h
    · cases h
  · cases h

theorem elements_succ (ih : ReadsDistinct n) (h : Json.elements (n + 1) s = .ok (vs, rest)) :
    ∀ v ∈ vs, v.Distinct := by
  rw [elements.eq_def] at h
  dsimp only at h
  obtain ⟨_, hv, h⟩ := Except.bind_eq_ok.1 h
  split at h
  · cases h
    exact List.forall_mem_singleton.2 (ih.value hv)
  · obtain ⟨_, hvs, h⟩ := Except.bind_eq_ok.1 h
    cases h
    exact List.forall_mem_cons.2 ⟨ih.value hv, ih.elements hvs⟩
  · cases h

end ReadsDistinct

theorem reads_distinct (n : Nat) : ReadsDistinct n := by
  induction n with
  | zero => exact ⟨nofun, nofun, nofun⟩
  | succ n ih => exact ⟨ih.value_succ, ih.members_succ, ih.elements_succ⟩

/-- What is read from a text names no member of an object twice. -/
theorem document_distinct (h : document s = .ok v) : v.Distinct := by
  unfold document at h
  dsimp only at h
  split at h
  · cases h
  · obtain ⟨_, hv, h⟩ := Except.bind_eq_ok.1 h
    split at h
    · cases h
      exact (reads_distinct _).value hv
    · cases h

end Json

end Ferrotype
