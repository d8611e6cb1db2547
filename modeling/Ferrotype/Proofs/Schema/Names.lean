import Ferrotype.Schema.Name
import Ferrotype.Proofs.Files.Paths
import Mathlib.Data.List.Infix
import Mathlib.Logic.Relation

/-!
# Names without underscores

An underscore goes, and the character behind it is capitalized. Two names come to the same just if
one can be respelled as the other. Names in snake case do so only if they are the same.
-/

namespace Ferrotype

open Text

variable {c d : Char} {s x y a b : List Char}

/-! ## Capitals -/

namespace Text

theorem ofNat_eq_underscore {n : Nat} (h : Char.ofNat n = '_') : n = 95 := by
  by_cases hv : n.isValidChar
  · have ht : (Char.ofNat n).toNat = n := congrArg Char.toNat (dif_pos hv)
    exact ht.symm.trans (congrArg Char.toNat h)
  · cases (dif_neg hv).symm.trans h

/-- What holds of each ASCII character. -/
theorem forall_ascii {p : Char → Bool}
    (hp : ((List.range 128).all fun n => p (Char.ofNat n)) = true) (h : c.toNat < 128) :
    p c = true := by
  have := List.all_eq_true.1 hp c.toNat (List.mem_range.2 h)
  rwa [Char.ofNat_toNat] at this

/-- No run of characters has the underscore among its capitals. -/
theorem upperRuns_underscore {run : Nat × Nat × Nat × Nat} (hr : run ∈ upperRuns)
    (h : upperInRun c run = some d) : d ≠ '_' := by
  have hall : ∀ run ∈ upperRuns, 95 < run.2.2.2 ∨ run.2.2.2 + (run.2.1 - run.1) < 95 := by
    decide +kernel
  have hrun := hall run hr
  obtain ⟨first, last, step, image⟩ := run
  simp only [upperInRun] at h hrun
  split at h
  · cases h
    intro he
    have := ofNat_eq_underscore he
    omega
  · cases h

theorem upperExpansions_underscore {code : Nat} {codes : List Nat}
    (h : upperExpansions.lookup code = some codes) : codes ≠ [] ∧ 95 ∉ codes := by
  have hall : ∀ e ∈ upperExpansions, e.2 ≠ [] ∧ 95 ∉ e.2 := by decide
  obtain ⟨_, _, he, -⟩ := List.lookup_eq_some_iff.1 h
  exact hall (code, codes) (by rw [he]; simp)

theorem upper_ne_nil (c : Char) : upper c ≠ [] := by
  unfold upper
  split
  · simp
  · split
    · next h => simpa using (upperExpansions_underscore h).1
    · simp

theorem underscore_notMem_upper (h : c ≠ '_') : '_' ∉ upper c := by
  unfold upper
  split
  · next hc =>
    have hu := forall_ascii (p := fun c => c == '_' || c.toUpper != '_') (by decide) hc
    have hu : c.toUpper ≠ '_' := by simpa [h] using hu
    simpa using hu.symm
  · split
    · next codes hl =>
      rintro hm
      obtain ⟨code, hmem, he⟩ := List.mem_map.1 hm
      exact (upperExpansions_underscore hl).2 (ofNat_eq_underscore he ▸ hmem)
    · cases hf : upperRuns.findSome? (upperInRun c) with
      | none => simpa using h.symm
      | some d =>
        obtain ⟨_, run, _, hu, hr, -⟩ := List.findSome?_eq_some_iff.1 hf
        have hd := upperRuns_underscore (by rw [hu]; simp) hr
        simpa using hd.symm

end Text

/-! ## Character by character -/

/-- The capitalized parts of a text. -/
def joinCaps (s : List Char) : List Char := (splitAtChar '_' s).flatMap capitalize

theorem camelChars_nil : camelChars [] = [] := rfl

theorem joinCaps_nil : joinCaps [] = [] := rfl

theorem camelChars_underscore (s : List Char) : camelChars ('_' :: s) = joinCaps s := by
  rw [camelChars, splitAtChar_self]
  rfl

theorem joinCaps_underscore (s : List Char) : joinCaps ('_' :: s) = joinCaps s := by
  rw [joinCaps, splitAtChar_self]
  rfl

theorem splitAtChar_cons (h : c ≠ '_') (s : List Char) : ∃ part parts,
    splitAtChar '_' s = part :: parts ∧ splitAtChar '_' (c :: s) = (c :: part) :: parts := by
  cases hs : splitAtChar '_' s with
  | nil => exact absurd (splitAtChar_eq_splitOn '_' s ▸ hs) (List.splitOn_ne_nil _ _)
  | cons part parts => exact ⟨part, parts, rfl, by rw [splitAtChar, hs]; exact if_neg h⟩

theorem camelChars_cons (h : c ≠ '_') (s : List Char) :
    camelChars (c :: s) = c :: camelChars s := by
  obtain ⟨part, parts, hs, hc⟩ := splitAtChar_cons h s
  simp only [camelChars, hs, hc, List.cons_append]

theorem joinCaps_cons (h : c ≠ '_') (s : List Char) :
    joinCaps (c :: s) = upper c ++ camelChars s := by
  obtain ⟨part, parts, hs, hc⟩ := splitAtChar_cons h s
  simp only [camelChars, joinCaps, hs, hc, List.flatMap_cons, capitalize, List.append_assoc]

theorem camelChars_plain (h : '_' ∉ s) : camelChars s = s := by
  induction s with
  | nil => rfl
  | cons c s ih =>
    rw [List.mem_cons, not_or] at h
    rw [camelChars_cons (Ne.symm h.1), ih h.2]

/-- Behind an underscore each part is capitalized, whatever stands in front of it. -/
theorem append_underscore (x y : List Char) :
    camelChars (x ++ '_' :: y) = camelChars x ++ joinCaps y ∧
      joinCaps (x ++ '_' :: y) = joinCaps x ++ joinCaps y := by
  -- Both at once, since an underscore at the front of `x` makes the second out of the first.
  induction x with
  | nil => exact ⟨camelChars_underscore y, joinCaps_underscore y⟩
  | cons c x ih =>
    by_cases hc : c = '_'
    · subst hc
      simp [camelChars_underscore, joinCaps_underscore, ih.2]
    · simp [camelChars_cons hc, joinCaps_cons hc, ih.1]

/-- Behind another character the text goes on as from its start. -/
theorem append_part (hx : x.getLast? ≠ some '_') (y : List Char) :
    camelChars (x ++ y) = camelChars x ++ camelChars y ∧
      (x ≠ [] → joinCaps (x ++ y) = joinCaps x ++ camelChars y) := by
  induction x with
  | nil => exact ⟨rfl, fun h => absurd rfl h⟩
  | cons c x ih =>
    by_cases hn : x = []
    · subst hn
      have hc : c ≠ '_' := by simpa using hx
      simp [camelChars_cons hc, joinCaps_cons hc, camelChars_nil]
    · obtain ⟨d, x', rfl⟩ := List.exists_cons_of_ne_nil hn
      rw [List.getLast?_cons_cons] at hx
      obtain ⟨h1, h2⟩ := ih hx
      by_cases hc : c = '_'
      · subst hc
        simp [camelChars_underscore, joinCaps_underscore, ← h2 hn]
      · simp [camelChars_cons hc, joinCaps_cons hc, ← h1]

/-! ## Respelling -/

/--
One underscore less: it is the last character, stands in front of another one, or gives way to the
capital of the character behind it.
-/
inductive Respells : List Char → List Char → Prop where
  | trailing (x : List Char) : Respells (x ++ ['_']) x
  | doubled (x y : List Char) : Respells (x ++ '_' :: '_' :: y) (x ++ '_' :: y)
  | capital {x : List Char} {c : Char} (y : List Char) (hx : x.getLast? ≠ some '_') (hc : c ≠ '_') :
    Respells (x ++ '_' :: c :: y) (x ++ (upper c ++ y))

/-- Two names that can be respelled as each other. -/
def SameWords (a b : String) : Prop := Relation.EqvGen Respells a.toList b.toList

theorem Respells.camelChars_eq (h : Respells a b) : camelChars a = camelChars b := by
  cases h with
  | trailing => rw [(append_underscore _ _).1, joinCaps_nil, List.append_nil]
  | doubled => rw [(append_underscore _ _).1, joinCaps_underscore, (append_underscore _ _).1]
  | @capital x c y hx hc =>
    have hu : camelChars (upper c ++ y) = upper c ++ camelChars y := by
      have hn := underscore_notMem_upper hc
      rw [(append_part (fun h => hn (List.mem_of_getLast? h)) y).1, camelChars_plain hn]
    rw [(append_underscore _ _).1, joinCaps_cons hc, (append_part hx _).1, hu]

/-- A name that has an underscore can be respelled with one less. -/
theorem exists_respells (h : '_' ∈ a) : ∃ b, Respells a b ∧ b.count '_' < a.count '_' := by
  obtain ⟨x, y, rfl, hx⟩ := List.eq_append_cons_of_mem h
  match y with
  | [] => exact ⟨x, .trailing x, by simp⟩
  | '_' :: y => exact ⟨x ++ '_' :: y, .doubled x y, by simp⟩
  | c :: y =>
    by_cases hc : c = '_'
    · subst hc
      exact ⟨x ++ '_' :: y, .doubled x y, by simp⟩
    · have hu := List.count_eq_zero.2 (underscore_notMem_upper hc)
      refine ⟨x ++ (upper c ++ y), .capital y (fun h => hx (List.mem_of_getLast? h)) hc, ?_⟩
      simp [hu, hc]

theorem eqvGen_camelChars (a : List Char) : Relation.EqvGen Respells a (camelChars a) := by
  -- A respelling leaves the result as it is, and fewer underscores to go.
  induction hn : a.count '_' using Nat.strongRecOn generalizing a with
  | ind n ih =>
    subst hn
    by_cases h : '_' ∈ a
    · obtain ⟨b, hr, hlt⟩ := exists_respells h
      rw [hr.camelChars_eq]
      exact .trans _ _ _ (.rel _ _ hr) (ih _ hlt b rfl)
    · rw [camelChars_plain h]
      exact .refl a

theorem camelChars_eq_iff : camelChars a = camelChars b ↔ Relation.EqvGen Respells a b := by
  constructor
  · intro h
    have hb := eqvGen_camelChars b
    rw [← h] at hb
    exact .trans _ _ _ (eqvGen_camelChars a) (.symm _ _ hb)
  · intro h
    induction h with
    | rel a b h => exact h.camelChars_eq
    | refl a => rfl
    | symm a b _ ih => exact ih.symm
    | trans a b c _ _ h₁ h₂ => exact h₁.trans h₂

theorem camelCase_eq_iff (a b : String) : camelCase a = camelCase b ↔ SameWords a b := by
  rw [SameWords, ← camelChars_eq_iff, camelCase, camelCase, String.ofList_inj]

/-! ## Names of underscores -/

theorem joinCaps_eq_nil : joinCaps s = [] ↔ ∀ c ∈ s, c = '_' := by
  induction s with
  | nil => simp [joinCaps_nil]
  | cons c s ih =>
    by_cases hc : c = '_'
    · simp [hc, joinCaps_underscore, ih]
    · simp [hc, joinCaps_cons hc, upper_ne_nil]

theorem camelChars_eq_nil : camelChars s = [] ↔ ∀ c ∈ s, c = '_' := by
  cases s with
  | nil => simp [camelChars_nil]
  | cons c s =>
    by_cases hc : c = '_'
    · simp [hc, camelChars_underscore, joinCaps_eq_nil]
    · simp [hc, camelChars_cons hc]

theorem camelCase_ne_empty (name : String) : camelCase name ≠ "" ↔ ∃ c ∈ name.toList, c ≠ '_' := by
  have he : camelCase name = "" ↔ camelChars name.toList = [] := by
    rw [camelCase, ← String.ofList_nil, String.ofList_inj]
  rw [Ne, he, camelChars_eq_nil]
  simp

/-! ## Snake case -/

/-- Words in small letters, with one underscore between two of them, and a letter behind it. -/
structure IsSnakeCase (name : String) : Prop where
  start : ∃ c ∈ name.toList.head?, c ≠ '_'
  small : ∀ c ∈ name.toList, c.isUpper = false
  letter : ∀ s, '_' :: s <:+ name.toList → ∃ c ∈ s.head?, c.isLower

def isSnakeCase (name : String) : Bool :=
  name.toList.head?.any (· != '_') && (name.toList.all (!·.isUpper) &&
    name.toList.tails.all fun s => s.head? != some '_' || s.tail.head?.any Char.isLower)

theorem isSnakeCase_iff (name : String) : isSnakeCase name = true ↔ IsSnakeCase name := by
  simp only [isSnakeCase, Bool.and_eq_true, Option.any_eq_true, List.all_eq_true, Bool.or_eq_true,
    bne_iff_ne, Bool.not_eq_true', List.mem_tails]
  constructor
  · rintro ⟨h₁, h₂, h₃⟩
    exact ⟨h₁, h₂, fun s hs => (h₃ _ hs).resolve_left (by simp)⟩
  · rintro ⟨h₁, h₂, h₃⟩
    refine ⟨h₁, h₂, fun s hs => or_iff_not_imp_left.2 fun hh => ?_⟩
    obtain ⟨s, rfl⟩ := List.head?_eq_some_iff.1 (not_not.1 hh)
    exact h₃ s hs

instance : DecidablePred IsSnakeCase := fun name => decidable_of_iff _ (isSnakeCase_iff name)

/-- An underscore and a small letter for each capital. -/
def snakeChars (s : List Char) : List Char :=
  s.flatMap fun c => if c.isUpper then ['_', c.toLower] else [c]

theorem upper_letter (h : c.isLower) :
    c ≠ '_' ∧ upper c = [c.toUpper] ∧ c.toUpper.isUpper ∧ c.toUpper.toLower = c := by
  have hlt : c.toNat < 128 := by
    obtain ⟨-, hz⟩ := Bool.and_eq_true_iff.1 h
    have hz : c.toNat ≤ 122 := of_decide_eq_true hz
    omega
  have hp := forall_ascii (p := fun c => !c.isLower ||
    (c != '_' && (c.toUpper.isUpper && c.toUpper.toLower == c))) (by decide) hlt
  have hp : c ≠ '_' ∧ c.toUpper.isUpper ∧ c.toUpper.toLower = c := by simpa [h] using hp
  exact ⟨hp.1, if_pos hlt, hp.2⟩

theorem snakeChars_camelChars (hs : ∀ c ∈ s, c.isUpper = false)
    (hl : ∀ x, '_' :: x <:+ s → ∃ c ∈ x.head?, c.isLower) :
    snakeChars (camelChars s) = s := by
  induction hn : s.length using Nat.strongRecOn generalizing s with
  | ind n ih =>
    subst hn
    have hrest {x y : List Char} (hx : x ≠ []) (he : s = x ++ y) :
        snakeChars (camelChars y) = y := by
      refine ih y.length ?_ (fun c hc => hs c (by simp [he, hc])) (fun t ht => ?_) rfl
      · have := List.length_pos_iff.2 hx
        simp only [he, List.length_append]
        omega
      · exact hl t (he ▸ ht.trans (List.suffix_append x y))
    cases s with
    | nil => rfl
    | cons c s =>
      by_cases hc : c = '_'
      · subst hc
        obtain ⟨d, hd, hlow⟩ := hl s List.suffix_rfl
        obtain ⟨s, rfl⟩ := List.head?_eq_some_iff.1 hd
        obtain ⟨hne, hu, hup, hlo⟩ := upper_letter hlow
        have := hrest (x := ['_', d]) (by simp) rfl
        rw [camelChars_underscore, joinCaps_cons hne, hu, List.singleton_append, snakeChars,
          List.flatMap_cons, if_pos hup, hlo]
        exact congrArg (['_', d] ++ ·) this
      · have hup : c.isUpper = false := hs c (by simp)
        have := hrest (x := [c]) (by simp) rfl
        rw [camelChars_cons hc, snakeChars, List.flatMap_cons, if_neg (by simp [hup])]
        exact congrArg ([c] ++ ·) this

/-- Of a name in snake case nothing is lost. -/
theorem IsSnakeCase.eq_of_camelCase {a b : String} (ha : IsSnakeCase a) (hb : IsSnakeCase b)
    (h : camelCase a = camelCase b) : a = b := by
  have h' : camelChars a.toList = camelChars b.toList := String.ofList_inj.1 h
  have := congrArg snakeChars h'
  rw [snakeChars_camelChars ha.small ha.letter, snakeChars_camelChars hb.small hb.letter] at this
  exact String.toList_inj.1 this

theorem IsSnakeCase.camelCase_ne_empty {name : String} (h : IsSnakeCase name) :
    camelCase name ≠ "" := by
  obtain ⟨c, hc, hne⟩ := h.start
  exact (Ferrotype.camelCase_ne_empty name).2 ⟨c, List.mem_of_mem_head? hc, hne⟩

/-! ## Joined names -/

theorem underscore_notMem_camelChars (s : List Char) : '_' ∉ camelChars s ∧ '_' ∉ joinCaps s := by
  -- Both at once, as for `append_underscore`.
  induction s with
  | nil => simp [camelChars_nil, joinCaps_nil]
  | cons c s ih =>
    by_cases hc : c = '_'
    · subst hc
      simp [camelChars_underscore, joinCaps_underscore, ih.2]
    · simp [camelChars_cons hc, joinCaps_cons hc, underscore_notMem_upper hc, ih.1, Ne.symm hc]

/--
Names may be joined before or after, wherever there are underscores. None is left, so a name that
has been through stays as it is, as do just the names that never had one.
-/
theorem camelCase_joined (a b : String) :
    camelCase (a ++ "_" ++ b) = camelCase a ++ camelCase ("_" ++ b) ∧
      '_' ∉ (camelCase a).toList ∧ camelCase (camelCase a) = camelCase a ∧
      (camelCase a = a ↔ '_' ∉ a.toList) := by
  have hn : '_' ∉ (camelCase a).toList := by
    rw [camelCase, String.toList_ofList]
    exact (underscore_notMem_camelChars _).1
  have hp {name : String} (h : '_' ∉ name.toList) : camelCase name = name := by
    rw [camelCase, camelChars_plain h, String.ofList_toList]
  refine ⟨?_, hn, hp hn, fun h => h ▸ hn, hp⟩
  have hj : (a ++ "_" ++ b).toList = a.toList ++ '_' :: b.toList := by simp
  have hb : ("_" ++ b).toList = '_' :: b.toList := by simp
  rw [camelCase, camelCase, camelCase, hj, hb, (append_underscore _ _).1, camelChars_underscore,
    String.ofList_append]

example : camelCase "_foo__bar_ßtag_" = "FooBarSStag" := by decide

end Ferrotype
