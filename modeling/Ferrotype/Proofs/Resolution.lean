import Ferrotype.Proofs.Schema.Accounts
import Ferrotype.Proofs.Schema.TypeText

/-!
# Resolution walks down a chain

A type is resolved by a walk through `Option`s and `Vec`s to the first type that is neither. Its
text is the text of that end with a pair of brackets for each `Vec`, and a notice tells when the
end is no path.
-/

namespace Ferrotype

variable {t u e : Ty} {s : Segment}

/-! ## Walks -/

/-- A path that a walk passes. -/
inductive Wrapper where
  | option | vec
  deriving Repr, DecidableEq

def Wrapper.name : Wrapper → String
  | option => "Option"
  | vec => "Vec"

/-- The first type is a path whose last segment is the wrapper, with the second as its argument. -/
def Ty.IsWrapper (t : Ty) (w : Wrapper) (u : Ty) : Prop :=
  ∃ s, t.lastSegment? = some s ∧ s.name = w.name ∧ s.typeArgument? = some u

/-- The way from a type through wrappers to the first type that is none. -/
inductive Ty.Walk : Ty → List Wrapper → Ty → Prop where
  | stop {t : Ty} (h : ∀ w u, ¬ t.IsWrapper w u) : Walk t [] t
  | pass {t u e : Ty} {w : Wrapper} {ws : List Wrapper} (h : t.IsWrapper w u) (hw : Walk u ws e) :
    Walk t (w :: ws) e

theorem Wrapper.name_injective {w w' : Wrapper} (h : w.name = w'.name) : w = w' := by
  cases w <;> cases w' <;> first | rfl | exact absurd h (by decide)

theorem Ty.IsWrapper.unique {w w' : Wrapper} {u' : Ty} (h : t.IsWrapper w u)
    (h' : t.IsWrapper w' u') : w = w' ∧ u = u' := by
  obtain ⟨s, hs, hn, ha⟩ := h
  obtain ⟨s', hs', hn', ha'⟩ := h'
  obtain rfl : s = s' := Option.some.inj (hs.symm.trans hs')
  exact ⟨Wrapper.name_injective (hn.symm.trans hn'), Option.some.inj (ha.symm.trans ha')⟩

theorem Ty.Walk.unique {ws ws' : List Wrapper} {e' : Ty} (h : t.Walk ws e) (h' : t.Walk ws' e') :
    ws = ws' ∧ e = e' := by
  induction h generalizing ws' with
  | stop h =>
    cases h' with
    | stop => exact ⟨rfl, rfl⟩
    | pass hw => exact absurd hw (h _ _)
  | pass h _ ih =>
    cases h' with
    | stop hn => exact absurd h (hn _ _)
    | pass h' hw' =>
      obtain ⟨rfl, rfl⟩ := h.unique h'
      obtain ⟨rfl, rfl⟩ := ih hw'
      exact ⟨rfl, rfl⟩

theorem Ty.sizeOf_argument (hs : t.lastSegment? = some s) (ha : s.typeArgument? = some u) :
    sizeOf u < sizeOf t := by
  unfold lastSegment? at hs
  split at hs
  · have := sizeOf_typeArgument hs ha
    simp
    omega
  · cases hs

theorem Ty.exists_walk (t : Ty) : ∃ ws e, t.Walk ws e := by
  by_cases h : ∃ w u, t.IsWrapper w u
  · obtain ⟨w, u, hw⟩ := h
    obtain ⟨ws, e, hu⟩ := Ty.exists_walk u
    exact ⟨w :: ws, e, .pass hw hu⟩
  · exact ⟨[], t, .stop fun w u hw => h ⟨w, u, hw⟩⟩
termination_by sizeOf t
decreasing_by
  obtain ⟨s, hs, -, ha⟩ := hw
  exact Ty.sizeOf_argument hs ha

/-! ## Ends -/

/-- The names that have a text of their own. -/
def nameTexts : List (String × String) :=
  [("String", "string"), ("str", "string"), ("i8", "number"), ("i16", "number"), ("i32", "number"),
    ("i64", "number"), ("i128", "number"), ("isize", "number"), ("u8", "number"),
    ("u16", "number"), ("u32", "number"), ("u64", "number"), ("u128", "number"),
    ("usize", "number"), ("f32", "number"), ("f64", "number"), ("bool", "boolean"),
    ("Vec", "Array")]

/-- The text of a type that is no wrapper. -/
def Ty.endText (e : Ty) : String :=
  e.lastSegment?.elim "any" fun s => (nameTexts.lookup s.name).getD s.name

theorem namedType_text (name : String) :
    (namedType name).text = (nameTexts.lookup name).getD name := by
  by_cases h : name ∈ nameTexts.map Prod.fst
  · revert name
    decide
  · have hl : nameTexts.lookup name = none := by
      refine List.lookup_eq_none_iff.2 fun e he => ?_
      have hn : name ≠ e.1 := fun hn => h (hn ▸ List.mem_map_of_mem he)
      simpa using hn
    have hr : namedType name = .reference name := by
      simp only [nameTexts, List.map_cons, List.map_nil, List.mem_cons, List.not_mem_nil,
        or_false, not_or] at h
      simp [namedType, h]
    rw [hl, hr]
    rfl

theorem namedType_isLoose (name : String) : (namedType name).isLoose = false := by
  unfold namedType
  split_ifs <;> rfl

/-! ## Steps -/

/-- What a wrapper makes of what is known of its argument. -/
def Wrapper.around : Wrapper → Resolved → Resolved
  | option, r => r
  | vec, r => r.array

theorem Segment.resolve_argument (ha : s.typeArgument? = some u) :
    s.resolve =
      if s.name = "Option" then u.resolve
      else if s.name = "Vec" then u.resolve.array
      else .ofType (namedType s.name) := by
  obtain ⟨name, arguments⟩ := s
  unfold typeArgument? at ha
  split at ha
  · next hu =>
    cases ha
    obtain rfl : arguments = _ := hu
    rw [Segment.resolve]
    rfl
  · cases ha

theorem Ty.resolve_segment (hs : t.lastSegment? = some s) : t.resolve = s.resolve := by
  unfold lastSegment? at hs
  split at hs
  · exact Ty.resolve_path _ _ hs
  · cases hs

theorem Ty.IsWrapper.resolve {w : Wrapper} (h : t.IsWrapper w u) :
    t.resolve = w.around u.resolve := by
  obtain ⟨s, hs, hn, ha⟩ := h
  rw [Ty.resolve_segment hs, Segment.resolve_argument ha, hn]
  cases w <;> rfl

/-- At the end of a walk the last segment counts by its name alone. -/
theorem Ty.resolve_named (h : ∀ w u, ¬ e.IsWrapper w u) (hs : e.lastSegment? = some s) :
    e.resolve = .ofType (namedType s.name) := by
  rw [Ty.resolve_segment hs]
  cases ha : s.typeArgument? with
  | none => exact Segment.resolve_named ha
  | some u =>
    have ho : s.name ≠ "Option" := fun hn => h .option u ⟨s, hs, hn, ha⟩
    have hv : s.name ≠ "Vec" := fun hn => h .vec u ⟨s, hs, hn, ha⟩
    rw [Segment.resolve_argument ha, if_neg ho, if_neg hv]

/-- A type without a last segment is `any`, and its shape is noted if it is no path. -/
theorem Ty.resolve_other (hs : e.lastSegment? = none) :
    e.resolve = ⟨.primitive .any, if e.isPath then none else some e.shapeName⟩ := by
  cases e with
  | path qualifier leading segments =>
    obtain rfl := List.getLast?_eq_none_iff.1 hs
    rfl
  | _ => rfl

theorem Ty.isPath_of_segment (hs : e.lastSegment? = some s) : e.isPath = true := by
  cases e with
  | path => rfl
  | _ => cases hs

/-- An end is known by its name, or it has a shape that is noted. -/
theorem Ty.resolve_end (h : ∀ w u, ¬ e.IsWrapper w u) :
    e.resolve.type.text = e.endText ∧ e.resolve.type.isLoose = false ∧
      e.resolve.unsupported = if e.isPath then none else some e.shapeName := by
  unfold endText
  cases hs : e.lastSegment? with
  | none =>
    rw [Ty.resolve_other hs]
    exact ⟨rfl, rfl, rfl⟩
  | some s =>
    rw [Ty.resolve_named h hs, Ty.isPath_of_segment hs]
    exact ⟨namedType_text s.name, namedType_isLoose s.name, rfl⟩

/-! ## Whole walks -/

def brackets (n : Nat) : String := String.join (List.replicate n "[]")

theorem Ty.Walk.resolve {ws : List Wrapper} (h : t.Walk ws e) :
    t.resolve.type.text = e.endText ++ brackets (ws.count .vec) ∧
      t.resolve.type.isLoose = false ∧
      t.resolve.unsupported = if e.isPath then none else some e.shapeName := by
  induction h with
  | stop h =>
    obtain ⟨ht, hl, hu⟩ := Ty.resolve_end h
    exact ⟨by rw [ht]; simp [brackets], hl, hu⟩
  | @pass t u e w ws h _ ih =>
    obtain ⟨ht, hl, hu⟩ := ih
    rw [h.resolve]
    cases w with
    | option => exact ⟨by rw [List.count_cons_of_ne (by decide)]; exact ht, hl, hu⟩
    | vec =>
      refine ⟨?_, rfl, hu⟩
      rw [List.count_cons_self, brackets, List.replicate_succ', String.join_append,
        ← String.append_assoc, ← brackets, ← ht]
      exact TsType.text_array hl

/-! ## Collectors -/

/-- Resolution that tells a collector, if there is one, of a shape as soon as it meets it. -/
def Ty.resolveInto (declaration : String) (line : Option Int) (collector : Option (List Notice))
    (t : Ty) : TsType Empty × Option (List Notice) :=
  if t.isPath then
    match _hs : t.lastSegment? with
    | none => (.primitive .any, collector)
    | some s =>
      match _ha : s.typeArgument? with
      | none => (namedType s.name, collector)
      | some u =>
        if s.name = "Option" then u.resolveInto declaration line collector
        else if s.name = "Vec" then
          let r := u.resolveInto declaration line collector
          (.array r.1, r.2)
        else (namedType s.name, collector)
  else (.primitive .any, collector.map (· ++ [.unsupportedType t.shapeName declaration line]))
termination_by sizeOf t
decreasing_by all_goals exact Ty.sizeOf_argument _hs _ha

/-- A collector is told what the resolution without one knows. -/
theorem Ty.resolveInto_eq (declaration : String) (line : Option Int)
    (collector : Option (List Notice)) (t : Ty) :
    t.resolveInto declaration line collector =
      (t.resolve.type, collector.map
        (· ++ (t.resolve.unsupported.map (.unsupportedType · declaration line)).toList)) := by
  fun_induction Ty.resolveInto declaration line collector t with
  | case1 t hp hs => simp [Ty.resolve_other hs, hp]
  | case2 t hp s hs ha =>
    simp [Ty.resolve_segment hs, Segment.resolve_named ha, Resolved.ofType]
  | case3 t hp s hs u ha hn ih =>
    rw [ih, Ty.resolve_segment hs, Segment.resolve_argument ha, if_pos hn]
  | case4 t hp s hs u ha hn hv r ih =>
    have hr : r = _ := ih
    rw [Ty.resolve_segment hs, Segment.resolve_argument ha, if_neg hn, if_pos hv, hr]
    rfl
  | case5 t hp s hs u ha hn hv =>
    simp [Ty.resolve_segment hs, Segment.resolve_argument ha, hn, hv, Resolved.ofType]
  | case6 t hp =>
    have hs : t.lastSegment? = none := by
      cases hs : t.lastSegment? with
      | none => rfl
      | some s => exact absurd (Ty.isPath_of_segment hs) hp
    simp [Ty.resolve_other hs, hp]

/-! ## What a walk does not look at -/

/-- The type with all paths on the walk cut down to their last segments. -/
def Ty.stripped (t : Ty) : Ty :=
  match _hs : t.lastSegment? with
  | none => if t.isPath then .path none false [] else t
  | some s =>
    match _ha : s.typeArgument? with
    | none => .path none false [s]
    | some u =>
      if s.name = "Option" ∨ s.name = "Vec" then
        .path none false [.mk s.name (.angle [.type u.stripped])]
      else .path none false [s]
termination_by sizeOf t
decreasing_by exact Ty.sizeOf_argument _hs _ha

theorem Ty.resolve_stripped (t : Ty) : t.stripped.resolve = t.resolve := by
  fun_induction Ty.stripped t with
  | case1 t hs hp =>
    rw [Ty.resolve_other hs, if_pos hp]
    rfl
  | case2 t hs hp => rfl
  | case3 t s hs ha => exact (Ty.resolve_segment hs).symm
  | case4 t s hs u ha hn ih =>
    have ha' : Segment.typeArgument? (.mk s.name (.angle [.type u.stripped])) = some u.stripped :=
      rfl
    rw [Ty.resolve_segment hs, Segment.resolve_argument ha, ← ih]
    exact Segment.resolve_argument ha'
  | case5 t s hs u ha hn => exact (Ty.resolve_segment hs).symm

/--
A type is resolved by a walk through `Option`s and `Vec`s to an end. The text is that of the end and
a pair of brackets for each `Vec`. A shape is noted, once, if the end is no path; a collector that
is there or not changes nothing else, and neither do all but the last segments of the paths.
-/
theorem Ty.resolve_walk (t : Ty) :
    (∃! walk : List Wrapper × Ty, t.Walk walk.1 walk.2) ∧ ∀ ws e, t.Walk ws e →
      t.resolve.type.text = e.endText ++ brackets (ws.count .vec) ∧
      (∀ declaration line, typeText t declaration line =
        ⟨t.resolve.type.text,
          if e.isPath then [] else [.unsupportedType e.shapeName declaration (some line)]⟩) ∧
      ∀ declaration line collector,
        t.resolveInto declaration line collector =
          (t.resolve.type, collector.map
            (· ++ if e.isPath then [] else [.unsupportedType e.shapeName declaration line])) ∧
        t.stripped.resolveInto declaration line collector =
          t.resolveInto declaration line collector := by
  constructor
  · obtain ⟨ws, e, h⟩ := t.exists_walk
    refine ⟨(ws, e), h, fun walk h' => ?_⟩
    obtain ⟨hws, he⟩ := h'.unique h
    exact Prod.ext hws he
  intro ws e h
  obtain ⟨ht, -, hu⟩ := h.resolve
  refine ⟨ht, fun declaration line => ?_, fun declaration line collector => ⟨?_, ?_⟩⟩
  · rw [typeText_eq, Ty.notices, hu]
    cases e.isPath <;> rfl
  · rw [Ty.resolveInto_eq, hu]
    cases e.isPath <;> rfl
  · rw [Ty.resolveInto_eq, Ty.resolveInto_eq, Ty.resolve_stripped]

/-- Two `Vec`s with an `Option` between them, around a reference. -/
theorem Ty.resolve_walk_reference :
    let r : Ty := .reference none false (.path none false [.mk "T" .none])
    let v : Ty := .path (some .never) false [.mk "Vec" (.angle [.type r])]
    let o : Ty := .path none false [.mk "Option" (.angle [.type v])]
    let t : Ty := .path none true [.mk "std" .none, .mk "Vec" (.angle [.type o])]
    t.Walk [.vec, .option, .vec] r ∧ t.resolve.type.text = "any[][]" ∧
      typeText t "D" 3 = ⟨"any[][]", [.unsupportedType "Reference" "D" (some 3)]⟩ ∧
      (t.resolveInto "D" none (some [])).2 = some [.unsupportedType "Reference" "D" none] ∧
      (t.stripped.resolveInto "D" none none).2 = none := by
  intro r v o t
  have hw : t.Walk [.vec, .option, .vec] r :=
    .pass ⟨_, rfl, rfl, rfl⟩ <| .pass ⟨_, rfl, rfl, rfl⟩ <| .pass ⟨_, rfl, rfl, rfl⟩ <|
      .stop fun w u ⟨s, hs, _⟩ => nomatch hs
  obtain ⟨ht, hn, hc⟩ := (Ty.resolve_walk t).2 _ _ hw
  obtain ⟨hsome, -⟩ := hc "D" none (some [])
  obtain ⟨hnone, hstripped⟩ := hc "D" none none
  refine ⟨hw, ht, ?_, ?_, ?_⟩
  · rw [hn, ht]
    rfl
  · rw [hsome]
    rfl
  · rw [hstripped, hnone]
    rfl

end Ferrotype
