import Ferrotype.Proofs.Schema.TypeFront

/-!
# The text of a type tells the type

A text is taken apart from its front. What comes behind a type never continues it, so two types
that a text starts with are the same type, with the same text behind it.
-/

namespace Ferrotype

/-! ## Lists -/

section Lists

variable {α : Type} {f : α → List Char} {sep close r r' : List Char} {as bs : List α}

/-- Elements with a separator between each two, if what follows the list is no separator. -/
theorem intercalate_inj {p : List Char → Prop} (hp : ∀ s, ¬ p (sep ++ s))
    (h : ∀ a ∈ as, ∀ b ∈ bs, ∀ r r', (p r ∨ ∃ s, r = sep ++ s) → (p r' ∨ ∃ s, r' = sep ++ s) →
      f a ++ r = f b ++ r' → a = b ∧ r = r')
    (ha : as ≠ []) (hb : bs ≠ []) (hr : p r) (hr' : p r')
    (he : sep.intercalate (as.map f) ++ r = sep.intercalate (bs.map f) ++ r') :
    as = bs ∧ r = r' := by
  induction as generalizing bs with
  | nil => exact absurd rfl ha
  | cons a as ih =>
    obtain ⟨b, bs, rfl⟩ := List.exists_cons_of_ne_nil hb
    have hab := h a (List.mem_cons_self ..) b (List.mem_cons_self ..)
    cases as with
    | nil =>
      cases bs with
      | nil =>
        obtain ⟨rfl, rfl⟩ := hab r r' (.inl hr) (.inl hr') (by simpa using he)
        exact ⟨rfl, rfl⟩
      | cons b' bs =>
        obtain ⟨-, rfl⟩ := hab r _ (.inl hr) (.inr ⟨_, rfl⟩) (by simpa using he)
        exact absurd hr (hp _)
    | cons a' as =>
      cases bs with
      | nil =>
        obtain ⟨-, rfl⟩ := hab _ r' (.inr ⟨_, rfl⟩) (.inl hr') (by simpa using he)
        exact absurd hr' (hp _)
      | cons b' bs =>
        obtain ⟨rfl, hs⟩ := hab _ _ (.inr ⟨_, rfl⟩) (.inr ⟨_, rfl⟩) (by simpa using he)
        have hrest := ih (fun x hx y hy => h x (List.mem_cons_of_mem _ hx) y
          (List.mem_cons_of_mem _ hy)) (List.cons_ne_nil _ _) (List.cons_ne_nil _ _)
          (by simpa using hs)
        exact ⟨congrArg (a :: ·) hrest.1, hrest.2⟩

end Lists

namespace TsType

variable {a b t : TsType Empty} {n n' : Nat} {r r' s u : List Char}

/-! ## Types that a text tells apart -/

/-- No text starts with both types, unless they are the same. -/
def Distinct (a b : TsType Empty) : Prop :=
  ∀ r r', Ends r → Ends r' → a.chars ++ r = b.chars ++ r' → a = b ∧ r = r'

/-- A type in any number of arrays. -/
def arrays : Nat → TsType Empty → TsType Empty
  | 0, t => t
  | n + 1, t => arrays n (array t)

/-- As members of a union, and as elements of arrays without brackets of their own. -/
def DistinctMembers (a b : TsType Empty) : Prop :=
  ∀ n n' r r', MemberEnds r → MemberEnds r' →
    a.chars ++ (brackets n ++ r) = b.chars ++ (brackets n' ++ r') →
      arrays n a = arrays n' b ∧ r = r'

theorem Distinct.symm (h : Distinct a b) : Distinct b a := fun r r' hr hr' he =>
  (h r' r hr' hr he.symm).imp Eq.symm Eq.symm

theorem DistinctMembers.symm (h : DistinctMembers a b) : DistinctMembers b a :=
  fun n n' r r' hr hr' he => (h n' n r' r hr' hr he.symm).imp Eq.symm Eq.symm

/-! ### Lists -/

section Lists

variable {α : Type} {f : α → List Char} {as bs : List α}

/-- A list up to the bracket that closes it. -/
theorem commaList_inj (close : List Char) (hc : ∀ s, Ends (close ++ s))
    (hs : ∀ s s', [',', ' '] ++ s ≠ close ++ s')
    (hf : ∀ a, a ∈ as ∨ a ∈ bs → ∀ s s', Ends s → f a ++ s ≠ close ++ s')
    (h : ∀ a ∈ as, ∀ b ∈ bs, ∀ r r', Ends r → Ends r' → f a ++ r = f b ++ r' → a = b ∧ r = r')
    (he : commaList (as.map f) ++ (close ++ r) = commaList (bs.map f) ++ (close ++ r')) :
    as = bs ∧ r = r' := by
  -- Behind an element the list is closed, or a comma follows.
  have hends (s : List Char) (h : (∃ t, s = close ++ t) ∨ ∃ t, s = [',', ' '] ++ t) : Ends s := by
    obtain ⟨t, rfl⟩ | ⟨t, rfl⟩ := h
    · exact hc t
    · exact .comma _
  have hfront (a : α) (as : List α) (r : List Char) : ∃ s, Ends s ∧
      commaList ((a :: as).map f) ++ (close ++ r) = f a ++ s := by
    cases as with
    | nil => exact ⟨close ++ r, hc r, by simp [commaList]⟩
    | cons b as => exact ⟨[',', ' '] ++ (commaList ((b :: as).map f) ++ (close ++ r)), .comma _,
        by simp [commaList]⟩
  have hnil : commaList (([] : List α).map f) = [] := rfl
  cases as with
  | nil =>
    cases bs with
    | nil => exact ⟨rfl, List.append_cancel_left he⟩
    | cons b bs =>
      obtain ⟨s, hs, hb⟩ := hfront b bs r'
      rw [hb, hnil] at he
      exact absurd he.symm (hf b (by simp) s _ hs)
  | cons a as =>
    cases bs with
    | nil =>
      obtain ⟨s, hs, ha⟩ := hfront a as r
      rw [ha, hnil] at he
      exact absurd he (hf a (by simp) s _ hs)
    | cons b bs =>
      have hclose (s : List Char) : ¬∃ t, [',', ' '] ++ s = close ++ t := not_exists.2 (hs s)
      obtain ⟨hl, hr⟩ := intercalate_inj (p := fun s => ∃ t, s = close ++ t) hclose
        (fun a ha b hb r r' hr hr' => h a ha b hb r r' (hends r hr) (hends r' hr'))
        (List.cons_ne_nil _ _) (List.cons_ne_nil _ _) ⟨r, rfl⟩ ⟨r', rfl⟩ he
      exact ⟨hl, List.append_cancel_left hr⟩

end Lists

/-! ### Parts -/

theorem labelled_inj {m m' : String} {o o' : Bool} (hm : IsTypeName m) (hm' : IsTypeName m')
    (h : Distinct a b) (hr : Ends r) (hr' : Ends r')
    (he : labelled m a o ++ r = labelled m' b o' ++ r') : m = m' ∧ a = b ∧ o = o' ∧ r = r' := by
  have hmark (t : TsType Empty) (o : Bool) (r : List Char) :
      Marked ((if o then ['?'] else []) ++ (':' :: ' ' :: t.chars ++ r)) := by
    cases o <;> exact marked_cons.2 (by decide)
  simp only [labelled, List.append_assoc] at he
  obtain ⟨hn, he⟩ := name_append_inj hm.unmarked hm'.unmarked (hmark a o r) (hmark b o' r') he
  cases o <;> cases o' <;> simp at he
  · obtain ⟨rfl, rfl⟩ := h r r' hr hr' he
    exact ⟨String.toList_inj.1 hn, rfl, rfl, rfl⟩
  · obtain ⟨rfl, rfl⟩ := h r r' hr hr' he
    exact ⟨String.toList_inj.1 hn, rfl, rfl, rfl⟩

theorem property_inj {p q : TsProperty Empty} (hp : IsTypeName p.name) (hq : IsTypeName q.name)
    (h : Distinct p.type q.type) (hr : Ends r) (hr' : Ends r')
    (he : p.chars ++ r = q.chars ++ r') : p = q ∧ r = r' := by
  obtain ⟨m, a, o, readonly⟩ := p
  obtain ⟨m', b, o', readonly'⟩ := q
  simp only [TsProperty.name, TsProperty.type] at hp hq h
  have hplain (m : String) (a : TsType Empty) (o : Bool) :
      (TsProperty.mk m a o false).chars = labelled m a o := rfl
  have hreadonly (m : String) (a : TsType Empty) (o : Bool) :
      (TsProperty.mk m a o true).chars = "readonly ".toList ++ labelled m a o := rfl
  have hlead (u : List Char) : leadOf ("readonly ".toList ++ u) = .word "readonly".toList := rfl
  cases readonly <;> cases readonly'
  · obtain ⟨rfl, rfl, rfl, rfl⟩ := labelled_inj hp hq h hr hr' he
    exact ⟨rfl, rfl⟩
  · have hl := congrArg leadOf he
    rw [hplain, hreadonly, List.append_assoc, hlead, leadOf_labelled hp] at hl
    cases hl
  · have hl := congrArg leadOf he
    rw [hplain, hreadonly, List.append_assoc, hlead, leadOf_labelled hq] at hl
    cases hl
  · rw [hreadonly, hreadonly, List.append_assoc, List.append_assoc] at he
    obtain ⟨rfl, rfl, rfl, rfl⟩ := labelled_inj hp hq h hr hr' (List.append_cancel_left he)
    exact ⟨rfl, rfl⟩

theorem param_inj {p q : TsParam Empty} (hp : IsTypeName p.name) (hq : IsTypeName q.name)
    (h : Distinct p.type q.type) (hr : Ends r) (hr' : Ends r')
    (he : p.chars ++ r = q.chars ++ r') : p = q ∧ r = r' := by
  obtain ⟨m, a, o⟩ := p
  obtain ⟨m', b, o'⟩ := q
  obtain ⟨rfl, rfl, rfl, rfl⟩ := labelled_inj hp hq h hr hr' he
  exact ⟨rfl, rfl⟩

theorem object_inj {ps qs : List (TsProperty Empty)} (hp : ∀ p ∈ ps, IsTypeName p.name)
    (hq : ∀ q ∈ qs, IsTypeName q.name) (h : ∀ p ∈ ps, ∀ q ∈ qs, Distinct p.type q.type)
    (he : (object ps).chars ++ r = (object qs).chars ++ r') : ps = qs ∧ r = r' := by
  have hf (p : TsProperty Empty) (hn : IsTypeName p.name) (s s' : List Char) :
      p.chars ++ s ≠ [' ', '}'] ++ s' := by
    obtain ⟨m, a, o, readonly⟩ := p
    intro h
    have hl := congrArg leadOf h
    cases readonly
    · exact absurd ((leadOf_labelled hn a o s).symm.trans hl) nofun
    · cases hl
  simp only [chars_object, List.cons_append, List.append_assoc, List.cons.injEq, true_and] at he
  refine commaList_inj [' ', '}'] Ends.brace (by simp) ?_ ?_ he
  · rintro p (h | h) s s' -
    · exact hf p (hp p h) s s'
    · exact hf p (hq p h) s s'
  · exact fun p hps q hqs r r' hr hr' => property_inj (hp p hps) (hq q hqs) (h p hps q hqs) hr hr'

theorem generic_inj {base base' : String} {ts us : List (TsType Empty)} (hn : IsTypeName base)
    (hn' : IsTypeName base') (ht : ∀ t ∈ ts, t.WellNamed) (hu : ∀ u ∈ us, u.WellNamed)
    (h : ∀ t ∈ ts, ∀ u ∈ us, Distinct t u)
    (he : (generic base ts).chars ++ r = (generic base' us).chars ++ r') :
    base = base' ∧ ts = us ∧ r = r' := by
  have hf (t : TsType Empty) (ht : t.WellNamed) (s s' : List Char) (hs : Ends s) :
      t.chars ++ s ≠ ['>'] ++ s' := by
    intro h
    have hl := leadOf_type ht (.inl hs) (n := 0) (.inr rfl)
    exact (lead_type ht).2 (hl.symm.trans (congrArg leadOf h))
  have hm (s : List Char) : Marked ('<' :: s) := marked_cons.2 (by decide)
  simp only [chars_generic, List.append_assoc, List.cons_append] at he
  obtain ⟨hb, he⟩ := name_append_inj hn.unmarked hn'.unmarked (hm _) (hm _) he
  obtain ⟨rfl, rfl⟩ := commaList_inj ['>'] Ends.angle (by simp)
    (fun t h => hf t (h.elim (ht t) (hu t))) h (List.cons.inj he).2
  exact ⟨String.toList_inj.1 hb, rfl, rfl⟩

theorem function_inj {ps qs : List (TsParam Empty)} (hp : ∀ p ∈ ps, IsTypeName p.name)
    (hq : ∀ q ∈ qs, IsTypeName q.name) (h : ∀ p ∈ ps, ∀ q ∈ qs, Distinct p.type q.type)
    (hab : Distinct a b) : Distinct (function ps a) (function qs b) := by
  have hf (p : TsParam Empty) (hn : IsTypeName p.name) (s s' : List Char) :
      p.chars ++ s ≠ [')'] ++ s' := by
    obtain ⟨m, a, o⟩ := p
    obtain ⟨c, t, ht, hc⟩ := labelled_cons hn a o
    intro h
    have h := (congrArg (· ++ s) ht).symm.trans h
    exact hc ((List.cons.inj h).1 ▸ by decide)
  have hc (ps : List (TsParam Empty)) (t : TsType Empty) (r : List Char) :
      (function ps t).chars ++ r = '(' :: (commaList (ps.map TsParam.chars) ++
        ([')'] ++ ([' ', '=', '>', ' '] ++ (t.chars ++ r)))) := by simp [chars_function]
  intro r r' hr hr' he
  rw [hc, hc] at he
  obtain ⟨rfl, hres⟩ := commaList_inj [')'] Ends.paren (by simp)
    (fun p h s s' _ => hf p (h.elim (hp p) (hq p)) s s')
    (fun p hps q hqs r r' hr hr' => param_inj (hp p hps) (hq q hqs) (h p hps q hqs) hr hr')
    (List.cons.inj he).2
  obtain ⟨rfl, rfl⟩ := hab r r' hr hr' (List.append_cancel_left hres)
  exact ⟨rfl, rfl⟩

/-! ### Types -/

/-- Smaller types are told apart. -/
def DistinctBelow (a b : TsType Empty) : Prop :=
  ∀ x y : TsType Empty, sizeOf x + sizeOf y < sizeOf a + sizeOf b → x.WellNamed → y.WellNamed →
    Distinct x y ∧ (x.isLoose = false → y.isLoose = false → DistinctMembers x y)

theorem DistinctBelow.symm (h : DistinctBelow a b) : DistinctBelow b a := fun x y hs hx hy =>
  h x y (by omega) hx hy

theorem sizeOf_argument {base : String} {ts : List (TsType Empty)} (h : t ∈ ts) :
    sizeOf t < sizeOf (generic base ts) := by
  have := List.sizeOf_lt_of_mem h
  simp only [generic.sizeOf_spec]
  omega

theorem sizeOf_property {p : TsProperty Empty} {ps : List (TsProperty Empty)} (h : p ∈ ps) :
    sizeOf p.type < sizeOf (object ps) := by
  have := List.sizeOf_lt_of_mem h
  obtain ⟨m, t, o, readonly⟩ := p
  simp only [TsProperty.type, TsProperty.mk.sizeOf_spec, object.sizeOf_spec] at *
  omega

theorem sizeOf_param {p : TsParam Empty} {ps : List (TsParam Empty)} (h : p ∈ ps) :
    sizeOf p.type < sizeOf (function ps t) := by
  have := List.sizeOf_lt_of_mem h
  obtain ⟨m, t, o⟩ := p
  simp only [TsParam.type, TsParam.mk.sizeOf_spec, function.sizeOf_spec] at *
  omega

/-- An array has one more pair of brackets than its element. -/
theorem DistinctBelow.array (h : DistinctBelow (array a) b) (ha : a.WellNamed) (hb : b.WellNamed)
    (hla : a.isLoose = false) (hlb : b.isLoose = false) : DistinctMembers (array a) b := by
  intro n n' r r' hr hr' he
  rw [chars_array hla, List.append_assoc] at he
  exact (h a b (by simp) ha hb).2 hla hlb (n + 1) n' r r' hr hr' he

/-- No array, or an array whose element is in brackets. -/
def IsCore (t : TsType Empty) : Prop :=
  t.isLoose = false ∧ ∀ e, t = array e → e.isLoose = true

theorem isCore_or_array (h : t.isLoose = false) :
    IsCore t ∨ ∃ e, t = array e ∧ e.isLoose = false := by
  cases t with
  | array e =>
    cases he : e.isLoose with
    | true => exact .inl ⟨h, fun _ h => (array.inj h) ▸ he⟩
    | false => exact .inr ⟨e, rfl, he⟩
  | _ => exact .inl ⟨h, nofun⟩

theorem core_inj (ha : a.WellNamed) (hb : b.WellNamed) (h : DistinctBelow a b) (hca : IsCore a)
    (hcb : IsCore b) : DistinctMembers a b := by
  intro n n' r r' hr hr' he
  have hl : a.lead = b.lead := by
    rw [← leadOf_type ha hr (.inl hca.1), he, leadOf_type hb hr' (.inl hcb.1)]
  have hword {m m' : String} (hm : IsTypeName m) (hm' : IsTypeName m')
      (he : m.toList ++ (brackets n ++ r) = m'.toList ++ (brackets n' ++ r')) :
      m = m' ∧ n = n' ∧ r = r' := by
    obtain ⟨hn, he⟩ := name_append_inj hm.unmarked hm'.unmarked (marked_brackets hr n)
      (marked_brackets hr' n') he
    exact ⟨String.toList_inj.1 hn, brackets_inj hr hr' he⟩
  have hbrackets {t : TsType Empty} (he : brackets n ++ r = brackets n' ++ r') :
      arrays n t = arrays n' t ∧ r = r' := by
    obtain ⟨rfl, rfl⟩ := brackets_inj hr hr' he
    exact ⟨rfl, rfl⟩
  cases ha with
  | union | function => cases hca.1
  | primitive p =>
    cases hb with
    | union | function => cases hcb.1
    | object | generic => cases hl
    | array => simp [lead, hcb.2 _ rfl] at hl
    | primitive q =>
      obtain ⟨hn, rfl, rfl⟩ := hword (isTypeName_primitive p) (isTypeName_primitive q) he
      obtain rfl : p = q := by revert hn; cases p <;> cases q <;> simp [Primitive.name]
      exact ⟨rfl, rfl⟩
    | reference _ hq => exact absurd (String.toList_inj.1 (Lead.word.inj hl)).symm (hq p)
  | reference hm hp =>
    cases hb with
    | union | function => cases hcb.1
    | object | generic => cases hl
    | array => simp [lead, hcb.2 _ rfl] at hl
    | primitive q => exact absurd (String.toList_inj.1 (Lead.word.inj hl)) (hp q)
    | reference hm' _ =>
      obtain ⟨rfl, rfl, rfl⟩ := hword hm hm' he
      exact ⟨rfl, rfl⟩
  | generic hm ht =>
    cases hb with
    | union | function => cases hcb.1
    | primitive | reference | object => cases hl
    | array => simp [lead, hcb.2 _ rfl] at hl
    | generic hm' hu =>
      obtain ⟨rfl, rfl, hr'⟩ := generic_inj hm hm' ht hu (fun t htm u hum => (h t u
        (Nat.add_lt_add (sizeOf_argument htm) (sizeOf_argument hum)) (ht t htm) (hu u hum)).1) he
      exact hbrackets hr'
  | object hm ht =>
    cases hb with
    | union | function => cases hcb.1
    | primitive | reference | generic => cases hl
    | array => simp [lead, hcb.2 _ rfl] at hl
    | object hm' hu =>
      obtain ⟨rfl, hr'⟩ := object_inj hm hm' (fun p hpm q hqm => (h p.type q.type
        (Nat.add_lt_add (sizeOf_property hpm) (sizeOf_property hqm)) (ht p hpm) (hu q hqm)).1) he
      exact hbrackets hr'
  | array ht =>
    cases hb with
    | union | function => cases hcb.1
    | primitive | reference | generic | object => simp [lead, hca.2 _ rfl] at hl
    | array hu =>
      rw [chars_array_loose (hca.2 _ rfl), chars_array_loose (hcb.2 _ rfl), List.cons_append,
        List.cons_append, List.append_assoc, List.append_assoc] at he
      obtain ⟨rfl, hs⟩ := (h _ _ (by simp; omega) ht hu).1 _ _ (.paren _) (.paren _)
        (List.cons.inj he).2
      exact hbrackets (by simpa using hs)

/-- What is no union and no function is told apart as soon as its parts are. -/
theorem distinctMembers (ha : a.WellNamed) (hb : b.WellNamed) (h : DistinctBelow a b)
    (hla : a.isLoose = false) (hlb : b.isLoose = false) : DistinctMembers a b := by
  obtain hca | ⟨e, rfl, he⟩ := isCore_or_array hla
  · obtain hcb | ⟨e, rfl, he⟩ := isCore_or_array hlb
    · exact core_inj ha hb h hca hcb
    · cases hb with
      | array hb => exact (h.symm.array hb ha he hla).symm
  · cases ha with
    | array ha => exact h.array ha hb he hlb

theorem sizeOf_member {ts : List (TsType Empty)} (h : t ∈ ts) : sizeOf t < sizeOf (union ts) := by
  have := List.sizeOf_lt_of_mem h
  simp only [union.sizeOf_spec]
  omega

/-- A bar stands behind the first member of a union. -/
theorem union_ne_member {ts : List (TsType Empty)} (ha : (union ts).WellNamed) (hb : b.WellNamed)
    (h : DistinctBelow (union ts) b) (hlb : b.isLoose = false) : Distinct (union ts) b := by
  intro r r' hr hr' he
  cases ha with
  | union h2 hm ht =>
    obtain ⟨t, us, w, rfl, hw⟩ := union_front h2
    have htm : t ∈ t :: us := List.mem_cons_self ..
    have hlt := sizeOf_member htm
    rw [hw, List.append_assoc, List.append_assoc] at he
    obtain ⟨-, rfl⟩ := (h t b (by omega) (ht t htm) hb).2 (hm t htm) hlb 0 0 _ _
      (.inr ⟨w ++ r, rfl⟩) (.inl hr') he
    exact absurd hr' (not_ends_bar _)

theorem union_inj {ts us : List (TsType Empty)} (ha : (union ts).WellNamed)
    (hb : (union us).WellNamed) (h : DistinctBelow (union ts) (union us)) :
    Distinct (union ts) (union us) := by
  intro r r' hr hr' he
  cases ha with
  | union h2 hm ht =>
    cases hb with
    | union h2' hm' hu =>
      rw [chars_union, chars_union] at he
      have hne {ts : List (TsType Empty)} (h : 2 ≤ ts.length) : ts ≠ [] := by
        rintro rfl
        simp at h
      obtain ⟨rfl, rfl⟩ := intercalate_inj (p := Ends) not_ends_bar
        (fun t htm u hum r r' hr hr' he => (h t u
          (Nat.add_lt_add (sizeOf_member htm) (sizeOf_member hum)) (ht t htm) (hu u hum)).2
            (hm t htm) (hm' u hum) 0 0 r r' hr hr' he) (hne h2) (hne h2') hr hr' he
      exact ⟨rfl, rfl⟩

/-- No other type starts as a function does. -/
theorem function_ne {ps : List (TsParam Empty)} (ha : (function ps a).WellNamed)
    (hb : b.WellNamed) (hf : ∀ qs result, b ≠ function qs result) : Distinct (function ps a) b := by
  intro r r' hr hr' he
  cases ha with
  | function hm _ _ =>
    rw [chars_function, List.cons_append] at he
    have hp := group_ne_params hb hf (.inl hr') (n := 0) (.inr rfl) he.symm
    rw [List.append_assoc, List.append_assoc] at hp
    exact absurd (leadOf_params hm _) hp

theorem DistinctMembers.distinct (h : DistinctMembers a b) : Distinct a b := fun r r' hr hr' he =>
  h 0 0 r r' (.inl hr) (.inl hr') he

theorem function_union_or_member (t : TsType Empty) :
    (∃ ps result, t = function ps result) ∨ (∃ ts, t = union ts) ∨ t.isLoose = false := by
  cases t with
  | function ps result => exact .inl ⟨ps, result, rfl⟩
  | union ts => exact .inr (.inl ⟨ts, rfl⟩)
  | _ => exact .inr (.inr rfl)

theorem distinct_of_below (ha : a.WellNamed) (hb : b.WellNamed) (h : DistinctBelow a b) :
    Distinct a b := by
  have hfun {t : TsType Empty} (hl : t.isLoose = false) (qs : List (TsParam Empty))
      (result : TsType Empty) : t ≠ function qs result := by
    rintro rfl
    cases hl
  obtain ⟨ps, res, rfl⟩ | ⟨ts, rfl⟩ | hla := function_union_or_member a
  · obtain ⟨qs, res', rfl⟩ | ⟨us, rfl⟩ | hlb := function_union_or_member b
    · cases ha with
      | function hp htp hr =>
        cases hb with
        | function hq htq hr' =>
          exact function_inj hp hq (fun p hpm q hqm => (h p.type q.type
            (Nat.add_lt_add (sizeOf_param hpm) (sizeOf_param hqm)) (htp p hpm) (htq q hqm)).1)
            (h res res' (by simp only [function.sizeOf_spec]; omega) hr hr').1
    · exact function_ne ha hb nofun
    · exact function_ne ha hb (hfun hlb)
  · obtain ⟨qs, res', rfl⟩ | ⟨us, rfl⟩ | hlb := function_union_or_member b
    · exact (function_ne hb ha nofun).symm
    · exact union_inj ha hb h
    · exact union_ne_member ha hb h hlb
  · obtain ⟨qs, res', rfl⟩ | ⟨us, rfl⟩ | hlb := function_union_or_member b
    · exact (function_ne hb ha (hfun hla)).symm
    · exact (union_ne_member hb ha h.symm hla).symm
    · exact (distinctMembers ha hb h hla hlb).distinct

/-- Induction on the sizes of both types together, for an array and its element are compared. -/
theorem distinct (ha : a.WellNamed) (hb : b.WellNamed) :
    Distinct a b ∧ (a.isLoose = false → b.isLoose = false → DistinctMembers a b) := by
  induction hn : sizeOf a + sizeOf b using Nat.strongRecOn generalizing a b with
  | ind n ih =>
    subst hn
    have h : DistinctBelow a b := fun x y hs hx hy => ih _ hs hx hy rfl
    exact ⟨distinct_of_below ha hb h, distinctMembers ha hb h⟩

/-- Well-formed types with the same text are the same type. -/
theorem text_unambiguous (ha : a.WellNamed) (hb : b.WellNamed) (h : a.text = b.text) : a = b := by
  have he : a.chars ++ [] = b.chars ++ [] := congrArg (fun text => text.toList ++ []) h
  exact ((distinct ha hb).1 [] [] .nil .nil he).1

/-- A function that takes an array of a union and gives an object, and that nothing else writes. -/
theorem text_unambiguous_function :
    let t : TsType Empty := function
      [.mk "keys" (array (union [generic "Map" [function [] (primitive .void), reference "Key"],
        primitive .null])) true]
      (object [.mk "id" (primitive .number) false true,
        .mk "next" (array (reference "Item")) true false])
    t.WellNamed ∧
      t.text = "(keys?: (Map<() => void, Key> | null)[]) => { readonly id: number, next?: Item[] }" ∧
      ∀ u : TsType Empty, u.WellNamed → u.text = t.text → u = t := by
  intro t
  have hname (name : String) (hn : name ∈ ["keys", "Map", "Key", "id", "next", "Item"]) :
      IsTypeName name := by
    simp only [List.mem_cons, List.not_mem_nil, or_false] at hn
    rcases hn with rfl | rfl | rfl | rfl | rfl | rfl
    all_goals exact isTypeName_of_word (by decide) (List.all_eq_true.1 (by decide))
  have href (name : String) (hn : name ∈ ["Key", "Item"]) :
      (reference name : TsType Empty).WellNamed := by
    simp only [List.mem_cons, List.not_mem_nil, or_false] at hn
    rcases hn with rfl | rfl
    all_goals exact .reference (hname _ (by decide)) fun p => by cases p <;> decide
  have hmap : (generic "Map" [function [] (primitive .void), reference "Key"] :
      TsType Empty).WellNamed := by
    refine .generic (hname _ (by decide)) ?_
    simp only [List.forall_mem_cons, List.not_mem_nil, false_implies, implies_true, and_true]
    exact ⟨.function nofun nofun (.primitive _), href _ (by decide)⟩
  have ht : t.WellNamed := by
    refine .function ?_ ?_ (.object ?_ ?_)
    all_goals
      simp only [List.forall_mem_cons, List.not_mem_nil, false_implies, implies_true, and_true]
    · exact hname _ (by decide)
    · refine .array (.union (by decide) ?_ ?_)
      all_goals
        simp only [List.forall_mem_cons, List.not_mem_nil, false_implies, implies_true, and_true]
      · exact ⟨rfl, rfl⟩
      · exact ⟨hmap, .primitive _⟩
    · exact ⟨hname _ (by decide), hname _ (by decide)⟩
    · exact ⟨.primitive _, .array (href _ (by decide))⟩
  exact ⟨ht, by decide, fun u hu h => text_unambiguous hu ht h⟩

end TsType

end Ferrotype
