import Ferrotype.Proofs.Schema.TypeText

/-!
# How the text of a type starts

Where a name ends is seen from the mark behind it. So the front of a text tells what kind of type
stands there, whatever comes behind the type.
-/

namespace Ferrotype

/-! ## Names -/

/-- The characters that types are written with, names apart. -/
def typeMarks : List Char :=
  [' ', ',', ':', '?', '=', '|', '<', '>', '(', ')', '[', ']', '{', '}']

/-- A text in which no mark of a type stands. Identifiers of every script are such names. -/
structure IsTypeName (name : String) : Prop where
  filled : name ≠ ""
  unmarked : ∀ c ∈ name.toList, c ∉ typeMarks

/-- The text ends, or goes on with a mark. -/
def Marked (s : List Char) : Prop := ∀ c ∈ s.head?, c ∈ typeMarks

@[simp] theorem marked_nil : Marked [] := nofun

@[simp] theorem marked_cons {c : Char} {s : List Char} : Marked (c :: s) ↔ c ∈ typeMarks := by
  simp [Marked]

/-- Where a name ends is seen from what comes behind it. -/
theorem takeWhile_name {s u : List Char} (hs : ∀ c ∈ s, c ∉ typeMarks) (hu : Marked u) :
    (s ++ u).takeWhile (· ∉ typeMarks) = s ∧ (s ++ u).dropWhile (· ∉ typeMarks) = u := by
  have ht : (s ++ u).takeWhile (· ∉ typeMarks) = s := by
    rw [List.takeWhile_append_of_pos (by simpa using hs)]
    cases u with
    | nil => simp
    | cons c u => simp_all
  have h := List.takeWhile_append_dropWhile (p := fun c => decide (c ∉ typeMarks)) (l := s ++ u)
  rw [ht] at h
  exact ⟨ht, List.append_cancel_left h⟩

theorem name_append_inj {s t u v : List Char} (hs : ∀ c ∈ s, c ∉ typeMarks)
    (ht : ∀ c ∈ t, c ∉ typeMarks) (hu : Marked u) (hv : Marked v) (h : s ++ u = t ++ v) :
    s = t ∧ u = v := by
  obtain ⟨hsu, hu⟩ := takeWhile_name hs hu
  obtain ⟨htv, hv⟩ := takeWhile_name ht hv
  rw [← h] at htv hv
  exact ⟨hsu.symm.trans htv, hu.symm.trans hv⟩

theorem IsTypeName.cons {name : String} (h : IsTypeName name) :
    ∃ c s, name.toList = c :: s ∧ c ∉ typeMarks := by
  cases hs : name.toList with
  | nil => exact absurd (String.toList_inj.1 hs) h.filled
  | cons c s => exact ⟨c, s, rfl, h.unmarked c (by simp [hs])⟩

theorem isTypeName_primitive (p : Primitive) : IsTypeName p.name := by
  have hm : (p.name.toList.all fun c => decide (c ∉ typeMarks)) = true := by cases p <;> decide
  exact ⟨by cases p <;> decide, fun c hc => of_decide_eq_true (List.all_eq_true.1 hm c hc)⟩

/-- Words of a source text are names. -/
theorem isTypeName_of_word {name : String} (hn : name ≠ "")
    (hw : ∀ c ∈ name.toList, Text.isWordPart c = true) : IsTypeName name := by
  have hm : (typeMarks.all fun c => !Text.isWordPart c) = true := by decide
  refine ⟨hn, fun c hc h => ?_⟩
  simpa [hw c hc] using List.all_eq_true.1 hm c h

/-! ## Well-formed types -/

/--
Names are names, a reference has not the name of a primitive type, and a union has members that
need no brackets, at least two.
-/
inductive TsType.WellNamed {ρ : Type} : TsType ρ → Prop where
  | primitive (p : Primitive) : WellNamed (.primitive p)
  | array {t : TsType ρ} (ht : WellNamed t) : WellNamed (.array t)
  | object {ps : List (TsProperty ρ)} (hn : ∀ p ∈ ps, IsTypeName p.name)
    (ht : ∀ p ∈ ps, WellNamed p.type) : WellNamed (.object ps)
  | union {ts : List (TsType ρ)} (hl : 2 ≤ ts.length) (hm : ∀ t ∈ ts, t.isLoose = false)
    (ht : ∀ t ∈ ts, WellNamed t) : WellNamed (.union ts)
  | reference {name : String} (hn : IsTypeName name) (hp : ∀ p : Primitive, name ≠ p.name) :
    WellNamed (.reference name)
  | function {ps : List (TsParam ρ)} {result : TsType ρ} (hn : ∀ p ∈ ps, IsTypeName p.name)
    (ht : ∀ p ∈ ps, WellNamed p.type) (hr : WellNamed result) : WellNamed (.function ps result)
  | generic {base : String} {ts : List (TsType ρ)} (hn : IsTypeName base)
    (ht : ∀ t ∈ ts, WellNamed t) : WellNamed (.generic base ts)

namespace TsType

variable {a b t : TsType Empty} {n n' : Nat} {r r' s u : List Char}

/-! ## What stands behind a type -/

/-- Nothing, a comma or a closing bracket. A closing brace has a blank before it. -/
inductive Ends : List Char → Prop where
  | nil : Ends []
  | comma (s : List Char) : Ends (',' :: s)
  | paren (s : List Char) : Ends (')' :: s)
  | angle (s : List Char) : Ends ('>' :: s)
  | brace (s : List Char) : Ends (' ' :: '}' :: s)

/-- Behind a member of a union another one may stand. -/
def MemberEnds (s : List Char) : Prop := Ends s ∨ ∃ t, s = [' ', '|', ' '] ++ t

theorem not_ends_bar (s : List Char) : ¬ Ends ([' ', '|', ' '] ++ s) := nofun

/-- No name goes on behind a type, and nothing opens that would belong to it. -/
theorem MemberEnds.head (h : MemberEnds r) :
    r = [] ∨ ∃ c s, r = c :: s ∧ c ∈ typeMarks ∧ c ∉ ['[', '<', ':', '?'] := by
  rcases h with h | ⟨s, rfl⟩
  · cases h
    · exact .inl rfl
    all_goals exact .inr ⟨_, _, rfl, by decide⟩
  · exact .inr ⟨_, _, rfl, by decide⟩

/-- Closed pairs of brackets, one for each array. -/
def brackets (n : Nat) : List Char := (List.replicate n ['[', ']']).flatten

theorem brackets_succ (n : Nat) : brackets (n + 1) = '[' :: ']' :: brackets n := rfl

theorem head_brackets (h : MemberEnds r) (n : Nat) : brackets n ++ r = [] ∨
    ∃ c s, brackets n ++ r = c :: s ∧ c ∈ typeMarks ∧ c ∉ ['<', ':', '?'] := by
  cases n with
  | zero =>
    obtain rfl | ⟨c, s, rfl, hc, hn⟩ := h.head
    · exact .inl rfl
    · exact .inr ⟨c, s, rfl, hc, by simp_all⟩
  | succ n => exact .inr ⟨'[', ']' :: (brackets n ++ r), rfl, by decide⟩

theorem marked_brackets (h : MemberEnds r) (n : Nat) : Marked (brackets n ++ r) := by
  obtain hn | ⟨c, s, hs, hc, -⟩ := head_brackets h n
  · simp [hn]
  · simp [hs, hc]

theorem brackets_inj (hr : MemberEnds r) (hr' : MemberEnds r')
    (h : brackets n ++ r = brackets n' ++ r') : n = n' ∧ r = r' := by
  have hb {r : List Char} (hr : MemberEnds r) (n : Nat) (s : List Char) :
      r ≠ brackets (n + 1) ++ s := by
    rintro rfl
    obtain h | ⟨c, s, h, -, hc⟩ := hr.head
    · cases h
    · simp [← (List.cons.inj h).1] at hc
  induction n generalizing n' with
  | zero =>
    cases n' with
    | zero => exact ⟨rfl, h⟩
    | succ n' => exact absurd h (hb hr n' r')
  | succ n ih =>
    cases n' with
    | zero => exact absurd h.symm (hb hr' n r)
    | succ n' =>
      simp only [brackets_succ, List.cons_append, List.cons.injEq, true_and] at h
      obtain ⟨rfl, rfl⟩ := ih h
      exact ⟨rfl, rfl⟩

/-! ## What a text starts with -/

/-- The front of a text: a word, a word before arguments, an opening bracket, or parameters. -/
inductive Lead where
  | word (name : List Char)
  | generic (base : List Char)
  | brace
  | group
  | params

def leadOf (s : List Char) : Lead :=
  match s.takeWhile (· ∉ typeMarks), s.dropWhile (· ∉ typeMarks) with
  | [], '{' :: _ => .brace
  | [], '(' :: _ => .group
  | [], ')' :: _ => .params
  | _, ':' :: _ => .params
  | _, '?' :: _ => .params
  | name, '<' :: _ => .generic name
  | name, _ => .word name

/-- How the text of a type starts. -/
def lead : TsType Empty → Lead
  | primitive p => .word p.name.toList
  | reference name => .word name.toList
  | generic base _ => .generic base.toList
  | object _ => .brace
  | array t => if t.isLoose then .group else t.lead
  | union (t :: _) => t.lead
  | union [] => .word []
  | function _ _ => .group
  | foreign value => nomatch value

theorem leadOf_word {name : String} (h : IsTypeName name) (hr : MemberEnds r) (n : Nat) :
    leadOf (name.toList ++ (brackets n ++ r)) = .word name.toList := by
  obtain ⟨c, s, hs, -⟩ := h.cons
  obtain ⟨ht, hd⟩ := takeWhile_name h.unmarked (marked_brackets hr n)
  unfold leadOf
  rw [ht, hd, hs]
  obtain hn | ⟨d, u, hu, -, hd⟩ := head_brackets hr n
  · simp [hn]
  · simp only [List.mem_cons, List.not_mem_nil, or_false, not_or] at hd
    simp [hu, hd]

theorem leadOf_generic {name : String} (h : IsTypeName name) (u : List Char) :
    leadOf (name.toList ++ '<' :: u) = .generic name.toList := by
  have hm : Marked ('<' :: u) := marked_cons.2 (by decide)
  obtain ⟨ht, hd⟩ := takeWhile_name h.unmarked hm
  unfold leadOf
  rw [ht, hd]
  simp

/-- A union starts with its first member. -/
theorem union_front {ts : List (TsType Empty)} (h : 2 ≤ ts.length) :
    ∃ t us w, ts = t :: us ∧ (union ts).chars = t.chars ++ ([' ', '|', ' '] ++ w) := by
  match ts, h with
  | t :: u :: us, _ =>
    refine ⟨t, u :: us, [' ', '|', ' '].intercalate ((u :: us).map chars), rfl, ?_⟩
    simp [chars_union]

theorem leadOf_type (h : t.WellNamed) (hr : MemberEnds r) (hn : t.isLoose = false ∨ n = 0) :
    leadOf (t.chars ++ (brackets n ++ r)) = t.lead := by
  induction h generalizing n r with
  | primitive p => exact leadOf_word (isTypeName_primitive p) hr n
  | reference h _ => exact leadOf_word h hr n
  | generic h _ _ =>
    rw [chars_generic, List.append_assoc]
    exact leadOf_generic h _
  | object _ _ _ =>
    rw [chars_object]
    rfl
  | function _ _ _ _ _ =>
    rw [chars_function]
    rfl
  | @array t ht ih =>
    rw [lead]
    cases hl : t.isLoose with
    | true =>
      rw [chars_array_loose hl]
      rfl
    | false =>
      rw [chars_array hl, List.append_assoc]
      exact ih (n := n + 1) hr (.inl hl)
  | union h2 hm _ ih =>
    obtain ⟨t, us, w, rfl, hw⟩ := union_front h2
    have ht := ih t (List.mem_cons_self ..) (n := 0) (.inr ⟨w ++ (brackets n ++ r), rfl⟩) (.inr rfl)
    rw [hw, List.append_assoc, List.append_assoc]
    exact ht

/-- A type starts with a word or a bracket that opens. -/
theorem lead_type (h : t.WellNamed) : t.lead ≠ .params ∧ t.lead ≠ .word [] := by
  have hw {name : String} (h : IsTypeName name) : Lead.word name.toList ≠ .word [] := by
    rintro h'
    exact h.filled (String.toList_inj.1 (Lead.word.inj h'))
  induction h with
  | primitive p => exact ⟨nofun, hw (isTypeName_primitive p)⟩
  | reference hn _ => exact ⟨nofun, hw hn⟩
  | generic | object | function => exact ⟨nofun, nofun⟩
  | @array t ht ih =>
    rw [lead]
    split
    · exact ⟨nofun, nofun⟩
    · exact ih
  | union h2 hm _ ih =>
    obtain ⟨t, us, w, rfl, -⟩ := union_front h2
    exact ih t (List.mem_cons_self ..)

/-! ## Parameters -/

theorem labelled_cons {name : String} (h : IsTypeName name) (t : TsType Empty) (optional : Bool) :
    ∃ c s, labelled name t optional = c :: s ∧ c ∉ typeMarks := by
  obtain ⟨c, s, hs, hc⟩ := h.cons
  exact ⟨c, _, by rw [labelled, hs]; rfl, hc⟩

theorem leadOf_labelled {name : String} (h : IsTypeName name) (t : TsType Empty) (optional : Bool)
    (u : List Char) : leadOf (labelled name t optional ++ u) = .params := by
  have hm : Marked ((if optional then ['?'] else []) ++ ':' :: ' ' :: t.chars ++ u) := by
    cases optional <;> exact marked_cons.2 (by decide)
  obtain ⟨ht, hd⟩ := takeWhile_name h.unmarked hm
  rw [labelled, List.append_assoc]
  unfold leadOf
  rw [ht, hd]
  cases optional <;> simp

/-- Behind the bracket of a function stand parameters. -/
theorem leadOf_params {ps : List (TsParam Empty)} (h : ∀ p ∈ ps, IsTypeName p.name)
    (u : List Char) : leadOf (commaList (ps.map TsParam.chars) ++ ')' :: u) = .params := by
  cases ps with
  | nil => rfl
  | cons p ps =>
    obtain ⟨name, t, optional⟩ := p
    have hp := leadOf_labelled (h _ (List.mem_cons_self ..)) t optional
    cases ps with
    | nil => simpa [commaList, TsParam.chars, TsParam.name] using hp (')' :: u)
    | cons q ps =>
      simpa [commaList, TsParam.chars, TsParam.name] using hp _

/-- Behind the bracket that opens any other type stands a type. -/
theorem group_ne_params (h : t.WellNamed) (hf : ∀ ps result, t ≠ function ps result)
    (hr : MemberEnds r) (hn : t.isLoose = false ∨ n = 0)
    (hu : t.chars ++ (brackets n ++ r) = '(' :: u) : leadOf u ≠ .params := by
  have hg : t.lead = .group := by
    rw [← leadOf_type h hr hn, hu]
    rfl
  induction h generalizing n r with
  | primitive | reference | generic | object => cases hg
  | function _ _ _ _ _ => exact absurd rfl (hf _ _)
  | @array t ht ih =>
    cases hl : t.isLoose with
    | true =>
      rw [chars_array_loose hl, List.cons_append, List.append_assoc] at hu
      have hp := leadOf_type ht (.inl (.paren ('[' :: ']' :: (brackets n ++ r)))) (n := 0)
        (.inr rfl)
      rw [← (List.cons.inj hu).2]
      exact hp ▸ (lead_type ht).1
    | false =>
      rw [chars_array hl, List.append_assoc] at hu
      rw [lead, hl] at hg
      exact ih (n := n + 1) (by rintro _ _ rfl; cases hl) hr (.inl hl) hu hg
  | union h2 hm _ ih =>
    obtain ⟨t, us, w, rfl, hw⟩ := union_front h2
    rw [hw, List.append_assoc, List.append_assoc] at hu
    have hl := hm t (List.mem_cons_self ..)
    exact ih t (List.mem_cons_self ..) (n := 0) (by rintro _ _ rfl; cases hl)
      (.inr ⟨w ++ (brackets n ++ r), rfl⟩) (.inr rfl) hu hg

end TsType

end Ferrotype
