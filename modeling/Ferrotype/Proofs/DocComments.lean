import Ferrotype.Output.Declaration
import Ferrotype.Proofs.Text.Newlines
import Mathlib.Data.List.DropRight

/-!
# Doc comments stay what they are

A doc comment of the output is closed by its last line and by nothing else, and each of its lines
is one line. So whatever a doc says, none of it is read as code.
-/

namespace Ferrotype.Output

open Text

variable {c : Char} {s t line : List Char}

/-! ## Texts that close no comment -/

/-- A comment that is open in front of the text is open behind it. -/
def StaysOpen (s : List Char) : Prop := ¬ ['*', '/'] <:+: s

instance (s : List Char) : Decidable (StaysOpen s) :=
  inferInstanceAs (Decidable (¬ ['*', '/'] <:+: s))

theorem staysOpen_nil : StaysOpen [] := by decide

theorem staysOpen_cons : StaysOpen (c :: s) ↔ (c = '*' → s.head? ≠ some '/') ∧ StaysOpen s := by
  unfold StaysOpen
  rw [List.infix_cons_iff, List.cons_prefix_cons, not_or]
  cases s with
  | nil => simp
  | cons d s => simp [eq_comm]

theorem StaysOpen.of_within (ht : StaysOpen t) (h : s <:+: t) : StaysOpen s :=
  fun hs => ht (hs.trans h)

/-- Two texts do not close a comment together, unless they do so where they meet. -/
theorem StaysOpen.append (hs : StaysOpen s) (ht : StaysOpen t) (h : t.head? ≠ some '/') :
    StaysOpen (s ++ t) := by
  induction s with
  | nil => exact ht
  | cons c s ih =>
    rw [staysOpen_cons] at hs
    rw [List.cons_append, staysOpen_cons]
    refine ⟨fun hc => ?_, ih hs.2⟩
    cases s with
    | nil => exact h
    | cons d s => exact hs.1 hc

theorem staysOpen_guardCloser (s : List Char) : StaysOpen (guardCloser s) := by
  fun_induction guardCloser s with
  | case1 => exact staysOpen_nil
  | case2 s ih => simp [staysOpen_cons, ih]
  | case3 c s hs ih =>
    rw [staysOpen_cons, head?_guardCloser]
    refine ⟨fun hc h => ?_, ih⟩
    obtain ⟨t, rfl⟩ := List.head?_eq_some_iff.1 h
    exact hs t hc rfl

/-! ## Lines -/

/-- One line, which closes no comment. -/
structure Harmless (line : List Char) : Prop where
  staysOpen : StaysOpen line
  oneLine : ∀ c ∈ line, isLineBreak c = false

instance (line : List Char) : Decidable (Harmless line) :=
  decidable_of_iff (StaysOpen line ∧ (line.all fun c => !isLineBreak c) = true)
    ⟨fun h => ⟨h.1, by simpa using h.2⟩, fun h => ⟨h.1, by simpa using h.2⟩⟩

theorem Harmless.of_within (ht : Harmless t) (h : s <:+: t) : Harmless s :=
  ⟨ht.staysOpen.of_within h, fun c hc => ht.oneLine c (h.subset hc)⟩

theorem Harmless.cons (hs : Harmless s) (hb : isLineBreak c = false)
    (hc : c = '*' → s.head? ≠ some '/') : Harmless (c :: s) :=
  ⟨staysOpen_cons.2 ⟨hc, hs.staysOpen⟩, List.forall_mem_cons.2 ⟨hb, hs.oneLine⟩⟩

theorem Harmless.indented (ht : Harmless t) (n : Nat) : Harmless (List.replicate n ' ' ++ t) := by
  induction n with
  | zero => exact ht
  | succ n ih => exact ih.cons (by decide) (by simp)

theorem splitLines_oneLine (s : List Char) :
    ∀ line ∈ splitLines s, ∀ c ∈ line, isLineBreak c = false := by
  fun_induction splitLines s with
  | case1 => simp
  | case2 s ih => simpa using ih
  | case3 c s _ hc ih => simpa using ih
  | case4 c s _ hc hs ih => simpa using hc
  | case5 c s _ hc first later hs ih =>
    rw [hs, List.forall_mem_cons] at ih
    rw [List.forall_mem_cons, List.forall_mem_cons]
    exact ⟨⟨by simpa using hc, ih.1⟩, ih.2⟩

/-- The first line stands at the start of the text, and the others somewhere in it. -/
theorem splitLines_within (s : List Char) :
    (∀ line ∈ (splitLines s).head?, line <+: s) ∧ ∀ line ∈ splitLines s, line <:+: s := by
  fun_induction splitLines s with
  | case1 => simp
  | case2 s ih =>
    simp only [List.head?_cons, Option.mem_def, Option.some.injEq, forall_eq', List.nil_prefix,
      List.forall_mem_cons, List.nil_infix, true_and]
    exact fun line h => List.infix_cons (List.infix_cons (ih.2 line h))
  | case3 c s _ hc ih =>
    simp only [List.head?_cons, Option.mem_def, Option.some.injEq, forall_eq', List.nil_prefix,
      List.forall_mem_cons, List.nil_infix, true_and]
    exact fun line h => List.infix_cons (ih.2 line h)
  | case4 c s _ hc hs ih =>
    have hp : [c] <+: c :: s := List.prefix_append [c] s
    simp [hp, hp.isInfix]
  | case5 c s _ hc first later hs ih =>
    rw [hs] at ih
    have hf : c :: first <+: c :: s := List.cons_prefix_cons.2 ⟨rfl, ih.1 first rfl⟩
    refine ⟨fun line h => Option.some.inj h ▸ hf, ?_⟩
    rw [List.forall_mem_cons]
    exact ⟨hf.isInfix, fun line h => List.infix_cons (ih.2 line (List.mem_cons_of_mem _ h))⟩

theorem trim_within (s : List Char) : trim s <:+: s :=
  (List.rdropWhile_prefix (p := isBlank) (l := s.dropWhile isBlank)).isInfix.trans
    (List.dropWhile_suffix _).isInfix

theorem dropStar_within (s : List Char) : dropStar s <:+: s := by
  unfold dropStar
  split
  · exact List.infix_cons (trim_within _)
  · exact List.infix_rfl

/-- What is written of a doc is taken from lines of it in which nothing closes a comment. -/
theorem docTexts_harmless (doc : List Char) : ∀ text ∈ docTexts doc, Harmless text := by
  have hl : ∀ text ∈ (splitLines (guardCloser doc)).map trim, Harmless text := by
    intro text ht
    obtain ⟨line, hm, rfl⟩ := List.mem_map.1 ht
    have hi := (splitLines_within _).2 line hm
    have : Harmless line :=
      ⟨(staysOpen_guardCloser doc).of_within hi, splitLines_oneLine _ line hm⟩
    exact this.of_within (trim_within line)
  unfold docTexts
  split
  · simp
  · next first later hs =>
    rw [hs, List.forall_mem_cons] at hl
    rw [List.forall_mem_cons, List.forall_mem_map]
    exact ⟨hl.1, fun text ht => (hl.2 text ht).of_within (dropStar_within text)⟩

theorem harmless_docLine (ht : Harmless t) (n : Nat) :
    Harmless (docLine (List.replicate n ' ') t) := by
  unfold docLine
  split
  · have hs : Harmless [' ', '*'] := by decide
    exact hs.indented n
  · have hs : Harmless (' ' :: '*' :: ' ' :: t) :=
      ((ht.cons (by decide) (by simp)).cons (by decide) (by simp)).cons (by decide) (by simp)
    rw [List.append_assoc]
    exact hs.indented n

/-! ## Whole comments -/

/-- The blanks in front of each line at a level of indentation. -/
def margin (level : Nat) : String := String.join (List.replicate level indent)

theorem toList_margin (level : Nat) : (margin level).toList = List.replicate (4 * level) ' ' := by
  unfold margin
  induction level with
  | zero => rfl
  | succ level ih =>
    rw [List.replicate_succ', String.join_append, String.toList_append, ih, Nat.mul_succ,
      ← List.replicate_append_replicate]
    rfl

theorem harmless_margin {text : String} (ht : Harmless text.toList) (level : Nat) :
    Harmless (margin level ++ text).toList := by
  rw [String.toList_append, toList_margin]
  exact ht.indented _

theorem docLine_margin (level : Nat) (text : List Char) :
    ∃ rest, String.ofList (docLine (List.replicate (4 * level) ' ') text) =
      margin level ++ " *" ++ rest := by
  rw [← toList_margin, docLine]
  split
  · exact ⟨"", by simp [String.ofList_append]⟩
  · refine ⟨" " ++ String.ofList text, ?_⟩
    simp only [String.ofList_append, String.ofList_toList, String.append_assoc]
    rfl

/-- Between its first and its last line a doc comment has the texts of its doc. -/
theorem docLines_eq (level : Nat) {text : String} (h : text ≠ "") :
    docLines level (some text) =
      (margin level ++ "/**") ::
        (docTexts text.toList).map
          (fun t => String.ofList (docLine (List.replicate (4 * level) ' ') t)) ++
        [margin level ++ " */"] := by
  have hm : String.ofList (List.replicate (4 * level) ' ') = margin level := by
    rw [← toList_margin, String.ofList_toList]
  have hn : text.toList ≠ [] := fun hn => h (String.toList_eq_nil_iff.1 hn)
  rw [docLines, Option.map_some, docBlock]
  · simp [← hm, String.ofList_append]
  · exact hn

theorem staysOpen_unlines {lines : List String} (h : ∀ line ∈ lines, StaysOpen line.toList) :
    StaysOpen (unlines lines).toList := by
  unfold unlines
  induction lines with
  | nil => exact staysOpen_nil
  | cons line lines ih =>
    rw [List.forall_mem_cons] at h
    cases lines with
    | nil => simpa using h.1
    | cons line' lines =>
      have hl : ("\n".intercalate (line :: line' :: lines)).toList =
          line.toList ++ '\n' :: ("\n".intercalate (line' :: lines)).toList := by simp
      rw [hl]
      exact h.1.append (staysOpen_cons.2 ⟨by simp, ih h.2⟩) (by simp)

/-- A text that closes no comment and the marks behind it close one at their end only. -/
theorem StaysOpen.closed_once (hs : StaysOpen s) {before after : List Char} :
    before ++ ['*', '/'] ++ after = s ++ ['*', '/'] ↔ before = s ∧ after = [] := by
  constructor
  · intro h
    induction after using List.reverseRecOn with
    | nil => simpa using h
    | append_singleton after c _ =>
      -- Otherwise the marks stand in `s` and the star behind it.
      have hc : s ++ ['*', '/'] = (s ++ ['*']) ++ ['/'] := by simp
      rw [hc, ← List.append_assoc] at h
      obtain ⟨h, -⟩ := List.append_inj' h rfl
      have ho : StaysOpen (s ++ ['*']) := hs.append (by decide) (by simp)
      exact absurd ⟨before, after, h⟩ ho
  · rintro ⟨rfl, rfl⟩
    simp

/-- The last line closes the comment that the lines before it leave open. -/
theorem unlines_closed_once {lines : List String} {last : String}
    (h : ∀ line ∈ lines ++ [last], StaysOpen line.toList) {before after : String} :
    before ++ "*/" ++ after = unlines (lines ++ [last ++ "*/"]) ↔
      before = unlines (lines ++ [last]) ∧ after = "" := by
  have hl : unlines (lines ++ [last ++ "*/"]) = unlines (lines ++ [last]) ++ "*/" := by
    unfold unlines
    cases lines with
    | nil => simp
    | cons line lines =>
      rw [String.intercalate_append_of_ne_nil (by simp) (by simp),
        String.intercalate_append_of_ne_nil (by simp) (by simp)]
      simp [String.append_assoc]
  rw [hl, ← String.toList_inj, ← String.toList_inj, ← String.toList_eq_nil_iff]
  simp only [String.toList_append]
  exact (staysOpen_unlines h).closed_once

/--
No doc, or an empty one, has no lines. Any other one has a first line that opens a comment, lines
with a star, and a last line that closes the comment. None of them has a line break in it, and the
marks that close a comment stand in them once, at the very end.
-/
theorem docLines_closed (level : Nat) :
    docLines level none = [] ∧ docLines level (some "") = [] ∧
    ∀ text : String, text ≠ "" → ∃ lines : List String,
      docLines level (some text) = (margin level ++ "/**") :: lines ++ [margin level ++ " */"] ∧
      (∀ line ∈ lines, ∃ rest, line = margin level ++ " *" ++ rest) ∧
      (∀ line ∈ docLines level (some text), ∀ c ∈ line.toList, isLineBreak c = false) ∧
      ∃ body, ∀ before after, before ++ "*/" ++ after = unlines (docLines level (some text)) ↔
        before = body ∧ after = "" := by
  refine ⟨rfl, rfl, fun text h => ?_⟩
  rw [docLines_eq level h]
  set lines := (docTexts text.toList).map fun t =>
    String.ofList (docLine (List.replicate (4 * level) ' ') t) with hl
  have hopen : ∀ line ∈ (margin level ++ "/**") :: lines, Harmless line.toList := by
    rw [List.forall_mem_cons, hl, List.forall_mem_map]
    refine ⟨harmless_margin (by decide) level, ?_⟩
    intro t ht
    rw [String.toList_ofList]
    exact harmless_docLine (docTexts_harmless _ t ht) _
  refine ⟨lines, rfl, ?_, ?_, ?_⟩
  · rw [hl, List.forall_mem_map]
    exact fun t _ => docLine_margin level t
  · have hstar : Harmless (margin level ++ " *").toList := harmless_margin (by decide) level
    have hclose : (margin level ++ " */").toList = (margin level ++ " *").toList ++ ['/'] := by
      simp
    rw [List.forall_mem_append, List.forall_mem_singleton, hclose, List.forall_mem_append]
    exact ⟨fun line hm => (hopen line hm).oneLine, hstar.oneLine,
      List.forall_mem_singleton.2 (by decide)⟩
  · have hspace : Harmless (margin level ++ " ").toList := harmless_margin (by decide) level
    have hlast : margin level ++ " */" = margin level ++ " " ++ "*/" := by
      rw [String.append_assoc]
      rfl
    rw [hlast]
    refine ⟨_, fun before after => unlines_closed_once ?_⟩
    rw [List.forall_mem_append, List.forall_mem_singleton]
    exact ⟨fun line hm => (hopen line hm).staysOpen, hspace.staysOpen⟩

/-- A doc that would close the comment in three ways if its text were written as it is. -/
theorem docLines_closed_marks :
    let text := "a */ b\r\n *//\u2028* c **/"
    text ≠ "" ∧
    docLines 1 (some text) =
      ["    /**", "     * a *\\/ b", "     * \\//", "     * c **\\/", "     */"] ∧
    ∃ body, ∀ before after, before ++ "*/" ++ after = unlines (docLines 1 (some text)) ↔
      before = body ∧ after = "" := by
  intro text
  have ht : text ≠ "" := by decide
  obtain ⟨-, -, -, -, hb⟩ := (docLines_closed 1).2.2 text ht
  exact ⟨ht, by decide, hb⟩

end Ferrotype.Output
