import Ferrotype.Proofs.Grammar.TypeParts

/-!
# Path types are read

Segments are read from their words, with the `::` between them, and so are paths of them. A path
is no macro call, since no exclamation mark stands behind its words.
-/

namespace Ferrotype

namespace Grammar

open Rule

variable {R : Rules} {ts us rest : List Token} {t : Ty} {s : Segment} {k : Token}

/-! ## Segments -/

theorem pathContinues_word {c : Token} (hc : c.kind = .punct .colonColon)
    (hk : k.kind.isPathWord = true) (ts : List Token) : pathContinues (c :: k :: ts) = true := by
  simp [pathContinues, hc, hk]

/-- What may stand behind a segment: a further one, unless it ends in a type, or what may be behind one. -/
def SegmentEnd (s : Segment) (ts : List Token) : Prop :=
  TypeDone ts ∨ s.hasOutput = false ∧ pathContinues ts = true

theorem SegmentEnd.headIs (h : SegmentEnd s ts) {kind : Kind} (hk : kind.extendsType = true)
    (hc : kind ≠ .punct .colonColon) : headIs kind ts = false := by
  obtain h | ⟨-, h⟩ := h
  · exact h.headIs hk
  · match ts with
    | [] => rfl
    | [_] => cases h
    | c :: w :: ts =>
      have hcc : c.kind = .punct .colonColon := by
        simp only [pathContinues, Bool.and_eq_true, beq_iff_eq] at h
        exact h.1
      refine beq_eq_false_iff_ne.2 ?_
      rintro rfl
      exact hc hcc

theorem SegmentEnd.turbofish (h : SegmentEnd s ts) : startsTurbofish ts = false := by
  obtain h | ⟨-, h⟩ := h
  · exact h.pathDone.turbofish
  · match ts with
    | [] | [_] => rfl
    | c :: w :: ts =>
      simp only [pathContinues, Bool.and_eq_true] at h
      have hw : w.kind ≠ .punct .lt := by
        intro hw
        rw [hw] at h
        cases h.2
      simp [startsTurbofish, hw]

/-- A segment is read. -/
def SegmentReads (R : Rules) (s : Segment) : Prop :=
  ∀ ts rest, Spells s.words ts → SegmentEnd s rest → segment R (ts ++ rest) = .ok (s, rest)

/-- A segment, from behind its name on. -/
def segmentArguments (R : Rules) (name : String) : Rule Segment := do
  if ← isAt (.punct .lt) then return .mk name (.angle (← genericArgs R))
  else if ← accept (.opener .paren) then
    let inputs ← commaList (.closer .paren) (R.type true)
    discard <| expect (.closer .paren) ""
    return .mk name (.paren inputs (← arrowType R))
  else return .mk name .none

theorem segment_name (R : Rules) (name : String) (p : Position) (h : startsTurbofish ts = false) :
    segment R ((pathWordOf name).token p :: ts) = segmentArguments R name ts := by
  unfold segment
  rw [bind_ok (pathWord_eq (token_pathWordOf name p) ts), bind_ok (ahead_eq _ _), h]
  rfl

theorem segment_none (R : Rules) (name : String) : SegmentReads R (.mk name .none) := by
  intro ts rest hs hr
  obtain ⟨p, rfl⟩ := hs.single
  rw [List.singleton_append, segment_name R name p hr.turbofish, segmentArguments,
    isAt_else (hr.headIs rfl (by rintro ⟨⟩)),
    bind_ok (accept_eq_false (hr.headIs rfl (by rintro ⟨⟩)))]
  rfl

theorem startsTurbofish_word {w : Word} (h : w.kind ≠ .punct .colonColon) (p : Position)
    (ts : List Token) : startsTurbofish (w.token p :: ts) = false := by
  cases ts with
  | nil => rfl
  | cons u us => simp [startsTurbofish, Word.token, h]

theorem segment_angle (name : String) {arguments : List GenericArg}
    (h : ∀ a ∈ arguments, ArgumentReads R a) : SegmentReads R (.mk name (.angle arguments)) := by
  intro ts rest hs _
  obtain ⟨p, us, rfl, hu⟩ := hs.cons
  have hread := genericArgs_reads h hu rest
  obtain ⟨q, vs, rfl, -⟩ := hu.cons
  rw [List.cons_append] at hread
  rw [List.cons_append, List.cons_append,
    segment_name R name p (startsTurbofish_word (by rintro ⟨⟩) _ _), segmentArguments,
    bind_ok (isAt_mark _ _ _), if_pos rfl, bind_ok hread]
  rfl

theorem segment_paren (name : String) {inputs : List Ty} {output : Option Ty}
    (hp : ∀ t ∈ inputs, t.Plain) (hi : ∀ t ∈ inputs, TypeReads R.type t)
    (ho : ∀ t ∈ output, TypeReads R.type t) : SegmentReads R (.mk name (.paren inputs output)) := by
  intro ts rest hs hr
  obtain ⟨p, us, rfl, hu⟩ := hs.cons
  obtain ⟨q, vs, rfl, hv⟩ := hu.cons
  obtain ⟨is, ws, rfl, his, hw⟩ := hv.append
  obtain ⟨r, os, rfl, hos⟩ := hw.cons
  have hout : arrowType R (os ++ rest) = .ok (output, rest) := by
    cases output with
    | none =>
      obtain rfl := spells_nil.1 hos
      exact arrowType_none (hr.headIs rfl (by rintro ⟨⟩))
    | some t =>
      refine arrowType_some (ho t rfl) hos (hr.resolve_right ?_)
      rintro ⟨h, -⟩
      cases h
  simp only [List.cons_append, List.append_assoc]
  rw [segment_name R name p (startsTurbofish_word (by rintro ⟨⟩) _ _), segmentArguments,
    isAt_else rfl, bind_ok (accept_opener _ _ _), if_pos rfl, bind_ok (types_read hp hi his _ _),
    bind_ok (expect_closer _ _ _ _), bind_ok hout]
  rfl

/-- One turn of the segments of a path. -/
def segmentTurn (R : Rules) : Rule (Turn Segment) := do
  let s ← segment R
  if ← ahead pathContinues then
    discard advance
    return .more s
  else return .last s

/-- Segments, and what may stand behind the type that they are. -/
theorem segments_reads {ss : List Segment} (h : ∀ s' ∈ s :: ss, SegmentReads R s')
    (ho : ∀ s' ∈ (s :: ss).dropLast, s'.hasOutput = false)
    (hs : Spells (s.words ++ moreSegmentWords ss) ts) (hr : TypeDone rest) :
    segments R (ts ++ rest) = .ok (s :: ss, rest) := by
  change many (segmentTurn R) _ = _
  induction ss generalizing s ts with
  | nil =>
    obtain ⟨us, vs, rfl, hu, hv⟩ := hs.append
    obtain rfl := spells_nil.1 hv
    refine many_last ?_
    unfold segmentTurn
    rw [List.append_nil, bind_ok (h s (by simp) us rest hu (.inl hr)), bind_ok (ahead_eq _ _),
      hr.pathDone.continues]
    rfl
  | cons s' ss ih =>
    rw [List.dropLast_cons_of_ne_nil (by simp), List.forall_mem_cons] at ho
    rw [List.forall_mem_cons] at h
    obtain ⟨us, vs, rfl, hu, hv⟩ := hs.append
    obtain ⟨q, vs, rfl, ht⟩ := hv.cons
    have hread := ih h.2 ho.2 ht
    obtain ⟨name, arguments⟩ := s'
    obtain ⟨r, ws, rfl, -⟩ := ht.cons
    have hp : pathContinues ((Word.mark .colonColon).token q ::
        ((pathWordOf name).token r :: (ws ++ rest))) = true :=
      pathContinues_word rfl (token_pathWordOf name r) _
    rw [List.append_assoc, List.cons_append, List.cons_append]
    refine many_more ?_ ?_ hread
    · unfold segmentTurn
      rw [bind_ok (h.1 us _ hu (.inr ⟨ho.1, hp⟩)), bind_ok (ahead_eq _ _), hp]
      rfl
    · simp only [List.length_append, List.length_cons]
      omega

theorem dropPathWords_more {c : Token} (hk : k.kind.isPathWord = true)
    (hc : c.kind = .punct .colonColon) (ts : List Token) :
    dropPathWords (k :: c :: ts) = dropPathWords ts := by
  rw [dropPathWords, if_pos hk, if_pos hc]

theorem dropPathWords_last (hk : k.kind.isPathWord = true)
    (h : headIs (.punct .colonColon) ts = false) : dropPathWords (k :: ts) = ts := by
  cases ts with
  | nil => exact if_pos hk
  | cons c ts =>
    have hc : c.kind ≠ .punct .colonColon := by simpa [headIs_cons] using h
    rw [dropPathWords, if_pos hk, if_neg hc]

/-- Arguments end the words of a path, and they do not start with an exclamation mark. -/
theorem dropPathWords_arguments {arguments : Arguments} {ws : List Word}
    (hk : k.kind.isPathWord = true) (ha : arguments ≠ .none)
    (hs : Spells (arguments.words ++ ws) ts) (rest : List Token) :
    headIs (.punct .bang) (dropPathWords (k :: (ts ++ rest))) = false := by
  cases arguments with
  | none => exact absurd rfl ha
  | angle | paren =>
    obtain ⟨p, us, rfl, -⟩ := hs.cons
    rw [List.cons_append, dropPathWords_last hk rfl]
    rfl

/-- The words of a path and the `::` between them are followed by no exclamation mark. -/
theorem dropPathWords_segments {ss : List Segment}
    (hs : Spells (s.words ++ moreSegmentWords ss) ts) (hr : PathDone rest) :
    headIs (.punct .bang) (dropPathWords (ts ++ rest)) = false := by
  induction ss generalizing s ts with
  | nil =>
    obtain ⟨name, arguments⟩ := s
    obtain ⟨p, us, rfl, hu⟩ := hs.cons
    by_cases ha : arguments = .none
    · subst ha
      obtain rfl := spells_nil.1 hu
      rw [List.singleton_append, dropPathWords_last (token_pathWordOf name p) hr.1]
      exact hr.2
    · exact dropPathWords_arguments (token_pathWordOf name p) ha hu rest
  | cons s' ss ih =>
    obtain ⟨name, arguments⟩ := s
    obtain ⟨p, us, rfl, hu⟩ := hs.cons
    by_cases ha : arguments = .none
    · subst ha
      obtain ⟨q, vs, rfl, hv⟩ := hu.cons
      rw [List.cons_append, List.cons_append, dropPathWords_more (token_pathWordOf name p) rfl]
      exact ih hv
    · exact dropPathWords_arguments (token_pathWordOf name p) ha hu rest

/-! ## Paths -/

/-- The words of a path without a qualifier. -/
theorem spells_path {leading : Bool} {ss : List Segment}
    (hs : Spells (Ty.path none leading (s :: ss)).words ts) :
    ∃ us, Spells (s.words ++ moreSegmentWords ss) us ∧
      ((leading = false ∧ ts = us) ∨
        (leading = true ∧ ∃ p, ts = (Word.mark .colonColon).token p :: us)) := by
  cases leading with
  | false => exact ⟨ts, hs, .inl ⟨rfl, rfl⟩⟩
  | true =>
    obtain ⟨p, us, rfl, hu⟩ := hs.cons
    exact ⟨us, hu, .inr ⟨rfl, p, rfl⟩⟩

theorem first_segment {ws : List Word} (hs : Spells (s.words ++ ws) ts) :
    ∃ k us, ts = k :: us ∧ k.kind.isPathWord = true := by
  obtain ⟨name, arguments⟩ := s
  obtain ⟨p, us, rfl, -⟩ := hs.cons
  exact ⟨_, us, rfl, token_pathWordOf name p⟩

theorem headIs_segment {ws : List Word} (hs : Spells (s.words ++ ws) ts) {kind : Kind}
    (hk : kind.isPathWord = false) (rest : List Token) : headIs kind (ts ++ rest) = false := by
  obtain ⟨k, us, rfl, hw⟩ := first_segment hs
  exact headIs_apart Kind.isPathWord (by simp [hw, hk]) _

theorem pathOrBounds_reads (h : typePath R ts = .ok (t, rest))
    (hr : headIs (.punct .plus) rest = false) (allowPlus : Bool) :
    pathOrBounds R allowPlus ts = .ok (t, rest) := by
  unfold pathOrBounds
  rw [bind_ok (run_withText.2 ⟨h, rfl⟩)]
  cases allowPlus with
  | false => rfl
  | true => exact bind_ok (accept_eq_false hr) _

/-- A type that starts as a path does is one, unless a macro is called. -/
theorem type_path (hk : k.kind.isPathWord = true ∨ k.kind = .punct .colonColon)
    (hm : startsMacro (k :: ts) = false) (allowPlus : Bool) :
    type R allowPlus (k :: ts) = pathOrBounds R allowPlus (k :: ts) := by
  have ht : type R allowPlus (k :: ts) = (do
      if ← ahead startsMacro then return .macroCall (← macroCall)
      else if ← nextIs fun kind => kind.isPathWord || kind == .punct .colonColon then
        pathOrBounds R allowPlus
      else refuse .type "" : Rule Ty) (k :: ts) := by
    obtain ⟨kind, text, place⟩ := k
    rcases hk with hk | rfl
    · rcases Kind.isPathWord_iff.1 hk with rfl | rfl | rfl | rfl | rfl <;> rfl
    · rfl
  have hn : (nextIs fun kind => kind.isPathWord || kind == .punct .colonColon) (k :: ts) =
      .ok (true, k :: ts) := by
    refine run_nextIs.2 ⟨?_, rfl⟩
    rcases hk with hk | hk <;> simp [hk]
  rw [ht, bind_ok (ahead_eq _ _), hm, if_neg Bool.false_ne_true, bind_ok hn]
  rfl

theorem path_type_reads {leading : Bool} {ss : List Segment}
    (h : ∀ s' ∈ s :: ss, SegmentReads R s')
    (ho : ∀ s' ∈ (s :: ss).dropLast, s'.hasOutput = false) :
    TypeReads (type R) (.path none leading (s :: ss)) := by
  intro allowPlus ts rest hs hr
  obtain ⟨us, hu, hl⟩ := spells_path hs
  have hread := segments_reads h ho hu hr
  have hm := dropPathWords_segments hu hr.pathDone
  obtain ⟨k, vs, hk, hw⟩ := first_segment hu
  have hc : headIs (.punct .colonColon) (us ++ rest) = false := headIs_segment hu rfl rest
  rcases hl with ⟨rfl, rfl⟩ | ⟨rfl, p, rfl⟩
  · have ht : typePath R (ts ++ rest) = .ok (.path none false (s :: ss), rest) := by
      unfold typePath
      rw [bind_ok (accept_eq_false hc), bind_ok hread]
      rfl
    subst hk
    rw [List.cons_append] at hm ht hc ⊢
    have hk : k.kind ≠ .punct .colonColon := beq_eq_false_iff_ne.1 hc
    rw [type_path (.inl hw) ?_ allowPlus]
    · exact pathOrBounds_reads ht (hr.headIs rfl) allowPlus
    · simp only [startsMacro, if_neg hk, if_pos hw]
      exact hm
  · have ht : typePath R ((Word.mark .colonColon).token p :: (us ++ rest)) =
        .ok (.path none true (s :: ss), rest) := by
      unfold typePath
      rw [bind_ok (accept_mark _ _ _), bind_ok hread]
      rfl
    have hs : startsMacro ((Word.mark .colonColon).token p :: (us ++ rest)) = false := hm
    rw [List.cons_append, type_path (.inr rfl) hs allowPlus]
    exact pathOrBounds_reads ht (hr.headIs rfl) allowPlus

theorem qualified_type_reads {ss : List Segment} (ht : TypeReads R.type t)
    (h : ∀ s' ∈ s :: ss, SegmentReads R s')
    (ho : ∀ s' ∈ (s :: ss).dropLast, s'.hasOutput = false) :
    TypeReads (type R) (.path (some t) false (s :: ss)) := by
  intro allowPlus ts rest hs hr
  obtain ⟨p, ts, rfl, h₁⟩ := hs.cons
  obtain ⟨us, ts, rfl, hu, h₂⟩ := h₁.append
  obtain ⟨q, ts, rfl, h₃⟩ := h₂.cons
  obtain ⟨r, vs, rfl, hv⟩ := h₃.cons
  have hstep (ts : List Token) : type R allowPlus ((Word.mark .lt).token p :: ts) = (do
      let path ← qualifiedPath R
      return .path (some path.1) false path.2 : Rule Ty) ((Word.mark .lt).token p :: ts) := rfl
  have hq : qualifiedPath R ((Word.mark .lt).token p :: (us ++ ((Word.mark .gt).token q ::
      ((Word.mark .colonColon).token r :: (vs ++ rest))))) = .ok ((t, s :: ss), rest) := by
    have hd : TypeDone ((Word.mark .gt).token q ::
        ((Word.mark .colonColon).token r :: (vs ++ rest))) := rfl
    have hc : (discard (accept (.punct .colonColon)) : Rule PUnit) (vs ++ rest) =
        .ok (⟨⟩, vs ++ rest) :=
      run_discard.2 ⟨false, accept_eq_false (headIs_segment hv rfl rest)⟩
    unfold qualifiedPath
    rw [bind_ok (expect_mark _ _ _ _), bind_ok (ht true us _ hu hd), accept_else rfl, pure_bind]
    change (discard (expect (.punct .gt) "") >>= _) _ = _
    rw [bind_ok (expect_mark _ _ _ _), bind_ok (expect_mark _ _ _ _), bind_ok hc,
      bind_ok (segments_reads h ho hv hr)]
    rfl
  simp only [List.cons_append, List.append_assoc]
  rw [hstep, bind_ok hq]
  rfl

end Grammar

end Ferrotype
