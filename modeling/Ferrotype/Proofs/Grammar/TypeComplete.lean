import Ferrotype.Grammar.Function
import Ferrotype.Proofs.Grammar.TypePaths
import Ferrotype.Proofs.Grammar.Types

/-!
# Types are read

A type that is written in words is read from them, wherever these stand, up to a token that does
not go on with it.
-/

namespace Ferrotype

namespace Grammar

open Rule

variable {R : Rules} {ts us rest : List Token} {t : Ty}

/-! ## Marks -/

theorem reference_type_reads (h : TypeReads R.type t) (hp : t.Plain) (lifetime : Option String)
    (mutable : Bool) : TypeReads (type R) (.reference lifetime mutable t) := by
  intro allowPlus ts rest hs hr
  have hm (name : Option String) {us : List Token}
      (hs : Spells ((if mutable then [.keyword .mutKw] else []) ++ t.words) us) : (do
        let mutable ← accept (.keyword .mutKw)
        return .reference name mutable (← R.type false) : Rule Ty) (us ++ rest) =
          .ok (.reference name mutable t, rest) := by
    cases mutable with
    | true =>
      obtain ⟨p, us, rfl, hu⟩ := hs.cons
      rw [List.cons_append, bind_ok (accept_keyword _ _ _), bind_ok (h false us rest hu hr)]
      rfl
    | false =>
      rw [bind_ok (accept_eq_false (first_headIs hp hs rfl rest)),
        bind_ok (h false us rest hs hr)]
      rfl
  rw [Ty.words] at hs
  obtain ⟨p, us, rfl, hu⟩ := hs.cons
  have ha (ts : List Token) : type R allowPlus ((Word.mark .and).token p :: ts) =
      referenceRest R ts := rfl
  rw [List.cons_append, ha]
  cases lifetime with
  | some name =>
    obtain ⟨q, vs, rfl, hv⟩ := hu.cons
    exact hm (some name) hv
  | none =>
    have hn : headIs .lifetime (us ++ rest) = false := by
      cases mutable with
      | true =>
        obtain ⟨q, vs, rfl, -⟩ := hu.cons
        rfl
      | false => exact first_headIs hp hu rfl rest
    unfold referenceRest
    rw [bind_ok (isAt_eq_false hn)]
    exact hm none hu

theorem pointer_reads (h : TypeReads R.type t) (mutable : Bool) :
    TypeReads (type R) (.pointer mutable t) := by
  intro allowPlus ts rest hs hr
  obtain ⟨p, us, rfl, hu⟩ := hs.cons
  have ha (ts : List Token) : type R allowPlus ((Word.mark .star).token p :: ts) =
      pointerRest R ts := rfl
  rw [List.cons_append, ha, pointerRest]
  cases mutable with
  | true =>
    obtain ⟨q, vs, rfl, hv⟩ :
        ∃ q vs, us = (Word.keyword .mutKw).token q :: vs ∧ Spells t.words vs := hu.cons
    rw [List.cons_append, accept_else rfl, bind_ok (accept_keyword _ _ _), if_pos rfl,
      bind_ok (h false vs rest hv hr)]
    rfl
  | false =>
    obtain ⟨q, vs, rfl, hv⟩ :
        ∃ q vs, us = (Word.keyword .constKw).token q :: vs ∧ Spells t.words vs := hu.cons
    rw [List.cons_append, bind_ok (accept_keyword _ _ _), if_pos rfl,
      bind_ok (h false vs rest hv hr)]
    rfl

theorem never_reads (R : Rules) : TypeReads (type R) .never := by
  intro allowPlus ts rest hs _
  obtain ⟨p, rfl⟩ := hs.single
  rfl

theorem infer_reads (R : Rules) : TypeReads (type R) .infer := by
  intro allowPlus ts rest hs _
  obtain ⟨p, rfl⟩ := hs.single
  rfl

/-! ## Brackets -/

theorem type_paren (p : Position) (allowPlus : Bool) (ts : List Token) :
    type R allowPlus ((Word.opener .paren).token p :: ts) =
      parenOrTuple (R.type true) .paren .tuple ((Word.opener .paren).token p :: ts) := rfl

theorem paren_type_reads (h : TypeReads R.type t) (hp : t.Plain) :
    TypeReads (type R) (.paren t) := by
  intro allowPlus ts rest hs hr
  obtain ⟨p, vs, rfl, hv⟩ := hs.cons
  obtain ⟨us, q, rfl, hu⟩ := hv.snoc
  have hd : TypeDone ((Word.closer .paren).token q :: rest) := rfl
  rw [List.cons_append, type_paren, parenOrTuple, bind_ok (expect_opener _ _ _ _),
    List.append_assoc, accept_else (first_headIs hp hu rfl _)]
  rw [List.singleton_append, bind_ok (h true us _ hu hd), bind_ok (accept_closer _ _ _)]
  rfl

theorem tuple_type_reads {ts : List Ty} (hp : ∀ t ∈ ts, t.Plain)
    (h : ∀ t ∈ ts, TypeReads R.type t) : TypeReads (type R) (.tuple ts) := by
  intro allowPlus us rest hs _
  match ts, hp, h with
  | [], _, _ =>
    obtain ⟨p, us, rfl, hu⟩ := hs.cons
    obtain ⟨q, rfl⟩ := hu.single
    rfl
  | [t], hp, h =>
    rw [List.forall_mem_singleton] at hp h
    have hw : (Ty.tuple [t]).words =
        .opener .paren :: (t.words ++ [.mark .comma, .closer .paren]) := by
      simp [Ty.words, typesWords, commaBetween, commaBefore]
    rw [hw] at hs
    obtain ⟨p, us, rfl, h₁⟩ := hs.cons
    obtain ⟨us, vs, rfl, hu, h₂⟩ := h₁.append
    obtain ⟨q, vs, rfl, h₃⟩ := h₂.cons
    obtain ⟨r, rfl⟩ := h₃.single
    rw [List.cons_append, List.append_assoc, type_paren]
    exact tuple_pieces (h.piece hp .paren hu) (.comma _ _) rfl (many_stop rfl)
  | t :: u :: ts, hp, h =>
    rw [List.forall_mem_cons] at hp h
    have hw : (Ty.tuple (t :: u :: ts)).words = .opener .paren ::
        (t.words ++ (commaBefore ((u :: ts).map Ty.words) ++ [.closer .paren])) := by
      simp [Ty.words, typesWords_eq, commaBetween]
    rw [hw] at hs
    obtain ⟨p, us, rfl, h₁⟩ := hs.cons
    obtain ⟨us, vs, rfl, hu, h₂⟩ := h₁.append
    obtain ⟨vs, q, rfl, hv⟩ := h₂.snoc
    obtain ⟨r, vs, rfl, -⟩ := hv.cons
    obtain ⟨uss, hc, hps⟩ := spelled_before
      (fun t ht us hs => (h.2 t ht).piece (hp.2 t ht) .paren hs) hv
    rw [List.map_id'] at hps
    have hmore := moreElements_pieces ListEnd.comma (ListEnd.closed (.closer .paren))
      (by rintro ⟨⟩) hc hps q rest
    rw [List.cons_append, List.append_assoc, List.append_assoc, type_paren]
    exact tuple_pieces (h.1.piece hp.1 .paren hu) (.comma _ _) rfl hmore

theorem slice_type_reads (h : TypeReads R.type t) : TypeReads (type R) (.slice t) := by
  intro allowPlus ts rest hs _
  obtain ⟨p, vs, rfl, hv⟩ := hs.cons
  obtain ⟨us, q, rfl, hu⟩ := hv.snoc
  have ha (ts : List Token) : type R allowPlus ((Word.opener .bracket).token p :: ts) =
      sliceOrArray R ((Word.opener .bracket).token p :: ts) := rfl
  have hd : TypeDone ((Word.closer .bracket).token q :: rest) := rfl
  rw [List.cons_append, ha, sliceOrArray, bind_ok (expect_opener _ _ _ _), List.append_assoc,
    List.singleton_append, bind_ok (h true us _ hu hd), accept_else rfl,
    bind_ok (expect_closer _ _ _ _)]
  rfl

theorem array_type_reads {length : Expr} (h : TypeReads R.type t) (hl : IntegerReads R length) :
    TypeReads (type R) (.array t length) := by
  intro allowPlus ts rest hs _
  obtain ⟨p, ts, rfl, h₁⟩ := hs.cons
  obtain ⟨us, ts, rfl, hu, h₂⟩ := h₁.append
  obtain ⟨q, ts, rfl, h₃⟩ := h₂.cons
  obtain ⟨vs, r, rfl, hv⟩ := h₃.snoc
  have ha (ts : List Token) : type R allowPlus ((Word.opener .bracket).token p :: ts) =
      sliceOrArray R ((Word.opener .bracket).token p :: ts) := rfl
  have hd (ts : List Token) : TypeDone ((Word.mark .semicolon).token q :: ts) := rfl
  simp only [List.cons_append, List.append_assoc]
  rw [ha, sliceOrArray, bind_ok (expect_opener _ _ _ _), bind_ok (h true us _ hu (hd _)),
    bind_ok (accept_mark _ _ _), if_pos rfl, bind_ok (hl.binary vs _ hv (.closer _ _ _)),
    bind_ok (expect_closer _ _ _ _)]
  rfl

/-! ## Function pointers -/

/-- What is no doc comment and no `#` starts no attribute. -/
theorem attributes_none (R : Rules) {style : DocStyle} {k : Token} (hd : k.kind ≠ .doc style)
    (hp : k.kind ≠ .punct .pound) (marks : List Kind) (ts : List Token) :
    attributes R style (.punct .pound :: marks) (k :: ts) = .ok ([], k :: ts) := by
  have hs : startsWith (.punct .pound :: marks ++ [.opener .bracket]) (k :: ts) = false := by
    simp [startsWith, hp]
  have hturn : attributeTurn R style (.punct .pound :: marks) (k :: ts) = .ok (.stop, k :: ts) := by
    change (if k.kind = .doc style then _ else
      if startsWith (.punct .pound :: marks ++ [.opener .bracket]) (k :: ts) then _
      else _ : Rule _) _ = _
    rw [if_neg hd, hs]
    rfl
  exact many_stop hturn

/-- No type is taken for a name with a colon behind it. -/
theorem startsNamed_type (h : t.Plain) (hs : Spells t.words ts)
    (hr : headIs (.punct .colon) rest = false) : startsNamed (ts ++ rest) = false := by
  have hn (k : Token) (us : List Token) : startsNamed (k :: us) =
      ((k.kind == .identifier || k.kind == .underscore) && headIs (.punct .colon) us) := by
    cases us with
    | nil => simp [startsNamed, headIs]
    | cons u us => rfl
  obtain ⟨k, us, rfl, -⟩ := first_token h hs
  rw [List.cons_append, hn, Bool.and_eq_false_iff]
  by_cases hi : k.kind = .identifier ∨ k.kind = .underscore
  · exact .inr (headIs_second h hs hi rfl hr)
  · simp only [not_or] at hi
    exact .inl (by simp [hi.1, hi.2])

/-- A parameter of a function pointer that is a type alone. -/
theorem TypeReads.parameter (h : TypeReads R.type t) (hp : t.Plain) (hs : Spells t.words us) :
    Piece (ListEnd (.closer .paren)) (.closer .paren) (bareParam R) us (some t) := by
  obtain ⟨k, vs, rfl, hk⟩ := first_token hp hs
  have hne {kind : Kind} (h : kind.startsType = false) : k.kind ≠ kind := by
    rintro rfl
    exact Bool.false_ne_true (h.symm.trans hk)
  refine ⟨⟨k, vs, rfl, hne rfl⟩, fun rest hr => ?_⟩
  have hc : headIs (.punct .colon) rest = false := hr.headIs (by rintro ⟨⟩) (by rintro ⟨⟩)
  have ha : (discard (outerAttributes R) : Rule PUnit) (k :: vs ++ rest) =
      .ok (⟨⟩, k :: vs ++ rest) :=
    run_discard.2 ⟨_, attributes_none R (hne rfl) (hne rfl) [] _⟩
  unfold bareParam
  rw [bind_ok ha, accept_else (first_headIs hp hs rfl rest), bind_ok (ahead_eq _ _),
    startsNamed_type hp hs hc]
  change (R.type true >>= _) (k :: vs ++ rest) = _
  rw [bind_ok (h true (k :: vs) rest hs (hr.typeDone rfl))]
  rfl

theorem bareFn_reads {inputs : List Ty} {output : Option Ty} (hp : ∀ t ∈ inputs, t.Plain)
    (hi : ∀ t ∈ inputs, TypeReads R.type t) (ho : ∀ t ∈ output, TypeReads R.type t) :
    TypeReads (type R) (.bareFn inputs output) := by
  intro allowPlus ts rest hs hr
  rw [Ty.words, typesWords_eq] at hs
  obtain ⟨p, ts, rfl, h₁⟩ := hs.cons
  obtain ⟨q, ts, rfl, h₂⟩ := h₁.cons
  obtain ⟨us, ts, rfl, hu, h₃⟩ := h₂.append
  obtain ⟨r, os, rfl, hos⟩ := h₃.cons
  obtain ⟨uss, hc, hps⟩ := spelled_between
    (fun t ht us hs => (hi t ht).parameter (hp t ht) hs) hu
  have hlist : commaList (.closer .paren) (bareParam R)
      (us ++ (Word.closer .paren).token r :: (os ++ rest)) =
        .ok (inputs.map some, (Word.closer .paren).token r :: (os ++ rest)) :=
    commaList_pieces ListEnd.comma (ListEnd.closed (.closer .paren)) (by rintro ⟨⟩) hc hps r _
  have ha (ts : List Token) : type R allowPlus ((Word.keyword .fnKw).token p :: ts) =
      bareFn R ((Word.keyword .fnKw).token p :: ts) := rfl
  have hq (ts : List Token) : (discard fnQualifiers : Rule PUnit)
      ((Word.keyword .fnKw).token p :: ts) = .ok (⟨⟩, (Word.keyword .fnKw).token p :: ts) :=
    run_discard.2 ⟨[], many_stop rfl⟩
  simp only [List.cons_append, List.append_assoc]
  rw [ha, bareFn, bind_ok (hq _), bind_ok (expect_keyword _ _ _ _), bind_ok (expect_opener _ _ _ _),
    bind_ok hlist, bind_ok (expect_closer _ _ _ _), bind_ok (arrowType_reads ho hos hr)]
  exact run_pure.2 ⟨by simp, rfl⟩

/-! ## Types of a number of words -/

/-- The rules for parts read the types of at most `n` words, and the integers of them. -/
structure PartsRead (R : Rules) (n : Nat) : Prop where
  type : ∀ t : Ty, t.Plain → t.words.length ≤ n → TypeReads R.type t
  integer : ∀ e : Expr, e.IsInteger → e.words.length ≤ n → IntegerReads R e

namespace PartsRead

variable {n : Nat}

theorem types (h : PartsRead R n) {ts : List Ty} (hp : ∀ t ∈ ts, t.Plain)
    (hn : (commaBetween (typesWords ts)).length ≤ n) : ∀ t ∈ ts, TypeReads R.type t := by
  intro t ht
  rw [typesWords_eq] at hn
  exact h.type t (hp t ht) (Nat.le_trans (length_le_commaBetween (List.mem_map_of_mem ht)) hn)

theorem output (h : PartsRead R n) {output : Option Ty} (hp : ∀ t ∈ output, t.Plain)
    (hn : (outputWords output).length ≤ n) : ∀ t ∈ output, TypeReads R.type t := by
  rintro t ⟨⟩
  rw [outputWords, List.length_cons] at hn
  exact h.type t (hp t rfl) (by omega)

theorem argument (h : PartsRead R n) {a : GenericArg} (ha : a.Plain) (hn : a.words.length ≤ n) :
    ArgumentReads R a := by
  cases ha with
  | type ht => exact (h.type _ ht hn).argument ht
  | lifetime => exact lifetime_argument R _
  | const he => exact (h.integer _ he hn).argument he
  | binding ht =>
    simp only [GenericArg.words, List.length_cons] at hn
    exact (h.type _ ht (by omega)).binding _

theorem segment (h : PartsRead R n) {s : Segment} (hs : s.Plain) (hn : s.words.length ≤ n + 1) :
    SegmentReads R s := by
  cases hs with
  | @mk name arguments ha =>
  rw [Segment.words, List.length_cons] at hn
  cases ha with
  | none => exact segment_none R name
  | @angle arguments ha =>
    rw [Arguments.words, List.length_cons, List.length_append, argumentsWords_eq] at hn
    refine segment_angle name fun a hm => h.argument (ha a hm) ?_
    have hl := length_le_commaBetween (List.mem_map_of_mem (f := GenericArg.words) hm)
    omega
  | paren hi ho =>
    simp only [Arguments.words, List.length_cons, List.length_append] at hn
    exact segment_paren name hi (h.types hi (by omega)) (h.output ho (by omega))

theorem length_le_segmentWords {s : Segment} {segments : List Segment} (h : s ∈ segments) :
    s.words.length ≤ (segmentWords segments).length := by
  have hmore (ss : List Segment) (h : s ∈ ss) :
      s.words.length ≤ (moreSegmentWords ss).length := by
    induction ss with
    | nil => cases h
    | cons s' ss ih =>
      simp only [moreSegmentWords, List.length_cons, List.length_append]
      rcases List.mem_cons.1 h with rfl | h
      · omega
      · have := ih h
        omega
  cases segments with
  | nil => cases h
  | cons s' ss =>
    rw [segmentWords, List.length_append]
    rcases List.mem_cons.1 h with rfl | h
    · omega
    · have := hmore ss h
      omega

theorem segments (h : PartsRead R n) {segments : List Segment} (hs : ∀ s ∈ segments, s.Plain)
    (hn : (segmentWords segments).length ≤ n + 1) : ∀ s ∈ segments, SegmentReads R s :=
  fun s hm => h.segment (hs s hm) (Nat.le_trans (length_le_segmentWords hm) hn)

/-- A type is read if the rules for its parts read shorter ones. -/
theorem step (h : PartsRead R n) (ht : t.Plain) (hn : t.words.length ≤ n + 1) :
    TypeReads (Grammar.type R) t := by
  -- Marks and brackets are words, too, so parts have fewer words than the whole.
  cases ht with
  | path hs ho =>
    obtain ⟨s, ss, rfl⟩ := List.exists_cons_of_ne_nil ho.ne_nil
    rw [Ty.words, List.length_append] at hn
    exact path_type_reads (h.segments hs (by omega)) ho.last
  | qualified ht hs ho =>
    obtain ⟨s, ss, rfl⟩ := List.exists_cons_of_ne_nil ho.ne_nil
    simp only [Ty.words, List.length_cons, List.length_append] at hn
    exact qualified_type_reads (h.type _ ht (by omega)) (h.segments hs (by omega)) ho.last
  | reference ht =>
    simp only [Ty.words, List.length_cons, List.length_append] at hn
    exact reference_type_reads (h.type _ ht (by omega)) ht _ _
  | pointer ht =>
    simp only [Ty.words, List.length_cons] at hn
    exact pointer_reads (h.type _ ht (by omega)) _
  | tuple ht =>
    simp only [Ty.words, List.length_cons, List.length_append] at hn
    exact tuple_type_reads ht (h.types ht (by omega))
  | slice ht =>
    simp only [Ty.words, List.length_cons, List.length_append] at hn
    exact slice_type_reads (h.type _ ht (by omega))
  | array ht hl =>
    simp only [Ty.words, List.length_cons, List.length_append] at hn
    exact array_type_reads (h.type _ ht (by omega)) (h.integer _ hl (by omega))
  | paren ht =>
    simp only [Ty.words, List.length_cons, List.length_append] at hn
    exact paren_type_reads (h.type _ ht (by omega)) ht
  | bareFn hi ho =>
    simp only [Ty.words, List.length_cons, List.length_append] at hn
    exact bareFn_reads hi (h.types hi (by omega)) (h.output ho (by omega))
  | never => exact never_reads R
  | infer => exact infer_reads R

end PartsRead

/-- What is written in few words is read in a low layer. -/
theorem type_reads (n : Nat) (ht : t.Plain) (hn : t.words.length ≤ n + 1) :
    TypeReads (type (rules n)) t := by
  induction n generalizing t with
  | zero =>
    refine PartsRead.step ⟨fun u hu h0 => ?_, fun e he h0 => ?_⟩ ht hn
    · obtain ⟨w, ws, hw, -⟩ := hu.first
      rw [hw] at h0
      cases h0
    · cases he <;> cases h0
  | succ n ih => exact PartsRead.step ⟨fun u hu hl => ih hu hl, fun e he _ => integer_reads n he⟩ ht hn

/-- A type is read by the whole grammar. -/
theorem wholeType_written (ht : t.Plain) (hs : Spells t.words ts) (hr : TypeDone rest)
    (allowPlus : Bool) : wholeType allowPlus (ts ++ rest) = .ok (t, rest) := by
  have hlen := hs.length_eq
  refine type_reads (ts ++ rest).length ht ?_ allowPlus ts rest hs hr
  rw [List.length_append]
  omega

end Grammar

end Ferrotype
