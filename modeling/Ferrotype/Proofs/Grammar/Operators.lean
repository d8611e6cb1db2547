import Ferrotype.Proofs.Grammar.Complete
import Ferrotype.Proofs.Grammar.Exprs

/-!
# Operators are read

Suffixes and operators associate to the left. So what is said of an operand that is written in
words covers what comes behind it too, and an operation is read where its left operand is.
-/

namespace Ferrotype

namespace Grammar

open Rule

variable {R : Rules} {e : Expr} {ts rest rest' : List Token} {t : Token} {p : Position}

/-! ## Suffixes -/

/-- An operand is read, and so are the suffixes behind it. -/
def SuffixReads (R : Rules) (e : Expr) : Prop :=
  ∀ p rest ss rest', PathDone rest → many (suffixTurn R) rest = .ok (ss, rest') →
    suffixed R (layout p e.words ++ rest) = .ok (ss.foldl Suffix.apply e, rest')

theorem PrimaryReads.suffix (h : PrimaryReads R e) : SuffixReads R e := by
  intro p rest ss rest' hr hm
  unfold suffixed
  rw [bind_ok (h p rest hr), bind_ok hm]
  rfl

/-- The words `ws` are those of a suffix. -/
def SuffixWords (R : Rules) (s : Suffix) (ws : List Word) : Prop :=
  ∀ p rest, PathDone rest → PathDone (layout p ws ++ rest) ∧
    suffixTurn R (layout p ws ++ rest) = .ok (.more s, rest)

theorem SuffixReads.apply {s : Suffix} {w : Word} {ws : List Word} (h : SuffixReads R e)
    (hs : SuffixWords R s (w :: ws)) (hw : (s.apply e).words = e.words ++ w :: ws) :
    SuffixReads R (s.apply e) := by
  intro p rest ss rest' hr hm
  obtain ⟨hd, ht⟩ := hs (behind p e.words) rest hr
  have hlen := length_le_layout (behind p e.words) (w :: ws)
  rw [List.length_cons] at hlen
  rw [hw, layout_append, List.append_assoc]
  refine h p _ (s :: ss) rest' hd (many_more ht ?_ hm)
  rw [List.length_append]
  omega

theorem memberName_reads (name : String) (p : Position) (ts : List Token) :
    memberName ((memberWord name).token p :: ts) = .ok (name, ts) := by
  have hn : (nextIs fun kind => kind == .identifier || kind == .int)
      ((memberWord name).token p :: ts) = .ok (true, (memberWord name).token p :: ts) := by
    refine run_nextIs.2 ⟨?_, rfl⟩
    simp only [memberWord, Word.token, List.head?_cons, Option.any_some]
    split <;> rfl
  unfold memberName
  rw [bind_ok hn]
  rfl

theorem member_words (R : Rules) (name : String) :
    SuffixWords R (.member name) [.mark .dot, memberWord name] := by
  intro p rest hr
  rw [layout_cons rfl, layout_cons rfl]
  refine ⟨⟨rfl, rfl⟩, ?_⟩
  rw [List.cons_append, suffixTurn, bind_ok (accept_mark _ _ _), if_pos rfl, List.cons_append,
    bind_ok (memberName_reads _ _ _), bind_ok (ahead_eq _ _)]
  change (if startsTurbofish rest = true then _ else _ : Rule (Turn Suffix)) rest = _
  rw [hr.turbofish, if_neg Bool.false_ne_true]
  rfl

theorem call_words {arguments : List Expr} (h : ∀ a ∈ arguments, Element R a) :
    SuffixWords R (.call arguments)
      (.opener .paren :: (listWords arguments ++ [.closer .paren])) := by
  intro p rest hr
  rw [layout_cons rfl, layout_append, layout_cons rfl]
  refine ⟨⟨rfl, rfl⟩, ?_⟩
  rw [List.cons_append, List.append_assoc, List.cons_append, suffixTurn, accept_else rfl,
    bind_ok (isAt_opener _ _ _), if_pos rfl, callArgs]
  simp only [bind_assoc]
  rw [bind_ok (expect_opener _ _ _ _), bind_ok (commaList_reads .paren h _ _ _),
    bind_ok (expect_closer _ _ _ _)]
  rfl

theorem index_words {i : Expr} (h : Element R i) :
    SuffixWords R (.index i) (.opener .bracket :: (i.words ++ [.closer .bracket])) := by
  intro p rest hr
  rw [layout_cons rfl, layout_append, layout_cons rfl]
  refine ⟨⟨rfl, rfl⟩, ?_⟩
  rw [List.cons_append, List.append_assoc, List.cons_append, suffixTurn, accept_else rfl,
    isAt_else rfl, bind_ok (accept_opener _ _ _), if_pos rfl, bind_ok (h.reads _ _ (.closer _ _ _)),
    bind_ok (expect_closer _ _ _ _)]
  rfl

theorem question_words (R : Rules) : SuffixWords R .question [.mark .question] :=
  fun _ _ _ => ⟨⟨rfl, rfl⟩, rfl⟩

theorem SuffixReads.member (h : SuffixReads R e) (name : String) :
    SuffixReads R (.member e name) := h.apply (s := .member name) (member_words R name) rfl

theorem SuffixReads.call (h : SuffixReads R e) {arguments : List Expr}
    (ha : ∀ a ∈ arguments, Element R a) : SuffixReads R (.call e arguments) :=
  h.apply (s := .call arguments) (call_words ha) rfl

theorem SuffixReads.index (h : SuffixReads R e) {i : Expr} (hi : Element R i) :
    SuffixReads R (.index e i) := h.apply (s := .index i) (index_words hi) rfl

theorem SuffixReads.question (h : SuffixReads R e) : SuffixReads R (.question e) :=
  h.apply (s := .question) (question_words R) rfl

theorem suffixTurn_stop (h : Done ts) : suffixTurn R ts = .ok (.stop, ts) := by
  unfold suffixTurn
  rw [accept_else (h.headIs rfl), isAt_else (h.headIs rfl), accept_else (h.headIs rfl),
    bind_ok (accept_eq_false (h.headIs rfl))]
  rfl

/-! ## Unary operators -/

/-- An expression is read behind which no suffix stands. -/
def UnaryReads (R : Rules) (e : Expr) : Prop :=
  ∀ p rest, Done rest → unary R (layout p e.words ++ rest) = .ok (e, rest)

theorem accept_operand (h : t.kind.startsOperand = true) (m : Punct) (hm : m ≠ .colonColon)
    (ts : List Token) : accept (.punct m) (t :: ts) = .ok (false, t :: ts) := by
  refine accept_eq_false (beq_eq_false_iff_ne.2 fun ht => ?_)
  rw [ht] at h
  cases m <;> first | exact hm rfl | cases h

theorem unaryTurn_stop (h : t.kind.startsOperand = true) (ts : List Token) :
    unaryTurn (t :: ts) = .ok (.stop, t :: ts) := by
  unfold unaryTurn
  rw [bind_ok (accept_operand h .minus nofun ts), if_neg Bool.false_ne_true,
    bind_ok (accept_operand h .bang nofun ts), if_neg Bool.false_ne_true,
    bind_ok (accept_operand h .star nofun ts), if_neg Bool.false_ne_true,
    bind_ok (accept_operand h .and nofun ts), if_neg Bool.false_ne_true,
    bind_ok (accept_operand h .andAnd nofun ts)]
  rfl

theorem run_unary : Grammar.unary R ts = .ok (e, rest) ↔ ∃ ops mid e',
    many unaryTurn ts = .ok (ops, mid) ∧ suffixed R mid = .ok (e', rest) ∧
      e = ops.foldr .unary e' := by
  simp only [Grammar.unary, run_bind, run_pure]
  constructor
  · rintro ⟨ops, mid, ho, e', _, he, rfl, rfl⟩
    exact ⟨ops, mid, e', ho, he, rfl⟩
  · rintro ⟨ops, mid, e', ho, he, rfl⟩
    exact ⟨ops, mid, ho, e', rest, he, rfl, rfl⟩

theorem SuffixReads.unary (h : SuffixReads R e) {w : Word} {ws : List Word} (hw : e.words = w :: ws)
    (hk : w.kind.startsOperand = true) : UnaryReads R e := by
  intro p rest hr
  refine run_unary.2 ⟨[], layout p e.words ++ rest, e, ?_, ?_, rfl⟩
  · rw [hw]
    exact many_stop (unaryTurn_stop hk _)
  · exact h p rest [] rest hr.pathDone (many_stop (suffixTurn_stop hr))

/-- What does not start with `mut` may stand behind any unary operator. -/
theorem unaryTurn_words (op : UnaryOp) (p : Position) (h : headIs (.keyword .mutKw) ts = false) :
    unaryTurn (layout p op.words ++ ts) = .ok (.more op, ts) := by
  cases op with
  | ref double mutable =>
    have hm (q : Position) : accept (.keyword .mutKw)
        (layout q (if mutable then [.keyword .mutKw] else []) ++ ts) = .ok (mutable, ts) := by
      cases mutable with
      | true => exact accept_eq_true rfl
      | false => exact accept_eq_false h
    have hr (double : Bool) (q : Position) :
        (do return .more (.ref double (← accept (.keyword .mutKw))) : Rule (Turn UnaryOp))
          (layout q (if mutable then [.keyword .mutKw] else []) ++ ts) =
            .ok (.more (.ref double mutable), ts) := bind_ok (hm q) _
    cases double with
    | true => exact hr true (p.right ((Word.mark .andAnd).width + 1))
    | false => exact hr false (p.right ((Word.mark .and).width + 1))
  | _ => rfl

theorem UnaryReads.unary (h : UnaryReads R e) (op : UnaryOp) {w : Word} {ws : List Word}
    (hw : e.words = w :: ws) (hk : w.kind.startsOperand = true ∨ w.kind.isUnaryMark = true) :
    UnaryReads R (.unary op e) := by
  intro p rest hr
  obtain ⟨ops, mid, e', ho, he, hf⟩ := run_unary.1 (h (behind p op.words) rest hr)
  rw [Expr.words, layout_append, List.append_assoc]
  refine run_unary.2 ⟨op :: ops, mid, e', many_more (unaryTurn_words op p ?_) ?_ ho, he, ?_⟩
  · rw [hw]
    refine beq_eq_false_iff_ne.2 fun hm => ?_
    change w.kind = _ at hm
    rw [hm] at hk
    rcases hk with hk | hk <;> cases hk
  · have hlen := length_le_layout p op.words
    have hop : 1 ≤ op.words.length := by cases op <;> simp [UnaryOp.words]
    simp only [List.length_append]
    omega
  · rw [List.foldr_cons, ← hf]

/-! ## Binary operators -/

/-- An expression is read, and so are the operators behind it. -/
def BinaryReads (R : Rules) (e : Expr) : Prop :=
  ∀ p least rest more rest', least ≤ e.rank → Done rest → Looser (e.rank + 1) rest →
    many (binaryTurn R least) rest = .ok (more, rest') →
      binary R least (layout p e.words ++ rest) =
        .ok (more.foldl (fun left next => .binary left next.1 next.2) e, rest')

/-- No cast follows a complete operand. -/
theorem cast_eq (h : Grammar.unary R ts = .ok (e, rest)) (hr : Done rest) :
    cast R ts = .ok (e, rest) := by
  have ht : many (do
      if ← accept (.keyword .asKw) then return .more (← R.type false) else return .stop)
      rest = .ok ([], rest) := many_stop (bind_ok (accept_eq_false (hr.headIs rfl)) _)
  unfold cast
  rw [bind_ok h, bind_ok ht]
  rfl

theorem UnaryReads.binary (h : UnaryReads R e) : BinaryReads R e := by
  intro p least rest more rest' _ hr _ hm
  exact run_binary.2 ⟨e, rest, more, cast_eq (h p rest hr) hr, hm, rfl⟩

theorem binaryTurn_stop {least : Nat} (h : Looser least ts) :
    many (binaryTurn R least) ts = .ok ([], ts) :=
  many_stop (run_binaryTurn.2 (.inl ⟨rfl, rfl, h⟩))

theorem Looser.mono {m n : Nat} (h : Looser m ts) (hn : m ≤ n) : Looser n ts :=
  fun op width ho => Nat.lt_of_lt_of_le (h op width ho) hn

/-- An expression is read up to an operator that binds looser than it must. -/
theorem BinaryReads.stop (h : BinaryReads R e) {least : Nat} (hl : least ≤ e.rank)
    (hr : Done rest) (ho : Looser least rest) (p : Position) :
    Grammar.binary R least (layout p e.words ++ rest) = .ok (e, rest) :=
  h p least rest [] rest hl hr (ho.mono (by omega)) (binaryTurn_stop ho)

/-- An angle bracket behind which a space stands is no half of a shift. -/
theorem adjacent_spaced (m : Word) (w : Word) (p : Position) (h : m.twice = false) :
    adjacent (m.token p) (w.token (p.right (m.width + 1))) = false := by
  simp only [adjacent, Word.token, Position.right, Word.width, h, if_neg Bool.false_ne_true,
    Bool.and_eq_false_iff, beq_eq_false_iff_ne]
  omega

theorem adjacent_twice (w : Word) (p : Position) :
    adjacent (w.token p) (w.token (p.right w.text.length)) = true := by
  simp [adjacent, Word.token, Position.right]

theorem shiftAt?_spaced {u : Token} (h : adjacent t u = false) (ts : List Token) :
    shiftAt? (t :: u :: ts) = none := by
  simp [shiftAt?, h]

theorem operatorAt?_shift {op : BinaryOp} (h : shiftAt? ts = some op) :
    operatorAt? ts = some (op, 2) := by
  unfold operatorAt?
  rw [h]

/-- The operator at its word, behind which another word stands. -/
theorem operatorAt?_word (op : BinaryOp) (p : Position) (w : Word) (ws : List Word)
    (rest : List Token) :
    operatorAt? (layout p (op.word :: w :: ws) ++ rest) =
      some (op, (op.word.tokens p).length) := by
  have hnext : ∃ us, layout p (op.word :: w :: ws) ++ rest =
      op.word.tokens p ++ w.token (p.right (op.word.width + 1)) :: us := by
    simp only [layout, List.append_assoc]
    exact ⟨_, rfl⟩
  obtain ⟨us, hus⟩ := hnext
  rw [hus]
  cases op with
  | shl =>
    have hs := AngleOps.lt.shift rfl rfl (adjacent_twice (.shift .lt) p)
      (w.token (p.right ((Word.shift .lt).width + 1)) :: us)
    exact operatorAt?_shift hs
  | shr =>
    have hs := AngleOps.gt.shift rfl rfl (adjacent_twice (.shift .gt) p)
      (w.token (p.right ((Word.shift .gt).width + 1)) :: us)
    exact operatorAt?_shift hs
  | lt =>
    have hs := shiftAt?_spaced (adjacent_spaced (.mark .lt) w p rfl) us
    exact (operatorAt?_alone hs).trans rfl
  | gt =>
    have hs := shiftAt?_spaced (adjacent_spaced (.mark .gt) w p rfl) us
    exact (operatorAt?_alone hs).trans rfl
  | _ => exact (operatorAt?_alone (shiftAt?_cons (by rintro ⟨⟩) (by rintro ⟨⟩) _)).trans rfl

theorem BinaryReads.binary {n : Nat} {l r : Expr} {op : BinaryOp} {w : Word} {ws : List Word}
    (hl : BinaryReads (rules (n + 1)) l) (hr : BinaryReads (rules n) r) (hw : r.words = w :: ws)
    (left : op.precedence ≤ l.rank) (right : op.precedence < r.rank) :
    BinaryReads (rules (n + 1)) (.binary l op r) := by
  intro p least rest more rest' hleast hd ho hm
  have hop := operatorAt?_word op (behind p l.words) w ws rest
  rw [← hw] at hop
  rw [Expr.words, layout_append, List.append_assoc]
  refine hl p least _ ((op, r) :: more) rest' (Nat.le_trans hleast left) ?_ ?_ ?_
  · cases op <;> rfl
  · intro op' width ho'
    rw [hop] at ho'
    cases ho'
    omega
  · refine many_more (run_binaryTurn.2 (.inr ⟨op, _, r, hop, hleast, ?_, rfl⟩)) ?_ hm
    · rw [layout, List.append_assoc, List.drop_left]
      exact hr.stop right hd ho _
    · have := length_le_layout (behind p l.words) (op.word :: r.words)
      rw [List.length_cons] at this
      rw [List.length_append]
      omega

end Grammar

/-! ## Expressions -/

open Grammar

namespace Expr

variable {e : Expr} {es : List Expr} {n : Nat}

theorem one_le_rank (e : Expr) : 1 ≤ e.rank := by
  cases e with
  | binary l op r => exact op.precedence_pos
  | _ => exact Nat.le_add_left _ _

/-- How a shaped expression is read by the rules of a layer. -/
structure ReadIn (n : Nat) (e : Expr) : Prop where
  suffix : 12 ≤ e.rank → SuffixReads (rules n) e
  unary : 11 ≤ e.rank → UnaryReads (rules n) e
  binary : BinaryReads (rules n) e

theorem ReadIn.of_suffix (h : SuffixReads (rules n) e) (hp : e.Plain) (hs : e.Shaped)
    (hr : 12 ≤ e.rank) : e.ReadIn n := by
  obtain ⟨w, ws, hw, hk⟩ := hp.operand hs hr
  have hu := h.unary hw hk
  exact ⟨fun _ => h, fun _ => hu, hu.binary⟩

/-- The layer above reads it as an element of a list. -/
theorem ReadIn.element (h : e.ReadIn n) (hp : e.Plain) (hs : e.Shaped) :
    Element (rules (n + 1)) e := by
  refine ⟨?_, fun p rest hr => h.binary.stop e.one_le_rank hr.done (hr.looser 1) p⟩
  obtain ⟨w, ws, hw, hk⟩ := hp.first hs
  refine ⟨w, ws, hw, fun d hd => ?_⟩
  rw [hd] at hk
  rcases hk with hk | hk <;> cases hk

theorem length_le_listWords (h : e ∈ es) : e.words.length ≤ (listWords es).length := by
  rw [listWords_eq]
  exact length_le_commaBetween (List.mem_map_of_mem h)

/-- A tuple has brackets around its elements. -/
theorem length_le_tuple (es : List Expr) :
    (listWords es).length + 2 ≤ (Expr.tuple es).words.length := by
  match es with
  | [] => exact Nat.le_refl _
  | [e] => simp [words, listWords, moreWords]
  | e :: e' :: es => simp [words]

/-- The elements in brackets are read by the layer above. -/
theorem elements (h : ∀ e ∈ es, e.Plain) (hs : ∀ e ∈ es, e.Shaped)
    (hn : (listWords es).length ≤ n + 1)
    (ih : ∀ e ∈ es, ∀ {n}, e.Shaped → e.words.length ≤ n + 1 → e.ReadIn n) :
    ∀ e ∈ es, Element (rules (n + 1)) e := by
  intro e he
  have hlen := length_le_listWords he
  exact (ih e he (hs e he) (by omega)).element (h e he) (hs e he)

theorem ReadIn.unaryOp (h : e.ReadIn n) (op : UnaryOp) (hp : e.Plain) (hs : e.Shaped)
    (hr : 11 ≤ e.rank) : (Expr.unary op e).ReadIn n := by
  obtain ⟨w, ws, hw, hk⟩ := hp.first hs
  have hu := (h.unary hr).unary op hw hk
  exact ⟨fun hr => absurd hr (Nat.not_succ_le_self 11), fun _ => hu, hu.binary⟩

/-- The right operand is read by the layer below, behind the operator. -/
theorem ReadIn.binaryOp {l r : Expr} {op : BinaryOp} (hl : l.ReadIn (n + 1)) (hr : r.ReadIn n)
    (hp : r.Plain) (hs : r.Shaped) (left : op.precedence ≤ l.rank)
    (right : op.precedence < r.rank) : (Expr.binary l op r).ReadIn (n + 1) := by
  obtain ⟨w, ws, hw, -⟩ := hp.first hs
  have hop := op.precedence_le
  have hb := hl.binary.binary hr.binary hw left right
  refine ⟨fun h => ?_, fun h => ?_, hb⟩
  all_goals
    simp only [rank] at h
    omega

/-- What is written in few words is read in a low layer. -/
theorem Plain.readIn (h : e.Plain) (hs : e.Shaped) (hn : e.words.length ≤ n + 1) : e.ReadIn n := by
  -- In all layers at once, since the right operand of an operator is read one layer below it.
  induction h generalizing n with
  | literal h => exact .of_suffix (literal_reads _ h).suffix (.literal h) hs (Nat.le_refl _)
  | path h => exact .of_suffix (path_reads _ _ h).suffix (.path h) hs (Nat.le_refl _)
  | @unary op e h ih =>
    cases hs with
    | unary hs hr =>
    rw [words, List.length_append] at hn
    exact (ih hs (by omega)).unaryOp op h hs hr
  | @binary l r op hl hr ihl ihr =>
    cases hs with
    | binary hsl hsr left right =>
    obtain ⟨w, ws, hw, -⟩ := hr.first hsr
    have hlen : r.words.length = ws.length + 1 := by rw [hw, List.length_cons]
    rw [words, List.length_append, List.length_cons] at hn
    obtain ⟨n, rfl⟩ := Nat.exists_eq_add_one.2 (show 0 < n by omega)
    exact (ihl hsl (by omega)).binaryOp (ihr hsr (by omega)) hr hsr left right
  | @call f arguments hf ha ihf iha =>
    cases id hs with
    | call hsf hr hsa =>
    simp only [words, List.length_append, List.length_cons] at hn
    -- The brackets are words, too, so there is a layer below for the arguments.
    obtain ⟨n, rfl⟩ := Nat.exists_eq_add_one.2 (show 0 < n by omega)
    have hhead := (ihf (n := n + 1) hsf (by omega)).suffix hr
    have hargs := elements (n := n) ha hsa (by omega) iha
    exact .of_suffix (hhead.call hargs) (.call hf ha) hs (Nat.le_refl _)
  | @member e name h ih =>
    cases id hs with
    | member hse hr =>
    simp only [words, List.length_append, List.length_cons] at hn
    have hhead := (ih (n := n) hse (by omega)).suffix hr
    exact .of_suffix (hhead.member name) (.member h) hs (Nat.le_refl _)
  | @index base i hb hi ihb ihi =>
    cases id hs with
    | index hsb hr hsi =>
    simp only [words, List.length_append, List.length_cons] at hn
    obtain ⟨n, rfl⟩ := Nat.exists_eq_add_one.2 (show 0 < n by omega)
    have hhead := (ihb (n := n + 1) hsb (by omega)).suffix hr
    have helement := (ihi (n := n) hsi (by omega)).element hi hsi
    exact .of_suffix (hhead.index helement) (.index hb hi) hs (Nat.le_refl _)
  | @question e h ih =>
    cases id hs with
    | question hse hr =>
    simp only [words, List.length_append, List.length_cons] at hn
    have hhead := (ih (n := n) hse (by omega)).suffix hr
    exact .of_suffix hhead.question (.question h) hs (Nat.le_refl _)
  | @paren e h ih =>
    cases id hs with
    | paren hse =>
    simp only [words, List.length_append, List.length_cons] at hn
    obtain ⟨n, rfl⟩ := Nat.exists_eq_add_one.2 (show 0 < n by omega)
    have helement := (ih (n := n) hse (by omega)).element h hse
    exact .of_suffix (paren_reads helement).suffix (.paren h) hs (Nat.le_refl _)
  | @tuple es h ih =>
    cases id hs with
    | tuple hse =>
    have hlen := length_le_tuple es
    obtain ⟨n, rfl⟩ := Nat.exists_eq_add_one.2 (show 0 < n by omega)
    have helements := elements (n := n) h hse (by omega) ih
    exact .of_suffix (tuple_reads helements).suffix (.tuple h) hs (Nat.le_refl _)
  | @array es h ih =>
    cases id hs with
    | array hse =>
    simp only [words, List.length_append, List.length_cons] at hn
    obtain ⟨n, rfl⟩ := Nat.exists_eq_add_one.2 (show 0 < n by omega)
    have helements := elements (n := n) h hse (by omega) ih
    exact .of_suffix (array_reads helements).suffix (.array h) hs (Nat.le_refl _)

/-- An expression is read by the whole grammar. -/
theorem Plain.reads {rest : List Token} (h : e.Plain) (hs : e.Shaped) (p : Position)
    (hr : Stopped rest) :
    Rule.whole (fun R => Grammar.binary R 1) (layout p e.words ++ rest) = .ok (e, rest) := by
  have hlen := length_le_layout p e.words
  have hread : e.ReadIn (layout p e.words ++ rest).length :=
    h.readIn hs (by rw [List.length_append]; omega)
  exact hread.binary.stop e.one_le_rank hr.done (hr.looser 1) p

end Expr

end Ferrotype
