import Ferrotype.Proofs.Grammar.Climb
import Ferrotype.Proofs.Grammar.Lists
import Ferrotype.Proofs.Grammar.Printed

/-!
# What is written is read

A shaped expression that is written in words is read from them, up to the token behind it. Suffixes
and operators associate to the left, so an operand is read with what comes behind it.
-/

namespace Ferrotype

/-- Tokens that go on with an operand behind which they stand. -/
def Kind.continues : Kind → Bool
  | .punct .dot | .punct .question | .punct .colonColon | .punct .bang | .opener .paren
  | .opener .bracket | .keyword .asKw => true
  | _ => false

theorem Kind.isPathWord_iff {kind : Kind} :
    kind.isPathWord = true ↔ kind = .identifier ∨ kind = .keyword .selfValueKw ∨
      kind = .keyword .selfTypeKw ∨ kind = .keyword .superKw ∨ kind = .keyword .crateKw := by
  unfold isPathWord
  split <;> simp_all

namespace Grammar

open Rule

variable {R : Rules} {ts rest rest' : List Token} {t : Token} {p : Position}

/-! ## What comes behind -/

/-- The operand is complete. -/
def Done (ts : List Token) : Prop := (ts.head?.any fun t => t.kind.continues) = false

/-- A path is complete, and no macro is called. -/
def PathDone (ts : List Token) : Prop :=
  headIs (.punct .colonColon) ts = false ∧ headIs (.punct .bang) ts = false

theorem Done.headIs (h : Done ts) {kind : Kind} (hk : kind.continues = true) :
    headIs kind ts = false := headIs_of_any_eq_false h hk

theorem Done.pathDone (h : Done ts) : PathDone ts := ⟨h.headIs rfl, h.headIs rfl⟩

theorem PathDone.continues (h : PathDone ts) : pathContinues ts = false := by
  match ts with
  | [] | [_] => rfl
  | t :: u :: us =>
    have ht : (t.kind == .punct .colonColon) = false := h.1
    simp [pathContinues, ht]

theorem PathDone.turbofish (h : PathDone ts) : startsTurbofish ts = false := by
  match ts with
  | [] | [_] => rfl
  | t :: u :: us =>
    have ht : (t.kind == .punct .colonColon) = false := h.1
    simp [startsTurbofish, ht]

/-! ## Steps -/

theorem ahead_eq (test : List Token → Bool) (ts : List Token) :
    ahead test ts = .ok (test ts, ts) := run_ahead.2 ⟨rfl, rfl⟩

/-! ## Paths -/

theorem token_pathWordOf (name : String) (p : Position) :
    ((pathWordOf name).token p).kind.isPathWord = true := isPathWord_pathWordOf name

theorem pathWord_eq {fault : Expectation} (h : t.kind.isPathWord = true) (ts : List Token) :
    pathWord fault (t :: ts) = .ok (t.text, ts) := by
  have hn : nextIs Kind.isPathWord (t :: ts) = .ok (true, t :: ts) := run_nextIs.2 ⟨h.symm, rfl⟩
  unfold pathWord
  rw [bind_ok hn]
  rfl

/-- One turn of the words of a path. -/
def pathTurn (R : Rules) : Rule (Turn (String × Bool)) := do
  let word ← pathWord .pathWord
  let generic ← ahead startsTurbofish
  if generic then
    discard advance
    discard <| genericArgs R
  if ← ahead pathContinues then
    discard advance
    return .more (word, generic)
  else return .last (word, generic)

theorem pathTurn_last (h : t.kind.isPathWord = true) (hr : PathDone rest) :
    pathTurn R (t :: rest) = .ok (.last (t.text, false), rest) := by
  unfold pathTurn
  rw [bind_ok (pathWord_eq h rest), bind_ok (ahead_eq _ _), hr.turbofish]
  change (ahead pathContinues >>= _) rest = _
  rw [bind_ok (ahead_eq _ _), hr.continues]
  rfl

theorem pathTurn_more {c u : Token} (h : t.kind.isPathWord = true)
    (hc : c.kind = .punct .colonColon) (hu : u.kind.isPathWord = true) :
    pathTurn R (t :: c :: u :: rest) = .ok (.more (t.text, false), u :: rest) := by
  have ht : startsTurbofish (c :: u :: rest) = false := by
    have hl : u.kind ≠ .punct .lt := by
      intro hl
      rw [hl] at hu
      cases hu
    simp [startsTurbofish, hl]
  have hp : pathContinues (c :: u :: rest) = true := by simp [pathContinues, hc, hu]
  unfold pathTurn
  rw [bind_ok (pathWord_eq h _), bind_ok (ahead_eq _ _), ht]
  change (ahead pathContinues >>= _) (c :: u :: rest) = _
  rw [bind_ok (ahead_eq _ _), hp]
  rfl

theorem layout_pathWords (name : String) (names : List String) (p : Position) :
    ∃ ts, layout p (pathWords (name :: names)) = (pathWordOf name).token p :: ts :=
  ⟨_, layout_cons rfl p _⟩

theorem pathTurns (name : String) (names : List String) (p : Position) (hr : PathDone rest) :
    many (pathTurn R) (layout p (pathWords (name :: names)) ++ rest) =
      .ok ((name :: names).map (·, false), rest) := by
  induction names generalizing name p with
  | nil => exact many_last (pathTurn_last (token_pathWordOf name p) hr)
  | cons next names ih =>
    have hw : pathWords (name :: next :: names) =
        pathWordOf name :: .mark .colonColon :: pathWords (next :: names) := rfl
    rw [hw, layout_cons rfl, layout_cons rfl]
    have ih := ih next ((p.right ((pathWordOf name).width + 1)).right
      ((Word.mark .colonColon).width + 1))
    obtain ⟨us, hus⟩ := layout_pathWords next names ((p.right ((pathWordOf name).width + 1)).right
      ((Word.mark .colonColon).width + 1))
    rw [hus, List.cons_append] at ih ⊢
    refine many_more (pathTurn_more (token_pathWordOf name p) rfl (token_pathWordOf next _)) ?_ ih
    simp

theorem dropPathWords_words (name : String) (names : List String) (p : Position)
    (hr : PathDone rest) : dropPathWords (layout p (pathWords (name :: names)) ++ rest) = rest := by
  induction names generalizing name p with
  | nil =>
    have hw := token_pathWordOf name p
    change dropPathWords ((pathWordOf name).token p :: rest) = rest
    cases rest with
    | nil => simp [dropPathWords, hw]
    | cons t ts =>
      have ht : t.kind ≠ .punct .colonColon := by simpa [headIs_cons] using hr.1
      simp [dropPathWords, hw, ht]
  | cons next names ih =>
    have hw : pathWords (name :: next :: names) =
        pathWordOf name :: .mark .colonColon :: pathWords (next :: names) := rfl
    rw [hw, layout_cons rfl, layout_cons rfl, List.cons_append, List.cons_append, dropPathWords,
      if_pos (token_pathWordOf name p)]
    exact (if_pos rfl).trans (ih next _)

/-! ## Operands -/

/-- An expression is read as an operand. -/
def PrimaryReads (R : Rules) (e : Expr) : Prop :=
  ∀ p rest, PathDone rest → primary R (layout p e.words ++ rest) = .ok (e, rest)

theorem literal_reads (R : Rules) {value : String} {kind : LiteralKind} (h : kind ≠ .str) :
    PrimaryReads R (.literal value kind) := by
  intro p rest _
  cases kind with
  | str => exact absurd rfl h
  | bool =>
    by_cases hv : value = "false"
    · subst hv
      rfl
    · have hw : (Expr.literal value .bool).words = [⟨.keyword .trueKw, value, false⟩] := by
        simp [Expr.words, LiteralKind.kind, hv]
      rw [hw]
      rfl
  | _ => rfl

/-- The operands that start as a path does. -/
def pathOperand (R : Rules) : Rule Expr := do
  if ← ahead startsMacro then return .macroCall (← macroCall)
  else if ← nextIs fun kind => kind.isPathWord || kind == .punct .colonColon then pathExpr R
  else if ← isAt (.punct .lt) then
    return .path ((← qualifiedPath R).2.map Segment.name) false true
  else refuse .expression ""

theorem primary_path (hp : t.kind.isPathWord = true ∨ t.kind = .punct .colonColon)
    (hm : startsMacro (t :: rest) = false) : primary R (t :: rest) = pathExpr R (t :: rest) := by
  have ho : primary R (t :: rest) = pathOperand R (t :: rest) := by
    obtain ⟨kind, text, place⟩ := t
    rcases hp with hp | rfl
    · rcases Kind.isPathWord_iff.1 hp with rfl | rfl | rfl | rfl | rfl <;> rfl
    · rfl
  have hn : (nextIs fun kind => kind.isPathWord || kind == .punct .colonColon) (t :: rest) =
      .ok (true, t :: rest) := by
    refine run_nextIs.2 ⟨?_, rfl⟩
    rcases hp with hp | hp <;> simp [hp]
  rw [ho, pathOperand, bind_ok (ahead_eq _ _), hm]
  change ((nextIs fun kind => kind.isPathWord || kind == .punct .colonColon) >>= _) _ = _
  rw [bind_ok hn]
  rfl

theorem pathExpr_reads (R : Rules) (name : String) (names : List String) {leading : Bool}
    (hl : accept (.punct .colonColon) ts = .ok (leading, layout p (pathWords (name :: names)) ++ rest))
    (hr : PathDone rest) :
    pathExpr R ts = .ok (.path (name :: names) leading false, rest) := by
  change (accept (.punct .colonColon) >>= fun leading => many (pathTurn R) >>= fun words =>
    pure (Expr.path (words.map Prod.fst) leading (words.any Prod.snd))) ts = _
  rw [bind_ok hl, bind_ok (pathTurns name names p hr)]
  have hf : ((name :: names).map (·, false)).map Prod.fst = name :: names := by
    simp [Function.comp_def]
  have hs : ((name :: names).map (·, false)).any Prod.snd = false := by simp
  rw [hf, hs]
  rfl

theorem path_reads (R : Rules) {segments : List String} (leading : Bool) (h : segments ≠ []) :
    PrimaryReads R (.path segments leading false) := by
  intro p rest hr
  obtain ⟨name, names, rfl⟩ := List.exists_cons_of_ne_nil h
  cases leading with
  | true =>
    have hw : (Expr.path (name :: names) true false).words =
        .mark .colonColon :: pathWords (name :: names) := rfl
    rw [hw, layout_cons rfl, List.cons_append, primary_path (.inr rfl)]
    · exact pathExpr_reads R name names (accept_eq_true rfl) hr
    · have hd := dropPathWords_words name names (p.right ((Word.mark .colonColon).width + 1)) hr
      change headIs (.punct .bang) (dropPathWords _) = false
      rw [hd, hr.2]
  | false =>
    have hk := token_pathWordOf name p
    obtain ⟨us, hus⟩ := layout_pathWords name names p
    have hd := dropPathWords_words name names p hr
    change primary R (layout p (pathWords (name :: names)) ++ rest) = _
    have he : pathExpr R (layout p (pathWords (name :: names)) ++ rest) =
        .ok (.path (name :: names) false false, rest) := by
      refine pathExpr_reads R name names (accept_eq_false ?_) hr
      rw [hus, List.cons_append, headIs_cons, beq_eq_false_iff_ne]
      intro hc
      rw [hc] at hk
      cases hk
    rw [hus, List.cons_append] at hd he ⊢
    rw [primary_path (.inl hk), he]
    have hc : ((pathWordOf name).token p).kind ≠ .punct .colonColon := by
      intro hc
      rw [hc] at hk
      cases hk
    simp only [startsMacro, if_neg hc, if_pos hk, hd]
    exact hr.2

/-! ## Elements -/

/-- The words that may stand behind an expression. -/
def stops : List Word :=
  [.mark .comma, .mark .semicolon, .closer .bracket, .closer .paren, .closer .brace]

/-- What is left starts with a word that may stand behind an expression. -/
def Stopped (ts : List Token) : Prop := ∃ w ∈ stops, ∃ p rest, ts = w.token p :: rest

theorem Stopped.comma (p : Position) (ts : List Token) :
    Stopped ((Word.mark .comma).token p :: ts) := ⟨_, by simp [stops], p, ts, rfl⟩

theorem Stopped.closer (d : Delim) (p : Position) (ts : List Token) :
    Stopped ((Word.closer d).token p :: ts) := ⟨_, by cases d <;> simp [stops], p, ts, rfl⟩

theorem Stopped.moreWords (es : List Expr) (d : Delim) (p q : Position) (ts : List Token) :
    Stopped (layout p (moreWords es) ++ (Word.closer d).token q :: ts) := by
  cases es with
  | nil => exact .closer d q ts
  | cons e es =>
    rw [Ferrotype.moreWords, layout_cons rfl]
    exact .comma _ _

theorem headIs_moreWords (es : List Expr) (d : Delim) (p q : Position) (ts : List Token) :
    headIs (.punct .semicolon) (layout p (moreWords es) ++ (Word.closer d).token q :: ts) = false := by
  cases es with
  | nil => rfl
  | cons e es =>
    rw [moreWords, layout_cons rfl]
    rfl

theorem Stopped.done (h : Stopped ts) : Done ts := by
  obtain ⟨w, hw, p, rest, rfl⟩ := h
  simp only [stops, List.mem_cons, List.not_mem_nil, or_false] at hw
  rcases hw with rfl | rfl | rfl | rfl | rfl <;> rfl

/-- A token that starts no shift is an operator by itself. -/
theorem operatorAt?_alone (h : shiftAt? (t :: ts) = none) : operatorAt? (t :: ts) =
    if t.kind = .identifier then none else (BinaryOp.ofText? t.text).map fun op => (op, 1) := by
  rw [operatorAt?, h]

theorem shiftAt?_cons (hl : t.kind ≠ .punct .lt) (hg : t.kind ≠ .punct .gt) (ts : List Token) :
    shiftAt? (t :: ts) = none := by
  cases ts <;> simp [shiftAt?, hl, hg]

theorem Stopped.looser (h : Stopped ts) (least : Nat) : Looser least ts := by
  intro op width ho
  obtain ⟨w, hw, p, rest, rfl⟩ := h
  simp only [stops, List.mem_cons, List.not_mem_nil, or_false] at hw
  rcases hw with rfl | rfl | rfl | rfl | rfl
  all_goals
    rw [operatorAt?_alone (shiftAt?_cons (by rintro ⟨⟩) (by rintro ⟨⟩) _)] at ho
    cases ho

/-- An expression starts with no closer, and is read up to a word that may stand behind it. -/
structure Element (R : Rules) (e : Expr) : Prop where
  first : ∃ w ws, e.words = w :: ws ∧ ∀ d, w.kind ≠ .closer d
  reads : ∀ p rest, Stopped rest → R.binary 1 (layout p e.words ++ rest) = .ok (e, rest)

theorem Element.headIs {e : Expr} (h : Element R e) (p : Position) (d : Delim) (rest : List Token) :
    headIs (.closer d) (layout p e.words ++ rest) = false := by
  obtain ⟨w, ws, hw, hd⟩ := h.first
  rw [hw]
  exact beq_eq_false_iff_ne.2 (hd d)

theorem Element.entry {e : Expr} (h : Element R e) (line : Nat) (d : Delim) :
    Entry line Stopped (Word.closer d).kind (R.binary 1) e.words e := by
  obtain ⟨w, ws, hw, hd⟩ := h.first
  exact ⟨⟨w, ws, hw, hd d⟩, fun p rest _ hr => h.reads p rest hr⟩

theorem entries {es : List Expr} (h : ∀ e ∈ es, Element R e) (line : Nat) (d : Delim) :
    List.Forall₂ (Entry line Stopped (Word.closer d).kind (R.binary 1)) (es.map Expr.words) es := by
  rw [List.forall₂_map_left_iff, List.forall₂_same]
  exact fun e he => (h e he).entry line d

/-- Elements with a comma before each are read up to a closer. -/
theorem moreElements_reads (d : Delim) {es : List Expr} (h : ∀ e ∈ es, Element R e)
    (p q : Position) (rest : List Token) :
    moreElements (.closer d) (R.binary 1)
      (layout p (moreWords es) ++ (Word.closer d).token q :: rest) =
        .ok (es, (Word.closer d).token q :: rest) := by
  rw [moreWords_eq]
  exact moreElements_entries Stopped.comma (Stopped.closer d) nofun (entries h p.line d) rfl q rest

/-- Elements with commas between them are read up to a closer. -/
theorem commaList_reads (d : Delim) {es : List Expr} (h : ∀ e ∈ es, Element R e)
    (p q : Position) (rest : List Token) :
    commaList (.closer d) (R.binary 1)
      (layout p (listWords es) ++ (Word.closer d).token q :: rest) =
        .ok (es, (Word.closer d).token q :: rest) := by
  rw [listWords_eq]
  exact commaList_entries Stopped.comma (Stopped.closer d) nofun (entries h p.line d) rfl q rest

/-! ## Brackets -/

theorem primary_paren (p : Position) (ts : List Token) :
    primary R ((Word.opener .paren).token p :: ts) =
      parenOrTuple (R.binary 1) .paren .tuple ((Word.opener .paren).token p :: ts) := rfl

theorem primary_bracket (p : Position) (ts : List Token) :
    primary R ((Word.opener .bracket).token p :: ts) =
      (do return .array (← arrayElements R) : Rule Expr) ((Word.opener .bracket).token p :: ts) :=
  rfl

theorem paren_reads {e : Expr} (h : Element R e) : PrimaryReads R (.paren e) := by
  intro p rest _
  rw [Expr.words, layout_cons rfl, layout_append, layout_cons rfl, List.cons_append,
    List.append_assoc, primary_paren]
  unfold parenOrTuple
  rw [bind_ok (expect_opener _ _ _ _), bind_ok (accept_eq_false (h.headIs _ _ _))]
  change (R.binary 1 >>= _) _ = _
  rw [List.cons_append, bind_ok (h.reads _ _ (.closer _ _ _)), bind_ok (accept_closer _ _ _)]
  rfl

theorem tuple_reads {es : List Expr} (h : ∀ e ∈ es, Element R e) : PrimaryReads R (.tuple es) := by
  intro p rest _
  match es, h with
  | [], _ => rfl
  | [e], h =>
    rw [List.forall_mem_singleton] at h
    rw [Expr.words, layout_cons rfl, layout_append, List.cons_append, List.append_assoc,
      primary_paren]
    exact tuple_pieces ((h.entry _ .paren).piece rfl) (.comma _ _) rfl (many_stop rfl)
  | e :: e' :: es, h =>
    rw [List.forall_mem_cons] at h
    have hw : (Expr.tuple (e :: e' :: es)).words =
        .opener .paren :: (e.words ++ (moreWords (e' :: es) ++ [.closer .paren])) := by
      simp [Expr.words, listWords]
    rw [hw, layout_cons rfl, layout_append, layout_append, List.cons_append, List.append_assoc,
      List.append_assoc, primary_paren]
    exact tuple_pieces ((h.1.entry _ .paren).piece rfl) (.moreWords _ _ _ _ _) rfl
      (moreElements_reads .paren h.2 _ _ rest)

theorem array_reads {es : List Expr} (h : ∀ e ∈ es, Element R e) : PrimaryReads R (.array es) := by
  intro p rest _
  cases es with
  | nil => rfl
  | cons e es =>
    rw [List.forall_mem_cons] at h
    have hw : (Expr.array (e :: es)).words =
        .opener .bracket :: (e.words ++ (moreWords es ++ [.closer .bracket])) := by
      simp [Expr.words, listWords]
    rw [hw, layout_cons rfl, layout_append, layout_append, layout_cons rfl, List.cons_append,
      List.append_assoc, List.append_assoc, List.cons_append, primary_bracket, arrayElements]
    simp only [bind_assoc]
    rw [bind_ok (expect_opener _ _ _ _), bind_ok (accept_eq_false (h.1.headIs _ _ _)),
      if_neg Bool.false_ne_true]
    simp only [bind_assoc]
    rw [bind_ok (h.1.reads _ _ (.moreWords _ _ _ _ _)),
      bind_ok (accept_eq_false (headIs_moreWords es .bracket _ _ _)), if_neg Bool.false_ne_true]
    simp only [bind_assoc]
    rw [bind_ok (moreElements_reads .bracket h.2 _ _ _), bind_ok (expect_closer _ _ _ _)]
    rfl

end Grammar

end Ferrotype
