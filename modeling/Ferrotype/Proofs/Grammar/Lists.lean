import Ferrotype.Proofs.Grammar.Run
import Ferrotype.Proofs.Token.Words
import Mathlib.Data.List.Forall2

/-!
# Lists are read

Elements with commas between them are read one by one, up to the token that closes the list. They
are tokens that stand anywhere, or words on a line.
-/

namespace Ferrotype

namespace Grammar

open Rule

variable {α : Type} {ts rest : List Token}

/-! ## Steps -/

theorem headIs_cons (kind : Kind) (t : Token) (ts : List Token) :
    headIs kind (t :: ts) = (t.kind == kind) := rfl

/-- A class of kinds tells the first token from a kind. -/
theorem headIs_apart (p : Kind → Bool) {kind : Kind} {t : Token} (h : p t.kind ≠ p kind)
    (ts : List Token) : headIs kind (t :: ts) = false := by
  rw [headIs_cons, beq_eq_false_iff_ne]
  rintro rfl
  exact h rfl

theorem headIs_of_any_eq_false {p : Kind → Bool} {kind : Kind}
    (h : (ts.head?.any fun t => p t.kind) = false) (hk : p kind = true) :
    headIs kind ts = false := by
  cases ts with
  | nil => rfl
  | cons t ts =>
    have ht : p t.kind = false := h
    exact headIs_apart p (by simp [ht, hk]) ts

theorem isAt_eq_false {kind : Kind} (h : headIs kind ts = false) :
    isAt kind ts = .ok (false, ts) := run_isAt.2 ⟨h.symm, rfl⟩

/-- Without the token a rule takes its other way. -/
theorem isAt_else {kind : Kind} (h : headIs kind ts = false) {x y : Rule α} :
    (isAt kind >>= fun b => if b = true then x else y) ts = y ts := by
  rw [bind_ok (isAt_eq_false h), if_neg Bool.false_ne_true]

theorem accept_else {kind : Kind} (h : headIs kind ts = false) {x y : Rule α} :
    (accept kind >>= fun b => if b = true then x else y) ts = y ts := by
  rw [bind_ok (accept_eq_false h), if_neg Bool.false_ne_true]

theorem isAt_word (w : Word) (p : Position) (ts : List Token) :
    isAt w.kind (w.token p :: ts) = .ok (true, w.token p :: ts) := by
  refine run_isAt.2 ⟨?_, rfl⟩
  rw [headIs_cons]
  exact (beq_self_eq_true _).symm

theorem accept_word (w : Word) (p : Position) (ts : List Token) :
    accept w.kind (w.token p :: ts) = .ok (true, ts) := accept_eq_true rfl

theorem accept_word_ne {w : Word} {kind : Kind} (h : w.kind ≠ kind) (p : Position)
    (ts : List Token) : accept kind (w.token p :: ts) = .ok (false, w.token p :: ts) :=
  accept_eq_false (beq_eq_false_iff_ne.2 h)

theorem expect_word (w : Word) (note : String) (p : Position) (ts : List Token) :
    (discard (expect w.kind note) : Rule PUnit) (w.token p :: ts) = .ok (⟨⟩, ts) :=
  run_discard.2 ⟨_, run_expect.2 ⟨rfl, rfl⟩⟩

/-! ### Words by their kinds, as rules name them -/

theorem isAt_opener (d : Delim) (p : Position) (ts : List Token) :
    isAt (.opener d) ((Word.opener d).token p :: ts) =
      .ok (true, (Word.opener d).token p :: ts) := isAt_word _ p ts

theorem isAt_mark (m : Punct) (p : Position) (ts : List Token) :
    isAt (.punct m) ((Word.mark m).token p :: ts) = .ok (true, (Word.mark m).token p :: ts) :=
  isAt_word _ p ts

theorem accept_mark (m : Punct) (p : Position) (ts : List Token) :
    accept (.punct m) ((Word.mark m).token p :: ts) = .ok (true, ts) := accept_word _ p ts

theorem accept_keyword (k : Keyword) (p : Position) (ts : List Token) :
    accept (.keyword k) ((Word.keyword k).token p :: ts) = .ok (true, ts) := accept_word _ p ts

theorem accept_opener (d : Delim) (p : Position) (ts : List Token) :
    accept (.opener d) ((Word.opener d).token p :: ts) = .ok (true, ts) := accept_word _ p ts

theorem accept_closer (d : Delim) (p : Position) (ts : List Token) :
    accept (.closer d) ((Word.closer d).token p :: ts) = .ok (true, ts) := accept_word _ p ts

theorem expect_mark (m : Punct) (note : String) (p : Position) (ts : List Token) :
    (discard (expect (.punct m) note) : Rule PUnit) ((Word.mark m).token p :: ts) =
      .ok (⟨⟩, ts) := expect_word _ note p ts

theorem expect_keyword (k : Keyword) (note : String) (p : Position) (ts : List Token) :
    (discard (expect (.keyword k) note) : Rule PUnit) ((Word.keyword k).token p :: ts) =
      .ok (⟨⟩, ts) := expect_word _ note p ts

theorem expect_opener (d : Delim) (note : String) (p : Position) (ts : List Token) :
    (discard (expect (.opener d) note) : Rule PUnit) ((Word.opener d).token p :: ts) =
      .ok (⟨⟩, ts) := expect_word _ note p ts

theorem expect_closer (d : Delim) (note : String) (p : Position) (ts : List Token) :
    (discard (expect (.closer d) note) : Rule PUnit) ((Word.closer d).token p :: ts) =
      .ok (⟨⟩, ts) := expect_word _ note p ts

/-! ## Pieces -/

/-- Tokens that are read as `a`, up to tokens that may stand behind them. The first closes no list. -/
structure Piece (After : List Token → Prop) (closer : Kind) (x : Rule α) (us : List Token) (a : α) :
    Prop where
  first : ∃ t vs, us = t :: vs ∧ t.kind ≠ closer
  reads : ∀ rest, After rest → x (us ++ rest) = .ok (a, rest)

theorem Piece.headIs {After : List Token → Prop} {closer : Kind} {x : Rule α} {us : List Token}
    {a : α} (h : Piece After closer x us a) (rest : List Token) :
    headIs closer (us ++ rest) = false := by
  obtain ⟨t, vs, rfl, hk⟩ := h.first
  exact beq_eq_false_iff_ne.2 hk

/-- Pieces with a comma before each. -/
inductive CommaBefore : List (List Token) → List Token → Prop where
  | nil : CommaBefore [] []
  | cons {us ts : List Token} {uss : List (List Token)} (p : Position) (h : CommaBefore uss ts) :
    CommaBefore (us :: uss) ((Word.mark .comma).token p :: (us ++ ts))

/-- Pieces with commas between them. -/
inductive CommaBetween : List (List Token) → List Token → Prop where
  | nil : CommaBetween [] []
  | cons {us ts : List Token} {uss : List (List Token)} (h : CommaBefore uss ts) :
    CommaBetween (us :: uss) (us ++ ts)

section

variable {After : List Token → Prop} {close : Word} {x : Rule α} {uss : List (List Token)}
  {as : List α}

/-- Every turn reads a piece with the comma behind it, and the last turn stops at the closer. -/
theorem many_pieces {turn : Rule (Turn α)} (q : Position) (rest : List Token)
    (stop : turn (close.token q :: rest) = .ok (.stop, close.token q :: rest))
    (last : ∀ us a, Piece After close.kind x us a →
      turn (us ++ close.token q :: rest) = .ok (.last a, close.token q :: rest))
    (more : ∀ us a, Piece After close.kind x us a → ∀ p ts,
      turn (us ++ (Word.mark .comma).token p :: ts) = .ok (.more a, ts))
    (hc : CommaBetween uss ts) (h : List.Forall₂ (Piece After close.kind x) uss as) :
    many turn (ts ++ close.token q :: rest) = .ok (as, close.token q :: rest) := by
  cases hc with
  | nil =>
    cases h
    exact many_stop stop
  | @cons us ts uss hc =>
    cases h with
    | @cons _ a _ as ha h =>
    -- On the pieces behind `us`, which is the one that the next turn reads.
    induction hc generalizing us a as with
    | nil =>
      cases h
      rw [List.append_nil]
      exact many_last (last us a ha)
    | @cons us' ts uss p hc ih =>
      cases h with
      | @cons _ a' _ as ha' h =>
      rw [List.append_assoc, List.cons_append]
      refine many_more (more us a ha p _) ?_ (ih ha' h)
      simp only [List.length_append, List.length_cons]
      omega

variable (comma : ∀ p ts, After ((Word.mark .comma).token p :: ts))
  (closed : ∀ p ts, After (close.token p :: ts)) (hk : close.kind ≠ .punct .comma)

include comma closed hk

theorem commaList_pieces (hc : CommaBetween uss ts)
    (h : List.Forall₂ (Piece After close.kind x) uss as) (q : Position) (rest : List Token) :
    commaList close.kind x (ts ++ close.token q :: rest) = .ok (as, close.token q :: rest) := by
  refine many_pieces q rest ?_ (fun us a ha => ?_) (fun us a ha p ts => ?_) hc h
  · rw [bind_ok (isAt_word _ _ _)]
    rfl
  · rw [isAt_else (ha.headIs _), bind_ok (ha.reads _ (closed q rest)),
      bind_ok (accept_word_ne hk _ _)]
    rfl
  · rw [isAt_else (ha.headIs _), bind_ok (ha.reads _ (comma p ts)), bind_ok (accept_mark _ _ _)]
    rfl

theorem strictCommaList_pieces {fault : Expectation} (hc : CommaBetween uss ts)
    (h : List.Forall₂ (Piece After close.kind x) uss as) (q : Position) (rest : List Token) :
    strictCommaList close.kind fault x (ts ++ close.token q :: rest) =
      .ok (as, close.token q :: rest) := by
  refine many_pieces q rest ?_ (fun us a ha => ?_) (fun us a ha p ts => ?_) hc h
  · rw [bind_ok (isAt_word _ _ _)]
    rfl
  · rw [isAt_else (ha.headIs _), bind_ok (ha.reads _ (closed q rest)),
      bind_ok (accept_word_ne hk _ _), if_neg Bool.false_ne_true, bind_ok (isAt_word _ _ _)]
    rfl
  · rw [isAt_else (ha.headIs _), bind_ok (ha.reads _ (comma p ts)), bind_ok (accept_mark _ _ _)]
    rfl

/-- Pieces with a comma before each. -/
theorem moreElements_pieces (hc : CommaBefore uss ts)
    (h : List.Forall₂ (Piece After close.kind x) uss as) (q : Position) (rest : List Token) :
    moreElements close.kind x (ts ++ close.token q :: rest) = .ok (as, close.token q :: rest) := by
  induction hc generalizing as with
  | nil =>
    cases h
    refine many_stop ?_
    rw [List.nil_append, bind_ok (accept_word_ne hk _ _)]
    rfl
  | @cons us ts uss p hc ih =>
    cases h with
    | cons ha h =>
    have hafter : After (ts ++ close.token q :: rest) := by
      cases hc with
      | nil => exact closed q rest
      | cons => exact comma _ _
    rw [List.cons_append, List.append_assoc]
    refine many_more ?_ ?_ (ih h)
    · rw [bind_ok (accept_mark _ _ _), if_pos rfl, isAt_else (ha.headIs _),
        bind_ok (ha.reads _ hafter)]
      rfl
    · simp only [List.length_cons, List.length_append]
      omega

end

/-- A tuple, of which the first element has a comma behind it. -/
theorem tuple_pieces {After : List Token → Prop} {x : Rule α} {us : List Token} {a : α}
    {as : List α} {paren : α → α} {tuple : List α → α} (ha : Piece After (.closer .paren) x us a)
    {o q : Position} {mid : List Token} (hm : After mid) (hc : headIs (.closer .paren) mid = false)
    (has : moreElements (.closer .paren) x mid = .ok (as, (Word.closer .paren).token q :: rest)) :
    parenOrTuple x paren tuple ((Word.opener .paren).token o :: (us ++ mid)) =
      .ok (tuple (a :: as), rest) := by
  unfold parenOrTuple
  rw [bind_ok (expect_opener _ _ _ _), accept_else (ha.headIs _), bind_ok (ha.reads _ hm),
    accept_else hc, bind_ok has, bind_ok (expect_closer _ _ _ _)]
  rfl

/-! ## Elements on a line -/

/--
An element that is written on a line as the words `ws`, and read up to tokens that may stand
behind it. The first word closes no list.
-/
structure Entry (line : Nat) (After : List Token → Prop) (closer : Kind) (x : Rule α)
    (ws : List Word) (a : α) : Prop where
  first : ∃ w vs, ws = w :: vs ∧ w.kind ≠ closer
  reads : ∀ p rest, p.line = line → After rest → x (layout p ws ++ rest) = .ok (a, rest)

theorem Entry.piece {line : Nat} {After : List Token → Prop} {closer : Kind} {x : Rule α}
    {ws : List Word} {a : α} (h : Entry line After closer x ws a) {p : Position}
    (hp : p.line = line) : Piece After closer x (layout p ws) a := by
  obtain ⟨w, vs, rfl, hk⟩ := h.first
  exact ⟨⟨_, _, rfl, hk⟩, fun rest hr => h.reads p rest hp hr⟩

/-- Elements that are written by `f` and read as `g`. -/
theorem entries_map {ι : Type} {line : Nat} {After : List Token → Prop} {closer : Kind}
    {x : Rule α} {f : ι → List Word} {g : ι → α} {is : List ι}
    (h : ∀ i ∈ is, Entry line After closer x (f i) (g i)) :
    List.Forall₂ (Entry line After closer x) (is.map f) (is.map g) := by
  rw [List.forall₂_map_left_iff, List.forall₂_map_right_iff, List.forall₂_same]
  exact h

section

variable {line : Nat} {After : List Token → Prop} {close : Word} {x : Rule α}
  {wss : List (List Word)} {as : List α}

theorem pieces_before {closer : Kind} (h : List.Forall₂ (Entry line After closer x) wss as)
    {p : Position} (hp : p.line = line) : ∃ uss, CommaBefore uss (layout p (commaBefore wss)) ∧
      List.Forall₂ (Piece After closer x) uss as := by
  induction h generalizing p with
  | nil => exact ⟨[], .nil, .nil⟩
  | @cons ws a wss as ha h ih =>
    have hq : (p.right ((Word.mark .comma).width + 1)).line = line := hp
    obtain ⟨uss, hc, hu⟩ := ih ((line_behind _ ws).trans hq)
    rw [commaBefore, layout_cons rfl, layout_append]
    exact ⟨_, .cons _ hc, .cons (ha.piece hq) hu⟩

theorem pieces_between {closer : Kind} (h : List.Forall₂ (Entry line After closer x) wss as)
    {p : Position} (hp : p.line = line) : ∃ uss, CommaBetween uss (layout p (commaBetween wss)) ∧
      List.Forall₂ (Piece After closer x) uss as := by
  cases h with
  | nil => exact ⟨[], .nil, .nil⟩
  | @cons ws a wss as ha h =>
    obtain ⟨uss, hc, hu⟩ := pieces_before h ((line_behind p ws).trans hp)
    rw [commaBetween, layout_append]
    exact ⟨_, .cons hc, .cons (ha.piece hp) hu⟩

variable (comma : ∀ p ts, After ((Word.mark .comma).token p :: ts))
  (closed : ∀ p ts, After (close.token p :: ts)) (hk : close.kind ≠ .punct .comma)

include comma closed hk

theorem commaList_entries (h : List.Forall₂ (Entry line After close.kind x) wss as) {p : Position}
    (hp : p.line = line) (q : Position) (rest : List Token) :
    commaList close.kind x (layout p (commaBetween wss) ++ close.token q :: rest) =
      .ok (as, close.token q :: rest) := by
  obtain ⟨uss, hc, hu⟩ := pieces_between h hp
  exact commaList_pieces comma closed hk hc hu q rest

/-- Elements with a comma before each. -/
theorem moreElements_entries (h : List.Forall₂ (Entry line After close.kind x) wss as)
    {p : Position} (hp : p.line = line) (q : Position) (rest : List Token) :
    moreElements close.kind x (layout p (commaBefore wss) ++ close.token q :: rest) =
      .ok (as, close.token q :: rest) := by
  obtain ⟨uss, hc, hu⟩ := pieces_before h hp
  exact moreElements_pieces comma closed hk hc hu q rest

end

/-! ## Elements anywhere -/

section

variable {ι : Type} {After : List Token → Prop} {closer : Kind} {x : Rule α} {f : ι → List Word}
  {g : ι → α} {is : List ι}

theorem spelled_before
    (h : ∀ i ∈ is, ∀ us, Spells (f i) us → Piece After closer x us (g i))
    (hs : Spells (commaBefore (is.map f)) ts) :
    ∃ uss, CommaBefore uss ts ∧ List.Forall₂ (Piece After closer x) uss (is.map g) := by
  induction is generalizing ts with
  | nil =>
    obtain rfl := spells_nil.1 hs
    exact ⟨[], .nil, .nil⟩
  | cons i is ih =>
    rw [List.forall_mem_cons] at h
    obtain ⟨p, ts, rfl, ht⟩ := hs.cons
    obtain ⟨us, ts, rfl, hu, ht⟩ := ht.append
    obtain ⟨uss, hc, hp⟩ := ih h.2 ht
    exact ⟨_, .cons p hc, .cons (h.1 us hu) hp⟩

theorem spelled_between
    (h : ∀ i ∈ is, ∀ us, Spells (f i) us → Piece After closer x us (g i))
    (hs : Spells (commaBetween (is.map f)) ts) :
    ∃ uss, CommaBetween uss ts ∧ List.Forall₂ (Piece After closer x) uss (is.map g) := by
  cases is with
  | nil =>
    obtain rfl := spells_nil.1 hs
    exact ⟨[], .nil, .nil⟩
  | cons i is =>
    rw [List.forall_mem_cons] at h
    obtain ⟨us, ts, rfl, hu, ht⟩ := hs.append
    obtain ⟨uss, hc, hp⟩ := spelled_before h.2 ht
    exact ⟨_, .cons hc, .cons (h.1 us hu) hp⟩

end

end Grammar

end Ferrotype
