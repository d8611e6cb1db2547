import Ferrotype.Proofs.Grammar.Operators
import Ferrotype.Proofs.Partition
import Ferrotype.Proofs.Token.Number
import Ferrotype.Proofs.TokenTrees

/-!
# Shifts

Two angle brackets of one kind are taken for a shift by their lines and columns. In the text they
are one just if the second starts at the character behind the first.
-/

namespace Ferrotype

open Grammar

variable {before s t gap : List Char} {ls ms : List (Lexeme × Position)} {l : Lexeme × Position}
  {p : Position} {source : String} {tokens : Tokens} {i : Nat}

theorem Punct.newline_notMem (m : Punct) : '\n' ∉ m.text.toList := by
  cases m <;> decide

/-! ## Places tell texts apart -/

/-- A text that goes on ends in another place. -/
theorem placeBehind_append_eq : placeBehind (s ++ t) = placeBehind s ↔ t = [] := by
  constructor
  · intro h
    by_cases hn : '\n' ∈ t
    · have hl := congrArg Position.line h
      have hc := List.count_pos_iff.2 hn
      simp only [placeBehind, List.count_append] at hl
      omega
    · rw [← placeBehind_after, Position.after_right hn] at h
      have hc := congrArg Position.column h
      simp only [Position.right] at hc
      exact List.length_eq_zero_iff.1 (by omega)
  · rintro rfl
    rw [List.append_nil]

/--
Two tokens of one text are adjacent just if no character stands between them. The first must be
written as its text, without line ends.
-/
theorem adjacent_placed {a b : Token} (hn : '\n' ∉ a.text.toList)
    (ha : a.place = placeBehind before)
    (hb : b.place = placeBehind (before ++ a.text.toList ++ gap)) :
    adjacent a b = decide (gap = []) := by
  have hp : placeBehind (before ++ a.text.toList) = a.place.right a.text.length := by
    rw [ha, ← placeBehind_after, Position.after_right hn, String.length_toList]
  have hg : gap = [] ↔ b.place = a.place.right a.text.length := by
    rw [hb, ← hp, placeBehind_append_eq]
  rw [Bool.eq_iff_iff, decide_eq_true_iff, hg]
  obtain ⟨kind, text, line, column⟩ := b
  simp only [adjacent, Position.right, Bool.and_eq_true, beq_iff_eq, Position.mk.injEq]
  omega

/-! ## Offsets of tokens -/

def charsOf (ls : List (Lexeme × Position)) : List Char := ls.flatMap fun l => l.1.chars

def tokensOf (ls : List (Lexeme × Position)) : List Token := ls.filterMap fun l => l.1.token? l.2

/-- Where the lexemes with a token start, in characters, if the first lexeme starts at `n`. -/
def offsetsFrom (n : Nat) : List (Lexeme × Position) → List Nat
  | [] => []
  | l :: ls =>
    (if l.1.token.isSome then [n] else []) ++ offsetsFrom (n + l.1.chars.length) ls

/-- Where the tokens of a text start, in characters from the start of the text. -/
def tokenOffsets (source : String) : List Nat :=
  match lexemes source.toList with
  | .ok ls => offsetsFrom 0 ls
  | .error _ => []

@[simp] theorem charsOf_nil : charsOf [] = [] := rfl

@[simp] theorem charsOf_cons (l : Lexeme × Position) (ls : List (Lexeme × Position)) :
    charsOf (l :: ls) = l.1.chars ++ charsOf ls := rfl

theorem tokensOf_cons (l : Lexeme × Position) (ls : List (Lexeme × Position)) :
    tokensOf (l :: ls) = (l.1.token? l.2).toList ++ tokensOf ls := by
  rw [tokensOf, List.filterMap_cons]
  cases l.1.token? l.2 <;> rfl

theorem offsetsFrom_append (n : Nat) (ls ms : List (Lexeme × Position)) :
    offsetsFrom n (ls ++ ms) = offsetsFrom n ls ++ offsetsFrom (n + (charsOf ls).length) ms := by
  induction ls generalizing n with
  | nil => rfl
  | cons l ls ih =>
    simp only [List.cons_append, offsetsFrom, ih, charsOf_cons, List.length_append,
      List.append_assoc, Nat.add_assoc]

theorem length_offsetsFrom (n : Nat) (ls : List (Lexeme × Position)) :
    (offsetsFrom n ls).length = (tokensOf ls).length := by
  induction ls generalizing n with
  | nil => rfl
  | cons l ls ih =>
    rw [offsetsFrom, tokensOf_cons, List.length_append, List.length_append, ih, Lexeme.token?]
    cases l.1.token <;> rfl

/-! ## Lexemes and their places -/

theorem lexemesFrom_eq_cons (h : lexemesFrom p s = .ok (l :: ls)) :
    ∃ c t rest, s = c :: t ∧ firstLexeme c t = .ok (l.1, rest) ∧ l.2 = p ∧
      lexemesFrom (p.after l.1.chars) rest = .ok ls := by
  cases s with
  | nil =>
    rw [lexemesFrom] at h
    cases h
  | cons c t =>
    cases hf : firstLexeme c t with
    | error fault =>
      have ht := tokensFrom_fault hf p
      rw [tokensFrom, h] at ht
      cases ht
    | ok r =>
      obtain ⟨lexeme, rest⟩ := r
      rw [lexemesFrom_ok hf] at h
      obtain ⟨ls', hr, hl⟩ := Except.map_eq_ok.1 h
      cases hl
      exact ⟨c, t, rest, rfl, hf, rfl, hr⟩

/-- Lexemes make up the text in front of the next one, which is placed behind them. -/
theorem lexemesFrom_append (h : lexemesFrom (placeBehind before) s = .ok (ls ++ ms)) :
    ∃ rest, s = charsOf ls ++ rest ∧ Partition before (charsOf ls) (tokensOf ls) ∧
      lexemesFrom (placeBehind (before ++ charsOf ls)) rest = .ok ms := by
  induction ls generalizing before s with
  | nil => exact ⟨s, rfl, .nil, by simpa using h⟩
  | cons l ls ih =>
    obtain ⟨lexeme, p⟩ := l
    obtain ⟨c, t, mid, rfl, hf, rfl, hm⟩ := lexemesFrom_eq_cons h
    rw [placeBehind_after] at hm
    obtain ⟨rest, rfl, hp, hr⟩ := ih hm
    obtain ⟨happ, hne⟩ := splits_firstLexeme _ _ _ _ hf
    refine ⟨rest, ?_, ?_, ?_⟩
    · rw [← happ, charsOf_cons, List.append_assoc]
    · rw [tokensOf_cons]
      exact (sound_firstLexeme _ _ _ _ hf).partition hne (List.prefix_append _ _) hp
    · rwa [charsOf_cons, ← List.append_assoc]

theorem drop_offsetsFrom (n : Nat) (h : (tokensOf ls).length = i) :
    (offsetsFrom n (ls ++ ms)).drop i = offsetsFrom (n + (charsOf ls).length) ms := by
  rw [offsetsFrom_append, List.drop_left' ((length_offsetsFrom n ls).trans h)]

theorem offsetsFrom_token {t : Token} (h : l.1.token? l.2 = some t) (n : Nat)
    (ls : List (Lexeme × Position)) :
    offsetsFrom n (l :: ls) = n :: offsetsFrom (n + l.1.chars.length) ls := by
  obtain ⟨r, hr, -⟩ := Option.map_eq_some_iff.1 h
  rw [offsetsFrom, hr]
  rfl

/-- The tokens of a whole text and their offsets are those behind its interpreter line. -/
theorem tokenize_lexemes (h : tokenize source = .ok tokens) : ∃ ls,
    lexemesFrom (placeBehind (shebang source.toList))
      (source.toList.drop (shebang source.toList).length) = .ok ls ∧
    tokens.list = tokensOf ls ∧
    tokenOffsets source = offsetsFrom (shebang source.toList).length ls := by
  have hp : Position.start.after (shebang source.toList) = placeBehind (shebang source.toList) :=
    placeBehind_after [] _
  rw [← hp]
  unfold tokenize at h
  unfold tokenOffsets
  split at h
  · cases h
  next ls hl =>
  cases h
  rw [hl]
  unfold lexemes at hl
  split at hl
  · next hs =>
    rw [hs]
    exact ⟨ls, hl, rfl, rfl⟩
  · obtain ⟨ls, hr, rfl⟩ := Except.map_eq_ok.1 hl
    exact ⟨ls, hr, rfl, by simp [offsetsFrom, Lexeme.skipped]⟩

/-! ## Two marks in a row -/

/-- Two tokens in a row are of two lexemes, and those between them have no token. -/
theorem tokensOf_neighbours {t u : Token} {us : List Token}
    (h : (tokensOf ls).drop i = t :: u :: us) :
    ∃ front x gap y back, ls = front ++ x :: (gap ++ y :: back) ∧ (tokensOf front).length = i ∧
      x.1.token? x.2 = some t ∧ tokensOf gap = [] ∧ y.1.token? y.2 = some u := by
  have hi : i < (tokensOf ls).length := List.length_lt_of_drop_ne_nil (by simp [h])
  have hts : tokensOf ls = (tokensOf ls).take i ++ t :: u :: us := by
    rw [← h, List.take_append_drop]
  obtain ⟨front, back, rfl, hf, hb⟩ := List.filterMap_eq_append_iff.1 hts
  obtain ⟨skipped, x, back, rfl, hs, hx, hb⟩ := List.filterMap_eq_cons_iff.1 hb
  obtain ⟨gap, y, back, rfl, hg, hy, -⟩ := List.filterMap_eq_cons_iff.1 hb
  refine ⟨front ++ skipped, x, gap, y, back, by simp, ?_, hx, List.filterMap_eq_nil_iff.2 hg, hy⟩
  rw [tokensOf, List.filterMap_append, List.filterMap_eq_nil_iff.2 hs, List.append_nil, hf,
    List.length_take, Nat.min_eq_left hi.le]

theorem offsetsFrom_neighbours {front gap : List (Lexeme × Position)} {x y : Lexeme × Position}
    {t u : Token} (hf : (tokensOf front).length = i) (hx : x.1.token? x.2 = some t)
    (hg : tokensOf gap = []) (hy : y.1.token? y.2 = some u) (n : Nat)
    (back : List (Lexeme × Position)) :
    ∃ ns, (offsetsFrom n (front ++ x :: (gap ++ y :: back))).drop i =
      (n + (charsOf front).length) ::
        (n + (charsOf front).length + x.1.chars.length + (charsOf gap).length) :: ns := by
  have hgap (n : Nat) : offsetsFrom n (gap ++ y :: back) =
      offsetsFrom (n + (charsOf gap).length) (y :: back) :=
    drop_offsetsFrom n (congrArg List.length hg)
  rw [drop_offsetsFrom n hf, offsetsFrom_token hx, hgap, offsetsFrom_token hy]
  exact ⟨_, rfl⟩

/-- A mark among the lexemes stands in the text behind the characters of those in front of it. -/
theorem mark_of_lexemesFrom {t : Token} {m : Punct}
    (h : lexemesFrom (placeBehind before) s = .ok (ls ++ l :: ms))
    (ht : l.1.token? l.2 = some t) (hk : t.kind = .punct m) :
    ∃ rest, s = charsOf ls ++ (m.text.toList ++ rest) ∧ l.1.chars = m.text.toList ∧
      t = ⟨.punct m, m.text, placeBehind (before ++ charsOf ls)⟩ ∧
      Partition before (charsOf ls) (tokensOf ls) ∧
      lexemesFrom (placeBehind (before ++ charsOf ls ++ m.text.toList)) rest = .ok ms := by
  obtain ⟨lexeme, p⟩ := l
  obtain ⟨text, rfl, hp, hl⟩ := lexemesFrom_append h
  obtain ⟨c, s, rest, rfl, hf, rfl, hm⟩ := lexemesFrom_eq_cons hl
  obtain ⟨⟨kind, text⟩, hr, rfl⟩ := Option.map_eq_some_iff.1 ht
  obtain rfl : kind = .punct m := hk
  obtain rfl : lexeme = .plain (.punct m) m.text.toList := mark_of_firstLexeme hf hr
  obtain ⟨-, rfl⟩ := Prod.mk.inj (Option.some.inj hr)
  obtain ⟨happ, -⟩ := splits_firstLexeme _ _ _ _ hf
  rw [placeBehind_after] at hm
  exact ⟨rest, congrArg _ happ.symm, rfl, by rw [String.ofList_toList], hp, hm⟩

/--
The tokens `i` and `i + 1` of a text are the marks `m` and `m'`, and `gap` stands between them. It
consists of blanks and comments.
-/
def IsGap (source : String) (i : Nat) (m m' : Punct) (gap : List Char) : Prop :=
  ∃ before rest, source.toList = before ++ m.text.toList ++ gap ++ m'.text.toList ++ rest ∧
    (tokenOffsets source)[i]? = some before.length ∧
    (tokenOffsets source)[i + 1]? = some (before.length + m.text.length + gap.length) ∧
    Partition (before ++ m.text.toList) gap []

/-- Two marks in a row are as they are written, and adjacent just if nothing is between them. -/
theorem tokenize_marks {t u : Token} {us : List Token} {m m' : Punct}
    (h : tokenize source = .ok tokens) (hi : tokens.list.drop i = t :: u :: us)
    (ht : t.kind = .punct m) (hu : u.kind = .punct m') :
    t.text = m.text ∧ ∃ gap, IsGap source i m m' gap ∧ adjacent t u = decide (gap = []) := by
  obtain ⟨ls, hl, hts, ho⟩ := tokenize_lexemes h
  rw [hts] at hi
  obtain ⟨front, x, between, y, back, rfl, hf, hx, hb, hy⟩ := tokensOf_neighbours hi
  obtain ⟨ns, hn⟩ := offsetsFrom_neighbours hf hx hb hy (shebang source.toList).length back
  obtain ⟨rest, hs, hc, rfl, -, hl⟩ := mark_of_lexemesFrom hl hx ht
  obtain ⟨rest, rfl, -, rfl, hp, -⟩ := mark_of_lexemesFrom hl hy hu
  rw [hb] at hp
  have hoffset (k : Nat) : (tokenOffsets source)[i + k]? =
      ((tokenOffsets source).drop i)[k]? := List.getElem?_drop.symm
  rw [ho, hn, hc] at hoffset
  refine ⟨rfl, charsOf between, ⟨shebang source.toList ++ charsOf front, rest, ?_, ?_, ?_, hp⟩,
    adjacent_placed m.newline_notMem rfl rfl⟩
  · conv_lhs => rw [← shebang_append source.toList, hs]
    simp only [List.append_assoc]
  · rw [ho, List.length_append]
    exact hoffset 0
  · rw [ho, List.length_append]
    exact hoffset 1

theorem IsGap.eq_nil_iff {m m' : Punct} (h : IsGap source i m m' gap) (hm : m.text.length = 1) :
    gap = [] ↔ ∃ n, (tokenOffsets source)[i]? = some n ∧
      (tokenOffsets source)[i + 1]? = some (n + 1) := by
  obtain ⟨before, rest, -, hn, hn', -⟩ := h
  rw [hn, hn', hm, ← List.length_eq_zero_iff]
  simp only [Option.some.injEq, exists_eq_left']
  omega

/-! ## Operators -/

section

variable {m : Punct} {one op : BinaryOp} {t u : Token} {ts us : List Token}

theorem Grammar.AngleOps.length_text (h : AngleOps m one op) : m.text.length = 1 := by
  cases h <;> rfl

/-- Only a shift is an operator of two tokens. -/
theorem operatorAt?_eq_two : operatorAt? ts = some (op, 2) ↔ shiftAt? ts = some op := by
  refine ⟨fun h => ?_, operatorAt?_shift⟩
  cases hs : shiftAt? ts with
  | some op' =>
    rw [operatorAt?_shift hs] at h
    cases h
    rfl
  | none =>
    cases ts with
    | nil => cases h
    | cons t us =>
      rw [operatorAt?_alone hs] at h
      split at h
      · cases h
      · obtain ⟨op', -, ho⟩ := Option.map_eq_some_iff.1 h
        cases ho

/-- Two angle brackets of one kind are a shift, or the first one is a comparison. -/
theorem Grammar.AngleOps.operatorAt?_eq (h : AngleOps m one op) (ht : t.kind = .punct m)
    (hu : u.kind = .punct m) (hv : t.text = m.text) :
    operatorAt? (t :: u :: us) = if adjacent t u then some (op, 2) else some (one, 1) := by
  cases ha : adjacent t u with
  | true =>
    exact operatorAt?_shift (h.shift ht hu ha us)
  | false =>
    rw [operatorAt?_alone (shiftAt?_spaced ha us), ht, hv]
    cases h <;> decide

end

namespace Cursor

theorem peek_behind (h : i ≤ tokens.list.length) (k : Nat) :
    (behind tokens i).peek k = tokens.list[i + k]? := by
  have hk : ¬((i : Int) + k < 0) := by omega
  simp only [peek, position_behind h, if_neg hk]
  rfl

theorem isAdjacent_behind {t u : Token} {us : List Token}
    (h : tokens.list.drop i = t :: u :: us) :
    (behind tokens i).isAdjacent 1 = adjacent t u := by
  have hi : i < tokens.list.length := List.length_lt_of_drop_ne_nil (by simp [h])
  have hpeek (k : Nat) : (behind tokens i).peek k = (t :: u :: us)[k]? := by
    rw [peek_behind hi.le, ← List.getElem?_drop, h]
  have ht : (behind tokens i).peek (1 - 1) = some t := hpeek 0
  have hu : (behind tokens i).peek 1 = some u := hpeek 1
  rw [isAdjacent, ht, hu]
  rfl

end Cursor

/-! ## Whole texts -/

/-- The kinds of two tokens in a row, if both are there. -/
theorem drop_of_kinds {k k' : Kind} (h : (tokens.list[i]?).map Token.kind = some k)
    (h' : (tokens.list[i + 1]?).map Token.kind = some k') :
    ∃ t u us, tokens.list.drop i = t :: u :: us ∧ t.kind = k ∧ u.kind = k' := by
  obtain ⟨t, ht, rfl⟩ := Option.map_eq_some_iff.1 h
  obtain ⟨u, hu, rfl⟩ := Option.map_eq_some_iff.1 h'
  refine ⟨t, u, tokens.list.drop (i + 2), ?_, rfl, rfl⟩
  rw [List.drop_eq_getElem?_toList_append, ht, List.drop_eq_getElem?_toList_append, hu]
  rfl

/--
At any token of any text an operator is read from two tokens just if these are angle brackets of
one kind, and the second one starts at the character behind the first. Where two such brackets
follow each other, only blanks and comments can stand between them. If any do, the first bracket is
a comparison.
-/
theorem shift_without_gap (h : tokenize source = .ok tokens) (i : Nat) :
    let c := Cursor.behind tokens i
    let kindAt (k : Nat) := (tokens.list[k]?).map Token.kind
    let offsetAt (k : Nat) := (tokenOffsets source)[k]?
    (∀ op, operatorAt? c.rest = some (op, 2) ↔ ∃ m one n, AngleOps m one op ∧
      kindAt i = some (.punct m) ∧ kindAt (i + 1) = some (.punct m) ∧
      offsetAt i = some n ∧ offsetAt (i + 1) = some (n + 1)) ∧
    ∀ m one op, AngleOps m one op → kindAt i = some (.punct m) → kindAt (i + 1) = some (.punct m) →
      ∃ gap, IsGap source i m m gap ∧ c.isAdjacent 1 = decide (gap = []) ∧
        operatorAt? c.rest = if gap = [] then some (op, 2) else some (one, 1) := by
  intro c kindAt offsetAt
  have hrest : c.rest = tokens.list.drop i := rfl
  refine ⟨fun op => ⟨fun ho => ?_, ?_⟩, fun m one op hm hk hk' => ?_⟩
  · obtain ⟨m, one, t, u, us, hm, hd, ht, hu, ha⟩ :=
      shiftAt?_eq_some_iff.1 (operatorAt?_eq_two.1 ho)
    rw [hrest] at hd
    have hk (k : Nat) : kindAt (i + k) = ((t :: u :: us)[k]?).map Token.kind := by
      rw [← hd, List.getElem?_drop]
    obtain ⟨-, gap, hg, hadj⟩ := tokenize_marks h hd ht hu
    obtain ⟨n, hn, hn'⟩ := (hg.eq_nil_iff hm.length_text).1 (by simpa [ha] using hadj)
    exact ⟨m, one, n, hm, (hk 0).trans (congrArg some ht), (hk 1).trans (congrArg some hu), hn, hn'⟩
  · rintro ⟨m, one, n, hm, hk, hk', hn, hn'⟩
    obtain ⟨t, u, us, hd, ht, hu⟩ := drop_of_kinds hk hk'
    obtain ⟨-, gap, hg, hadj⟩ := tokenize_marks h hd ht hu
    have ha : adjacent t u = true := by
      rw [hadj, (hg.eq_nil_iff hm.length_text).2 ⟨n, hn, hn'⟩]
      rfl
    exact operatorAt?_shift (shiftAt?_eq_some_iff.2 ⟨m, one, t, u, us, hm, hd, ht, hu, ha⟩)
  · obtain ⟨t, u, us, hd, ht, hu⟩ := drop_of_kinds hk hk'
    obtain ⟨hv, gap, hg, hadj⟩ := tokenize_marks h hd ht hu
    refine ⟨gap, hg, (Cursor.isAdjacent_behind hd).trans hadj, ?_⟩
    rw [hrest, hd, hm.operatorAt?_eq ht hu hv, hadj]
    simp only [decide_eq_true_eq]

/-- A shift behind a literal and a comment on three lines, and two comparisons around a comment. -/
theorem shift_without_gap_lines :
    let source := "\"a\nb\" /*\n*/ << c < /**/ < d"
    ∃ tokens, tokenize source = .ok tokens ∧
      operatorAt? (Cursor.behind tokens 1).rest = some (.shl, 2) ∧
      operatorAt? (Cursor.behind tokens 4).rest = some (.lt, 1) ∧
      ∃ gap, gap ≠ [] ∧ IsGap source 4 .lt .lt gap := by
  intro source
  let tokens : Tokens := ⟨[⟨.string, "\"a\nb\"", ⟨1, 1⟩⟩, ⟨.punct .lt, "<", ⟨3, 4⟩⟩,
    ⟨.punct .lt, "<", ⟨3, 5⟩⟩, ⟨.identifier, "c", ⟨3, 7⟩⟩, ⟨.punct .lt, "<", ⟨3, 9⟩⟩,
    ⟨.punct .lt, "<", ⟨3, 16⟩⟩, ⟨.identifier, "d", ⟨3, 18⟩⟩], ⟨3, 19⟩⟩
  have ht : tokenize source = .ok tokens := ok_of_toOption (by decide +kernel)
  have ho : (tokenOffsets source).drop 1 = [12, 13, 15, 17, 24, 26] := by decide +kernel
  have hoffset (k : Nat) : (tokenOffsets source)[1 + k]? = [12, 13, 15, 17, 24, 26][k]? := by
    rw [← ho, List.getElem?_drop]
  obtain ⟨gap, hg, ha, hop⟩ := (shift_without_gap ht 4).2 .lt .lt .shl .lt rfl rfl
  have hne : gap ≠ [] := by
    rintro rfl
    exact absurd ha (by decide)
  refine ⟨tokens, ht, ?_, hop.trans (if_neg hne), gap, hne, hg⟩
  exact ((shift_without_gap ht 1).1 .shl).2
    ⟨.lt, .lt, 12, .lt, rfl, rfl, hoffset 0, hoffset 1⟩

end Ferrotype
