import Ferrotype.Proofs.Except
import Ferrotype.Proofs.Grammar.Frame
import Ferrotype.Proofs.Token.Append
import Ferrotype.Token.Scan

/-!
# Tokens of texts on further lines

The tokens of two texts with a new line between them are the tokens of the first one, and those
of the second one moved down.
-/

namespace Ferrotype

open Text

variable {p : Position} {c : Char} {s t u rest : List Char} {l : Lexeme} {ts : List Token}

/-! ## Places -/

def Position.down (k : Nat) (p : Position) : Position := { p with line := p.line + k }

theorem Position.next_down (k : Nat) (p : Position) (c : Char) :
    (p.down k).next c = (p.next c).down k := by
  by_cases hc : c = '\n'
  · simp only [next, hc, if_pos, down]
    congr 1
    omega
  · simp only [next, hc, if_false, down]

theorem Position.after_down (k : Nat) (p : Position) (s : List Char) :
    (p.down k).after s = (p.after s).down k := by
  induction s generalizing p with
  | nil => rfl
  | cons c s ih => rw [after_cons, after_cons, next_down, ih]

/-- Behind a new line the next line starts, whatever stood before it. -/
theorem Position.after_line (p : Position) (s : List Char) :
    p.after (s ++ ['\n']) = ⟨p.line + (s.count '\n' + 1), 1⟩ := by
  induction s generalizing p with
  | nil => rfl
  | cons c s ih =>
    rw [List.cons_append, after_cons, ih, List.count_cons]
    by_cases hc : c = '\n'
    · simp [hc, next]
      omega
    · simp [hc, next]

/-! ## Tokens from a place on -/

/-- The tokens of a text that starts at `p`. -/
def tokensFrom (p : Position) (s : List Char) : Except (LexFault × Position) (List Token) :=
  (lexemesFrom p s).map fun ls => ls.filterMap fun l => l.1.token? l.2

theorem lexemesFrom_ok (h : firstLexeme c t = .ok (l, rest)) (p : Position) :
    lexemesFrom p (c :: t) = (lexemesFrom (p.after l.chars) rest).map ((l, p) :: ·) := by
  rw [lexemesFrom]
  split
  · next hf =>
    rw [h] at hf
    cases hf
  · next hf =>
    rw [h] at hf
    cases hf
    rfl

@[simp] theorem tokensFrom_nil (p : Position) : tokensFrom p [] = .ok [] := by
  rw [tokensFrom, lexemesFrom]
  rfl

theorem tokensFrom_cut (h : firstLexeme c t = .ok (l, rest)) (p : Position) :
    tokensFrom p (c :: t) =
      (tokensFrom (p.after l.chars) rest).map ((l.token? p).toList ++ ·) := by
  rw [tokensFrom, lexemesFrom_ok h, tokensFrom]
  cases lexemesFrom (p.after l.chars) rest with
  | error => rfl
  | ok ls =>
    simp only [Except.map, List.filterMap_cons]
    cases l.token? p <;> rfl

theorem tokensFrom_fault {fault : LexFault} (h : firstLexeme c t = .error fault) (p : Position) :
    tokensFrom p (c :: t) = .error (fault, p) := by
  rw [tokensFrom, lexemesFrom]
  split
  · next hf =>
    rw [h] at hf
    cases hf
    rfl
  · next hf =>
    rw [h] at hf
    cases hf

theorem tokensFrom_blanks (hc : isBlank c = true) (p : Position) (s : List Char) :
    tokensFrom p (c :: s) =
      tokensFrom ((p.next c).after (s.takeWhile isBlank)) (s.dropWhile isBlank) := by
  rw [tokensFrom_cut (firstLexeme_blank hc s)]
  change (tokensFrom ((p.next c).after (s.takeWhile isBlank)) _).map ([] ++ ·) = _
  cases tokensFrom ((p.next c).after (s.takeWhile isBlank)) (s.dropWhile isBlank) <;> rfl

/-- A blank before other text leaves no token. -/
theorem tokensFrom_blank (hc : isBlank c = true) (p : Position) (s : List Char) :
    tokensFrom p (c :: s) = tokensFrom (p.next c) s := by
  rw [tokensFrom_blanks hc]
  cases s with
  | nil => rfl
  | cons d s =>
    by_cases hd : isBlank d = true
    · rw [tokensFrom_blanks hd]
      simp [hd]
    · simp [hd]

/-- What is behind the first lexeme is shorter than the text. -/
theorem tokensFrom_cons (h : tokensFrom p (c :: t) = .ok ts) :
    ∃ l rest ts', firstLexeme c t = .ok (l, rest) ∧ l.chars ++ rest = c :: t ∧
      rest.length ≤ t.length ∧ tokensFrom (p.after l.chars) rest = .ok ts' ∧
      ts = (l.token? p).toList ++ ts' := by
  cases hf : firstLexeme c t with
  | error fault =>
    rw [tokensFrom_fault hf] at h
    cases h
  | ok r =>
    obtain ⟨l, rest⟩ := r
    rw [tokensFrom_cut hf] at h
    obtain ⟨ts', hts, rfl⟩ := Except.map_eq_ok.1 h
    obtain ⟨happ, hne⟩ := splits_firstLexeme c t l rest hf
    have hl := firstLexeme_length hf
    simp only [List.length_cons] at hl
    exact ⟨l, rest, ts', rfl, happ, by omega, hts, rfl⟩

/-- Induction along the tokens of a text: a blank is passed over, any other lexeme is cut off. -/
theorem tokensFrom_induction (motive : Position → List Char → List Token → Prop)
    (nil : ∀ p, motive p [] [])
    (blank : ∀ p c s ts, isBlank c = true → motive (p.next c) s ts → motive p (c :: s) ts)
    (lexeme : ∀ p c s l rest ts, isBlank c = false → firstLexeme c s = .ok (l, rest) →
      l.chars ++ rest = c :: s → motive (p.after l.chars) rest ts →
        motive p (c :: s) ((l.token? p).toList ++ ts))
    (h : tokensFrom p s = .ok ts) : motive p s ts := by
  induction hn : s.length using Nat.strongRecOn generalizing p s ts with
  | ind n ih =>
  subst hn
  cases s with
  | nil =>
    rw [tokensFrom_nil] at h
    cases h
    exact nil p
  | cons c s =>
    by_cases hc : isBlank c = true
    · rw [tokensFrom_blank hc] at h
      exact blank p c s ts hc (ih s.length (by simp) h rfl)
    · obtain ⟨l, rest, ts, hf, happ, hl, hts, rfl⟩ := tokensFrom_cons h
      have hr := ih rest.length (by rw [List.length_cons]; omega) hts rfl
      exact lexeme p c s l rest ts (by simpa using hc) hf happ hr

/-! ## Further down -/

theorem Lexeme.token?_down (l : Lexeme) (k : Nat) (p : Position) :
    (l.token? (p.down k)).toList = (l.token? p).toList.map (Token.down k) := by
  unfold token?
  cases l.token <;> rfl

/-- A text that starts some lines further down has its tokens there. -/
theorem tokensFrom_down (k : Nat) (h : tokensFrom p s = .ok ts) :
    tokensFrom (p.down k) s = .ok (ts.map (Token.down k)) := by
  refine tokensFrom_induction
    (fun p s ts => tokensFrom (p.down k) s = .ok (ts.map (Token.down k))) ?_ ?_ ?_ h
  · exact fun p => tokensFrom_nil _
  · intro p c s ts hc ih
    rw [tokensFrom_blank hc, Position.next_down, ih]
  · intro p c s l rest ts _ hf _ ih
    rw [tokensFrom_cut hf, Position.after_down, ih, Lexeme.token?_down, List.map_append]
    rfl

/-! ## Texts on further lines -/

/-- The tokens of a text stay the same if a new line and another text come behind. -/
theorem tokensFrom_line (h : tokensFrom p s = .ok ts) (u : List Char) :
    tokensFrom p (s ++ '\n' :: u) =
      (tokensFrom (p.after (s ++ ['\n'])) u).map (ts ++ ·) := by
  refine tokensFrom_induction (fun p s ts => tokensFrom p (s ++ '\n' :: u) =
    (tokensFrom (p.after (s ++ ['\n'])) u).map (ts ++ ·)) ?_ ?_ ?_ h
  · intro p
    rw [List.nil_append, tokensFrom_blank (by decide)]
    cases h : tokensFrom (p.next '\n') u <;> simp [h, Except.map]
  · intro p c s ts hc ih
    rw [List.cons_append, tokensFrom_blank hc, ih]
    rfl
  · intro p c s l rest ts hc hf happ ih
    have hf := firstLexeme_break (n := '\n') rfl (by simp [hc]) (fun h => absurd rfl h) u l rest hf
    rw [List.cons_append, tokensFrom_cut hf, ih, ← Position.after_append, ← List.append_assoc, happ]
    cases tokensFrom (p.after (c :: s ++ ['\n'])) u <;> simp [Except.map]

/-! ## Whole texts -/

/-- The tokens of a whole text are those behind its interpreter line. -/
theorem tokenize_eq (source : String) :
    tokenize source =
      match tokensFrom (Position.start.after (shebang source.toList))
          (source.toList.drop (shebang source.toList).length) with
      | .error (fault, p) => .error ⟨.lexical fault, some p⟩
      | .ok list => .ok ⟨list, Position.start.after source.toList⟩ := by
  obtain ⟨pre, hpre, hl⟩ : ∃ pre : List (Lexeme × Position), (∀ l ∈ pre, l.1.token? l.2 = none) ∧
      lexemes source.toList = (lexemesFrom (Position.start.after (shebang source.toList))
        (source.toList.drop (shebang source.toList).length)).map (pre ++ ·) := by
    unfold lexemes
    split
    · next h =>
      refine ⟨[], by simp, ?_⟩
      rw [h]
      cases hr : lexemesFrom .start source.toList <;> simp [hr, Except.map]
    · exact ⟨[(.skipped (shebang source.toList), .start)], by simp [Lexeme.token?, Lexeme.skipped], rfl⟩
  have hp := List.filterMap_eq_nil_iff.2 hpre
  unfold tokenize tokensFrom
  rw [hl]
  cases lexemesFrom (Position.start.after (shebang source.toList))
    (source.toList.drop (shebang source.toList).length) with
  | error e => simp [Except.map]
  | ok ls => simp [Except.map, List.filterMap_append, hp]

theorem tokenize_eq_ok {source : String} {tokens : Tokens} :
    tokenize source = .ok tokens ↔
      tokensFrom (Position.start.after (shebang source.toList))
          (source.toList.drop (shebang source.toList).length) = .ok tokens.list ∧
        tokens.finish = Position.start.after source.toList := by
  obtain ⟨list, finish⟩ := tokens
  rw [tokenize_eq]
  cases tokensFrom (Position.start.after (shebang source.toList))
    (source.toList.drop (shebang source.toList).length) with
  | error e => simp
  | ok ls => simp [eq_comm]

theorem tokensFrom_dropWhile (p : Position) (s : List Char) :
    ∃ q, tokensFrom p s = tokensFrom q (s.dropWhile isBlank) := by
  induction s generalizing p with
  | nil => exact ⟨p, rfl⟩
  | cons c s ih =>
    by_cases hc : isBlank c = true
    · obtain ⟨q, hq⟩ := ih (p.next c)
      exact ⟨q, by rw [tokensFrom_blank hc, hq, List.dropWhile_cons_of_pos hc]⟩
    · exact ⟨p, by rw [List.dropWhile_cons_of_neg hc]⟩

theorem firstLexeme_bracket (s : List Char) :
    firstLexeme '[' s = .ok (.plain (.opener .bracket) ['['], s) := by
  have hm : mark? ('[' :: s) = some (.opener .bracket, ['[']) := by
    have hp : Punct.ofStart? ('[' :: s) = none := by
      refine List.find?_eq_none.2 fun p _ => ?_
      cases p <;> simp [Punct.text, List.isPrefixOf]
    simp [mark?, hp, Delim.all, Delim.openChar]
  have ho : opensLexeme '[' s = false := by
    cases s <;> rfl
  exact firstLexeme_eq_ok.2 (.mark ho hm rfl)

/-- A text that starts with a square bracket has that as its first token. -/
theorem tokensFrom_bracket (h : tokensFrom p s = .ok ts)
    (hs : (s.dropWhile isBlank).head? = some '[') :
    ts.head?.map Token.kind = some (.opener .bracket) := by
  obtain ⟨q, hq⟩ := tokensFrom_dropWhile p s
  obtain ⟨t, ht⟩ : ∃ t, s.dropWhile isBlank = '[' :: t := by
    cases hd : s.dropWhile isBlank <;> simp_all
  rw [hq, ht, tokensFrom_cut (firstLexeme_bracket t)] at h
  change (tokensFrom (q.next '[') t).map _ = _ at h
  cases hr : tokensFrom (q.next '[') t with
  | error => rw [hr] at h; cases h
  | ok => rw [hr] at h; cases h; rfl

theorem prefix_shebang (s : List Char) : shebang s <+: s := by
  unfold shebang
  split
  · split
    · exact List.nil_prefix
    · exact List.takeWhile_prefix _
  · exact List.nil_prefix

/-- Only `#!` starts an interpreter line. -/
theorem shebang_eq_nil {d : Char} (h : ¬(c = '#' ∧ d = '!')) (t : List Char) :
    shebang (c :: d :: t) = [] := by
  unfold shebang
  split
  · next h' => simp_all
  · rfl

/-- The interpreter line is that of the first text, unless it might be an attribute. -/
theorem shebang_line (s : List Char) (hu : (u.dropWhile isBlank).head? ≠ some '[') :
    shebang (s ++ '\n' :: u) = shebang s := by
  match s with
  | [] => rfl
  | [c] => simp [shebang]
  | c :: d :: t =>
    by_cases hcd : c = '#' ∧ d = '!'
    · obtain ⟨rfl, rfl⟩ := hcd
      have hh : ((t ++ '\n' :: u).dropWhile isBlank).head? = some '[' ↔
          (t.dropWhile isBlank).head? = some '[' := by
        have hn : isBlank '\n' = true := by decide
        rw [List.dropWhile_append]
        split
        · next he =>
          simp only [List.isEmpty_iff] at he
          simp [he, hn, hu]
        · next he =>
          cases hd : t.dropWhile isBlank <;> simp_all
      have ht := takeWhile_break (n := '\n') (p := (· ≠ '\n')) (by simp) ('#' :: '!' :: t) u
      simp only [List.cons_append] at ht ⊢
      simp only [shebang, hh, ht]
    · simp only [List.cons_append, shebang_eq_nil hcd]

/--
The tokens of two texts with a new line between them. The second text must not start with an
interpreter line, nor with what may turn one above it into an attribute.
-/
theorem tokenize_line {a b : String} {ta tb : Tokens} (ha : tokenize a = .ok ta)
    (hb : tokenize b = .ok tb) (hs : ¬"#!".toList <+: b.toList)
    (ht : tb.list.head?.map Token.kind ≠ some (.opener .bracket)) :
    ∃ finish, tokenize (a ++ "\n" ++ b) =
      .ok ⟨ta.list ++ tb.list.map (Token.down (a.toList.count '\n' + 1)), finish⟩ := by
  obtain ⟨ha, -⟩ := tokenize_eq_ok.1 ha
  obtain ⟨hb, -⟩ := tokenize_eq_ok.1 hb
  have hn : shebang b.toList = [] := by
    unfold shebang
    split
    · next t h => exact absurd ⟨t, h.symm⟩ hs
    · rfl
  rw [hn] at hb
  have hd := tokensFrom_down (a.toList.count '\n' + 1) hb
  have hu : (b.toList.dropWhile isBlank).head? ≠ some '[' := fun h => ht (tokensFrom_bracket hb h)
  have htoList : (a ++ "\n" ++ b).toList = a.toList ++ '\n' :: b.toList := by simp
  refine ⟨_, tokenize_eq_ok.2 ⟨?_, rfl⟩⟩
  have hpre := prefix_shebang a.toList
  have hline : (Position.start.after (shebang a.toList)).after
      (a.toList.drop (shebang a.toList).length ++ ['\n']) =
        Position.start.down (a.toList.count '\n' + 1) := by
    rw [← Position.after_append, ← List.append_assoc, List.prefix_iff_eq_append.1 hpre,
      Position.after_line]
    rfl
  rw [htoList, shebang_line a.toList hu, List.drop_append_of_le_length hpre.length_le,
    tokensFrom_line ha, hline]
  simp only [Position.after_nil, List.length_nil, List.drop_zero] at hd
  rw [hd]
  rfl

end Ferrotype
